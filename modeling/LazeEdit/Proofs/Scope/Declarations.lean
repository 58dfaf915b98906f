import LazeEdit.Proofs.Scope.Events
import LazeEdit.Proofs.Token.Merge

/-!
# Declarations among the events

The ends of scopes, signature lists and loop clauses declare nothing, so that the declarations among
the events of a document are those of its classification. Sorting the events keeps them in their
order when they stand in the order of their offsets (`filter_scopeEvents`).
-/

namespace LazeEdit

variable {t : Text} {c : Classification} {e : ScopeEvent} {kind : SymbolKind}

/-- Whether an event declares a symbol of a kind. -/
def ScopeEvent.isDeclaration (kind : SymbolKind) (e : ScopeEvent) : Bool :=
  e.kind = .declares kind

lemma isDeclaration_of_mem_braceEventsFrom {offset : Nat} (h : e ∈ braceEventsFrom offset t) :
    ¬ e.isDeclaration kind := by
  induction t generalizing offset with
  | nil => cases h
  | cons d ds ih =>
    rw [braceEventsFrom] at h
    split at h
    · obtain rfl | h := List.mem_cons.mp h
      · exact Bool.false_ne_true
      · exact ih h
    split at h
    · obtain rfl | h := List.mem_cons.mp h
      · exact Bool.false_ne_true
      · exact ih h
    · exact ih h

lemma Ends.isDeclaration_of_mem_events {ends : Ends} {extent : Extent} {name : Text}
    (h : e ∈ ends.events extent name) : ¬ e.isDeclaration kind := by
  simp only [Ends.events, List.mem_cons, List.not_mem_nil, or_false] at h
  obtain rfl | rfl := h <;> exact Bool.false_ne_true

lemma isDeclaration_of_mem_signatureEvents {d : Declaration} (h : e ∈ signatureEvents t d) :
    ¬ e.isDeclaration kind := by
  rw [signatureEvents] at h
  split at h
  case h_1 => cases h
  case h_2 signature _ =>
    rw [Signature.events] at h
    obtain h | h := List.mem_append.mp h
    · exact Ends.isDeclaration_of_mem_events h
    split at h
    case h_1 => cases h
    case h_2 results _ =>
      obtain h | h := List.mem_append.mp h
      · exact Ends.isDeclaration_of_mem_events h
      split at h
      case h_1 => cases h
      case h_2 body _ => exact Ends.isDeclaration_of_mem_events h

lemma isDeclaration_of_mem_loopEvents (h : e ∈ loopEvents t) : ¬ e.isDeclaration kind := by
  obtain ⟨l, _, h⟩ := List.mem_flatMap.mp h
  simp only [Loop.events, List.mem_append] at h
  obtain (h | h) | h := h <;> exact Ends.isDeclaration_of_mem_events h

lemma isDeclaration_of_mem_repeatEvents (h : e ∈ repeatEvents t) : ¬ e.isDeclaration kind := by
  obtain ⟨n, _, rfl⟩ := List.mem_map.mp h
  exact Bool.false_ne_true

/-- The declarations among the events of a document are those of its classification. -/
lemma filter_innerEvents :
    (innerEvents t c).filter (·.isDeclaration kind) = c.events.filter (·.isDeclaration kind) := by
  have hsignatures : ∀ e ∈ c.functions.flatMap (signatureEvents t), ¬ e.isDeclaration kind := by
    intro e he
    obtain ⟨d, _, he⟩ := List.mem_flatMap.mp he
    exact isDeclaration_of_mem_signatureEvents he
  rw [innerEvents, List.filter_append, List.filter_append, List.filter_append, List.filter_append,
    List.filter_eq_nil_iff.mpr fun e he => isDeclaration_of_mem_braceEventsFrom he,
    List.filter_eq_nil_iff.mpr hsignatures,
    List.filter_eq_nil_iff.mpr fun e he => isDeclaration_of_mem_loopEvents he,
    List.filter_eq_nil_iff.mpr fun e he => isDeclaration_of_mem_repeatEvents he,
    List.nil_append, List.append_nil, List.append_nil, List.append_nil]

/-- Declarations in the order of their offsets stand in that order among the events. -/
lemma filter_scopeEvents
    (h : (c.events.filter (·.isDeclaration kind)).Pairwise (fun a b => a.offset ≤ b.offset)) :
    (scopeEvents t c).filter (·.isDeclaration kind) = c.events.filter (·.isDeclaration kind) := by
  have hsorted : ((innerEvents t c).mergeSort fun a b => a.offset ≤ b.offset).filter
      (·.isDeclaration kind) = (innerEvents t c).filter (·.isDeclaration kind) := by
    apply filter_mergeSort offset_le_trans offset_le_total
    rw [filter_innerEvents]
    exact h.imp fun hle => decide_eq_true hle
  have hlast : ([{ offset := t.length, kind := .closes .scope }] : List ScopeEvent).filter
      (·.isDeclaration kind) = [] := rfl
  rw [scopeEvents, List.filter_append, hlast, List.append_nil]
  exact hsorted.trans filter_innerEvents

lemma filter_events_value :
    c.events.filter (·.isDeclaration .value) = c.bindings.map (·.event .value) := by
  simp [Classification.events, List.filter_map, Function.comp_def, ScopeEvent.isDeclaration,
    Declaration.event, Declaration.plainEvent]

lemma filter_events_classType :
    c.events.filter (·.isDeclaration .classType) = c.classes.map (·.plainEvent .classType) := by
  simp [Classification.events, List.filter_map, Function.comp_def, ScopeEvent.isDeclaration,
    Declaration.event, Declaration.plainEvent]

end LazeEdit
