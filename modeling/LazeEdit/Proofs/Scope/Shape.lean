import LazeEdit.Proofs.Scope.Clauses
import LazeEdit.Proofs.Scope.Declarations
import LazeEdit.Proofs.Scope.Tail

/-!
# The shape of the events of a document

The events of a document stand in the order of their offsets, inside the scope of the whole document
(`scopeEvents_shape`). The stretches of a signature and the clauses of a loop stand in a row, one
behind the other (`Row`), so the events of each grow strictly and go by turns from a beginning to an
end. Only braces begin and end scopes without a name, since the scope of an expression body has the
name of its function.
-/

namespace LazeEdit

variable {t : Text} {s : Site} {e : ScopeEvent} {name : Text}

/-! ### Stretches in a row -/

/-- Stretches of which the first begins at an offset or behind it, and each ends before the next
begins. -/
inductive Row : Nat → List (Extent × Ends) → Prop where
  | nil {n} : Row n []
  | cons {n extent ends row} :
    n ≤ ends.opening →
    ends.opening < ends.closing →
    Row (ends.closing + 1) row →
    Row n ((extent, ends) :: row)

/-- The events of stretches that have one name. -/
def rowEvents (name : Text) (row : List (Extent × Ends)) : List ScopeEvent :=
  row.flatMap fun x => x.2.events x.1 name

lemma exists_of_mem_rowEvents {row : List (Extent × Ends)} (h : e ∈ rowEvents name row) :
    ∃ x ∈ row, e = ⟨x.2.opening, .opens x.1, name, none⟩ ∨
      e = ⟨x.2.closing, .closes x.1, name, none⟩ := by
  obtain ⟨x, hx, he⟩ := List.mem_flatMap.mp h
  exact ⟨x, hx, Ends.eq_of_mem_events he⟩

namespace Row

variable {n : Nat} {row : List (Extent × Ends)}

lemma le_offset (h : Row n row) (he : e ∈ rowEvents name row) : n ≤ e.offset := by
  induction h with
  | nil => cases he
  | @cons n extent ends row hle hlt _ ih =>
    obtain he | he := List.mem_append.mp he
    · obtain rfl | rfl := Ends.eq_of_mem_events he
      · exact Int.ofNat_le.mpr hle
      · exact Int.ofNat_le.mpr (Nat.le_trans hle (Nat.le_of_lt hlt))
    · have hbehind := ih he
      omega

/-- The offsets of stretches in a row grow strictly. -/
lemma pairwise (h : Row n row) (name : Text) :
    (rowEvents name row).Pairwise fun a b => a.offset < b.offset := by
  induction h with
  | nil => exact .nil
  | @cons n extent ends row _ hlt hrow ih =>
    have hends : (ends.events extent name).Pairwise fun a b => a.offset < b.offset :=
      List.pairwise_pair.mpr (Int.ofNat_lt.mpr hlt)
    refine List.pairwise_append.mpr ⟨hends, ih, fun a ha b hb => ?_⟩
    have hbehind := hrow.le_offset hb
    obtain rfl | rfl := Ends.eq_of_mem_events ha
    · show (ends.opening : Int) < b.offset
      omega
    · show (ends.closing : Int) < b.offset
      omega

end Row

/-! ### Signatures -/

/-- The stretches of the results of a function. -/
def Results.row (r : Results) : List (Extent × Ends) :=
  (.signature, r.list) :: match r.body with
    | none => []
    | some body => [(.scope, body)]

/-- The stretches of a signature. -/
def Signature.row (s : Signature) : List (Extent × Ends) :=
  (.signature, s.parameters) :: match s.results with
    | none => []
    | some r => r.row

lemma Signature.events_eq (s : Signature) (name : Text) : s.events name = rowEvents name s.row := by
  obtain ⟨parameters, _ | ⟨list, _ | body⟩⟩ := s
  · rfl
  · rfl
  · rfl

namespace Site

lemma lt_offset_of_next {s' : Site} {p : Char → Bool} (e : s.skipBlanks.char? p = some s') :
    s.offset < s'.offset := by
  obtain ⟨_, _, _, _, rfl⟩ := char?_eq_some e
  rw [advance_offset]
  exact Nat.lt_succ_of_le (s.offset_le_skipWhile isBlank)

lemma row_of_expressionBody? {body : Ends} (e : s.expressionBody? = some body) :
    Row s.offset [(.scope, body)] := by
  obtain ⟨inner, hinner, e⟩ := Option.bind_eq_some_iff.mp e
  cases e
  obtain ⟨_, _, _, _, rfl⟩ := char?_eq_some hinner
  have hlt := (s.skipBlanks.advance 1).offset_le_skipWhile fun c => c != ';' && c != '\n'
  rw [advance_offset] at hlt
  exact .cons (s.offset_le_skipWhile isBlank) hlt .nil

/-- A search behind an opening parenthesis ends behind it. -/
lemma In.exists_close {α : Type} {k : Site → Option α} {x : α} {inner : Site} (h : s.In t)
    (hinner : s.char? isOpenParen = some inner) (e : inner.searchLine isCloseParen k = some x) :
    ∃ close : Site, (close.advance 1).In t ∧ s.offset < close.offset ∧ k close = some x := by
  obtain ⟨close, hclose, hle, hchar, hk⟩ := (h.char? hinner).exists_of_searchLine e
  obtain ⟨_, _, _, _, rfl⟩ := char?_eq_some hinner
  rw [advance_offset] at hle
  exact ⟨close, hclose.next hchar, hle, hk⟩

lemma In.row_of_results? {results : Results} (h : s.In t) (e : s.results? = some results) :
    Row s.offset results.row := by
  obtain ⟨equals, hequals, e⟩ := Option.bind_eq_some_iff.mp e
  obtain ⟨arrow, harrow, e⟩ := Option.bind_eq_some_iff.mp e
  obtain ⟨inner, hinner, e⟩ := Option.bind_eq_some_iff.mp e
  have hin := (((h.skipWhile isBlank).char? hequals).skipWhile isBlank).char? harrow
  obtain ⟨close, _, hlt, e⟩ := (hin.skipWhile isBlank).exists_close hinner e
  cases e
  have hequal := lt_offset_of_next hequals
  have hgreater := lt_offset_of_next harrow
  refine .cons (Nat.le_trans (by omega) (arrow.offset_le_skipWhile isBlank)) hlt ?_
  cases hbody : (close.advance 1).expressionBody? with
  | none => exact .nil
  | some body =>
    have hrow := row_of_expressionBody? hbody
    rwa [advance_offset] at hrow

lemma In.row_of_signature? {signature : Signature} (h : s.In t)
    (e : s.signature? = some signature) :
    NextChar t isOpenParen s.offset signature.parameters.opening ∧ Row s.offset signature.row := by
  obtain ⟨inner, hinner, e⟩ := Option.bind_eq_some_iff.mp e
  obtain ⟨hnext, _⟩ := h.nextChar hinner
  obtain e | e := eq_some_or_of_orElse e
  · obtain ⟨close, hclose, hlt, e⟩ := (h.skipWhile isBlank).exists_close hinner e
    obtain ⟨results, hresults, rfl⟩ := Option.map_eq_some_iff.mp e
    have hrow := hclose.row_of_results? hresults
    rw [advance_offset] at hrow
    exact ⟨hnext, .cons hnext.blanks.le hlt hrow⟩
  · obtain ⟨close, _, hlt, e⟩ := (h.skipWhile isBlank).exists_close hinner e
    cases e
    exact ⟨hnext, .cons hnext.blanks.le hlt .nil⟩

end Site

/-- The shape of the events of the signature of a function: up to three stretches, of which the first
is the list behind the name. -/
structure SignatureShape (t : Text) (d : Declaration) (events : List ScopeEvent) : Prop where
  count : events.length ∈ [0, 2, 4, 6]
  kinds : events.map (·.kind) <+: [.opens .signature, .closes .signature, .opens .signature,
    .closes .signature, .opens .scope, .closes .scope]
  increasing : events.Pairwise fun a b => a.offset < b.offset
  named : ∀ e ∈ events, e.name = d.name
  first : ∀ e ∈ events.head?, ∃ a, NextChar t isOpenParen d.stop.toNat a ∧ e.offset = a

lemma Signature.kinds_events (s : Signature) (name : Text) :
    (s.events name).map (·.kind) <+: [.opens .signature, .closes .signature, .opens .signature,
      .closes .signature, .opens .scope, .closes .scope] := by
  obtain ⟨parameters, _ | ⟨list, _ | body⟩⟩ := s
  · exact ⟨_, rfl⟩
  · exact ⟨_, rfl⟩
  · exact ⟨[], rfl⟩

lemma Signature.length_events (s : Signature) (name : Text) :
    (s.events name).length ∈ [0, 2, 4, 6] := by
  obtain ⟨parameters, _ | ⟨list, _ | body⟩⟩ := s
  · exact (by decide : 2 ∈ [0, 2, 4, 6])
  · exact (by decide : 4 ∈ [0, 2, 4, 6])
  · exact (by decide : 6 ∈ [0, 2, 4, 6])

lemma signatureShape_of_mem_functions {d : Declaration} (h : d ∈ (classify t).functions) :
    SignatureShape t d (signatureEvents t d) := by
  rw [signatureEvents]
  split
  case h_1 => exact ⟨by decide, List.nil_prefix, .nil, by simp, by simp⟩
  case h_2 signature hsignature =>
    have hstop : d.stop.toNat ≤ t.length := by
      have := (stop_le_of_mem_functions h).2
      omega
    obtain ⟨hnext, hrow⟩ := (Site.ofOffset_in t _).row_of_signature? hsignature
    rw [Site.ofOffset_offset hstop] at hnext
    refine ⟨signature.length_events _, signature.kinds_events _, ?_, ?_, ?_⟩
    · rw [signature.events_eq]
      exact hrow.pairwise _
    · intro e he
      rw [signature.events_eq] at he
      obtain ⟨x, _, rfl | rfl⟩ := exists_of_mem_rowEvents he
      · rfl
      · rfl
    · rintro _ ⟨⟩
      exact ⟨_, hnext, rfl⟩

/-! ### Loops -/

/-- The clauses of a loop. -/
def Loop.row (l : Loop) : List (Extent × Ends) :=
  [(.loopDeclaration, l.declaration), (.loopCondition, l.condition), (.loopStep, l.step)]

lemma Loop.events_eq (l : Loop) : l.events = rowEvents [] l.row :=
  rfl

lemma Loop.In.row {l : Loop} (h : l.In t) : Row l.declaration.opening l.row :=
  .cons (Nat.le_refl _) h.declaration
    (.cons h.condition_behind h.condition (.cons h.step_behind h.step .nil))

/-- The shape of the events of a loop: three clauses in parentheses. -/
structure LoopShape (t : Text) (events : List ScopeEvent) : Prop where
  kinds : events.map (·.kind) = [.opens .loopDeclaration, .closes .loopDeclaration,
    .opens .loopCondition, .closes .loopCondition, .opens .loopStep, .closes .loopStep]
  increasing : events.Pairwise fun a b => a.offset < b.offset
  opening : ∀ e ∈ events, ∀ extent, e.kind = .opens extent →
    ∃ i : Nat, e.offset = i ∧ CharAt t isOpenParen i
  closing : ∀ e ∈ events, ∀ extent, e.kind = .closes extent →
    ∃ i : Nat, e.offset = i ∧ CharAt t isCloseParen i

lemma loopShape_of_mem_loops {l : Loop} (h : l ∈ occurrences findLoop t) :
    LoopShape t l.events := by
  obtain ⟨o, n, hfound⟩ := mem_occurrences.mp h
  obtain ⟨hdeclaration, hcondition, hstep⟩ :=
    listEnd_of_findLoop (Site.ofOffset_in t o) hfound.finds
  have hlist : ∀ x ∈ l.row, ParenList t x.2.opening x.2.closing := by
    simp [Loop.row, hdeclaration.list, hcondition.list, hstep.list]
  rw [l.events_eq]
  refine ⟨rfl, (in_of_mem_loops h).row.pairwise [], ?_, ?_⟩
  · intro e he extent hkind
    obtain ⟨x, hx, rfl | rfl⟩ := exists_of_mem_rowEvents he
    · exact ⟨_, rfl, (hlist x hx).opening⟩
    · cases hkind
  · intro e he extent hkind
    obtain ⟨x, hx, rfl | rfl⟩ := exists_of_mem_rowEvents he
    · cases hkind
    · exact ⟨_, rfl, (hlist x hx).closing⟩

/-! ### Braces -/

/-- The event of a brace at an offset. -/
def braceEvent? : Char × Nat → Option ScopeEvent
  | (c, i) =>
    if isOpenBrace c then some ⟨i, .opens .scope, [], none⟩
    else if isCloseBrace c then some ⟨i, .closes .scope, [], none⟩
    else none

lemma braceEventsFrom_eq (t : Text) (offset : Nat) :
    braceEventsFrom offset t = (t.zipIdx offset).filterMap braceEvent? := by
  induction t generalizing offset with
  | nil => rfl
  | cons c cs ih =>
    rw [braceEventsFrom, List.zipIdx_cons, List.filterMap_cons, ih, braceEvent?]
    split
    · rfl
    split
    · rfl
    · rfl

/-! ### All events -/

/-- Whether an event is an end of a scope without a name. -/
def ScopeEvent.isUnnamedScope (e : ScopeEvent) : Bool :=
  e.kind.extent? = some .scope ∧ e.name = []

lemma name_ne_nil_of_mem_functions {d : Declaration} (h : d ∈ (classify t).functions) :
    d.name ≠ [] := by
  obtain ⟨_, f, o, _, hfound, rfl⟩ := exists_of_mem_functions h
  have hlt := (isWord_of_findFunction (Site.ofOffset_in t o) hfound.finds).lt
  rw [Piece.stop] at hlt
  show f.name.text ≠ []
  exact List.length_pos_iff.mp (by omega)

lemma isUnnamedScope_of_mem_braceEventsFrom {offset : Nat} (h : e ∈ braceEventsFrom offset t) :
    e.isUnnamedScope := by
  rw [braceEventsFrom_eq] at h
  obtain ⟨⟨c, i⟩, _, h⟩ := List.mem_filterMap.mp h
  rw [braceEvent?] at h
  split at h
  · cases h
    rfl
  split at h
  · cases h
    rfl
  · cases h

/-- Of the events of a document, braces alone are ends of scopes without a name. -/
lemma filter_isUnnamedScope :
    (innerEvents t (classify t)).filter ScopeEvent.isUnnamedScope = braceEventsFrom 0 t := by
  have hevents : ∀ e ∈ (classify t).events, ¬ e.isUnnamedScope := by
    intro e he hscope
    rw [ScopeEvent.isUnnamedScope, extent_of_mem_events he] at hscope
    cases hscope
  have hsignatures : ∀ e ∈ (classify t).functions.flatMap (signatureEvents t),
      ¬ e.isUnnamedScope := by
    intro e he hscope
    obtain ⟨d, hd, he⟩ := List.mem_flatMap.mp he
    have hname := (signatureShape_of_mem_functions hd).named e he
    exact name_ne_nil_of_mem_functions hd (hname.symm.trans (of_decide_eq_true hscope).2)
  have hloops : ∀ e ∈ loopEvents t, ¬ e.isUnnamedScope := by
    intro e he hscope
    obtain ⟨l, _, he⟩ := List.mem_flatMap.mp he
    obtain ⟨ends, extent, hextent, he⟩ := l.clause_of_mem_events he
    rw [ScopeEvent.isUnnamedScope, Ends.extent_of_mem_events he] at hscope
    exact hextent (Option.some.inj (of_decide_eq_true hscope).1)
  have hrepeats : ∀ e ∈ repeatEvents t, ¬ e.isUnnamedScope := by
    intro e he
    obtain ⟨n, _, rfl⟩ := List.mem_map.mp he
    exact Bool.false_ne_true
  rw [innerEvents, List.filter_append, List.filter_append, List.filter_append, List.filter_append,
    List.filter_eq_self.mpr fun e he => isUnnamedScope_of_mem_braceEventsFrom he,
    List.filter_eq_nil_iff.mpr hevents, List.filter_eq_nil_iff.mpr hsignatures,
    List.filter_eq_nil_iff.mpr hloops, List.filter_eq_nil_iff.mpr hrepeats,
    List.append_nil, List.append_nil, List.append_nil, List.append_nil]

lemma offset_nonneg_of_mem_events (h : e ∈ (classify t).events) : 0 ≤ e.offset := by
  simp only [Classification.events, List.mem_append, List.mem_map] at h
  obtain ((⟨d, hd, rfl⟩ | ⟨d, hd, rfl⟩) | ⟨d, hd, rfl⟩) | ⟨⟨offset, access⟩, hd, rfl⟩ := h
  · obtain ⟨f, _, rfl⟩ := List.mem_map.mp hd
    exact Int.natCast_nonneg f.offset
  · obtain ⟨_, f, _, _, _, rfl⟩ := exists_of_mem_functions hd
    exact Int.natCast_nonneg f.offset
  · obtain ⟨f, _, hd⟩ := List.mem_filterMap.mp hd
    cases f with
    | declared type name =>
      rw [VariableForm.declaration?] at hd
      split at hd
      · cases hd
      · cases hd
        exact Int.natCast_nonneg name.offset
    | used name => cases hd
  · obtain ⟨w, _, hd⟩ := List.mem_filterMap.mp hd
    rw [accessChange?] at hd
    split at hd
    · cases hd
      exact Int.natCast_nonneg w.offset
    split at hd
    · cases hd
      exact Int.natCast_nonneg w.offset
    · cases hd

lemma offset_nonneg_of_mem_rowEvents {row : List (Extent × Ends)} (h : e ∈ rowEvents name row) :
    0 ≤ e.offset := by
  obtain ⟨x, _, rfl | rfl⟩ := exists_of_mem_rowEvents h
  · exact Int.natCast_nonneg _
  · exact Int.natCast_nonneg _

lemma offset_nonneg_of_mem_innerEvents (h : e ∈ innerEvents t (classify t)) : 0 ≤ e.offset := by
  simp only [innerEvents, List.mem_append] at h
  obtain (((h | h) | h) | h) | h := h
  · have hbounds := offset_of_mem_braceEventsFrom h
    omega
  · exact offset_nonneg_of_mem_events h
  · obtain ⟨d, _, h⟩ := List.mem_flatMap.mp h
    rw [signatureEvents] at h
    split at h
    case h_1 => cases h
    case h_2 signature _ =>
      rw [signature.events_eq] at h
      exact offset_nonneg_of_mem_rowEvents h
  · obtain ⟨l, _, h⟩ := List.mem_flatMap.mp h
    rw [l.events_eq] at h
    exact offset_nonneg_of_mem_rowEvents h
  · obtain ⟨n, _, rfl⟩ := List.mem_map.mp h
    exact Int.natCast_nonneg n

lemma bounds_of_mem_scopeEvents (h : e ∈ scopeEvents t (classify t)) :
    0 ≤ e.offset ∧ e.offset ≤ t.length := by
  obtain h | h := List.mem_append.mp h
  · obtain rfl | h := List.mem_cons.mp h
    · exact ⟨Int.le_refl 0, Int.natCast_nonneg _⟩
    · have hinner := List.mem_mergeSort.mp h
      exact ⟨offset_nonneg_of_mem_innerEvents hinner, offset_le_of_mem_innerEvents hinner⟩
  · obtain rfl := List.mem_singleton.mp h
    exact ⟨Int.natCast_nonneg _, Int.le_refl _⟩

lemma scopeEvents_pairwise (t : Text) :
    (scopeEvents t (classify t)).Pairwise fun a b => a.offset ≤ b.offset := by
  have hsorted : ((innerEvents t (classify t)).mergeSort fun a b => a.offset ≤ b.offset).Pairwise
      fun a b => a.offset ≤ b.offset :=
    (List.pairwise_mergeSort offset_le_trans offset_le_total _).imp of_decide_eq_true
  refine List.pairwise_append.mpr ⟨.cons ?_ hsorted, List.pairwise_singleton _ _, ?_⟩
  · intro e he
    exact offset_nonneg_of_mem_innerEvents (List.mem_mergeSort.mp he)
  · intro a ha b hb
    obtain rfl := List.mem_singleton.mp hb
    exact (bounds_of_mem_scopeEvents (List.mem_append_left _ ha)).2

/-- The events of a document stand in the order of their offsets, none outside the document, between
the beginning and the end of its own scope, and no other scope begins at its end. They are those of
its braces, declarations, signatures, loops and repetitions: each brace begins or ends a scope
without a name, and nothing else does; each function has the events of its signature, and each loop
those of its clauses. -/
theorem scopeEvents_shape (t : Text) :
    ∃ inner : List ScopeEvent,
      scopeEvents t (classify t)
        = ⟨0, .opens .scope, [], none⟩ :: (inner ++ [⟨t.length, .closes .scope, [], none⟩]) ∧
      (scopeEvents t (classify t)).Pairwise (fun a b => a.offset ≤ b.offset) ∧
      (∀ e ∈ scopeEvents t (classify t), 0 ≤ e.offset ∧ e.offset ≤ t.length) ∧
      (∀ e ∈ inner, e.kind = .opens .scope → e.offset < t.length) ∧
      inner.filter ScopeEvent.isUnnamedScope = t.zipIdx.filterMap braceEvent? ∧
      inner.Perm (t.zipIdx.filterMap braceEvent? ++ (classify t).events
        ++ (classify t).functions.flatMap (signatureEvents t)
        ++ (occurrences findLoop t).flatMap Loop.events ++ repeatEvents t) ∧
      (∀ f ∈ (classify t).functions, SignatureShape t f (signatureEvents t f)) ∧
      ∀ l ∈ occurrences findLoop t, LoopShape t l.events := by
  have hbraces : braceEventsFrom 0 t = t.zipIdx.filterMap braceEvent? := braceEventsFrom_eq t 0
  refine ⟨(innerEvents t (classify t)).mergeSort fun a b => a.offset ≤ b.offset, rfl,
    scopeEvents_pairwise t, fun e => bounds_of_mem_scopeEvents, ?_, ?_, ?_,
    fun f => signatureShape_of_mem_functions, fun l => loopShape_of_mem_loops⟩
  · intro e he hkind
    exact (inside_of_mem_innerEvents (List.mem_mergeSort.mp he) hkind).2
  · rw [filter_mergeSort offset_le_trans offset_le_total, filter_isUnnamedScope, hbraces]
    rw [filter_isUnnamedScope]
    exact (braceEventsFrom_pairwise t 0).imp decide_eq_true
  · rw [← hbraces]
    exact List.mergeSort_perm _ _

end LazeEdit
