import LazeEdit.Proofs.Scope.Bounds
import LazeEdit.Proofs.Scope.Echo
import LazeEdit.Proofs.Text.Tail

/-!
# The events of a text with an idle line behind it

The recognisers find the same declarations, signatures, loops and repetitions when an idle line
stands behind a text, since they are in lockstep with themselves (`classify_followed`,
`innerEvents_followed`). The braces of the line are the only new events. They stand behind all
others, so that sorting leaves them at the end (`scopeEvents_followed`).
-/

namespace LazeEdit

variable {t w : Text}

/-! ### What is found -/

lemma VariableForm.moved_zero (f : VariableForm) : f.moved 0 = f := by
  cases f with
  | declared type name => rfl
  | used name => rfl

lemma Declaration.moved_zero (d : Declaration) : d.moved 0 = d := by
  rw [moved, Int.natCast_zero, Int.add_zero, Int.add_zero]

/-- An idle line changes nothing in a classification but the highlighted spans. -/
lemma classify_followed (hw : Idle w) (t : Text) :
    ∃ tokens, classify (t ++ '\n' :: w) = { classify t with tokens := tokens } := by
  have h := lockstep_followed hw
  have hclasses : occurrences findClass (t ++ '\n' :: w) = occurrences findClass t :=
    occurrences_followed_eq hw findClass_atNames.passesIdle (fun _ => h.findClass rfl) t
  have hwords : occurrences findWord (t ++ '\n' :: w) = occurrences findWord t :=
    occurrences_followed_eq hw findWord_atNames.passesIdle (fun _ => h.findWord rfl) t
  have htypes := fun w => isName_of_mem_typeForms (w := w) fun v =>
    isName_of_mem_classNames (t := t)
  have hvariables := occurrences_followed_eq hw (findVariable_atNames htypes).passesIdle (fun s =>
    rel_imp (h.findVariable (s := s) rfl htypes) fun x y hxy =>
      ⟨hxy.1.trans x.1.moved_zero, hxy.2⟩) t
  have hfunctions := occurrences_followed hw (findFunction_atNames htypes).passesIdle
    (fun s => h.findFunction (s := s) rfl htypes) t
  have hdeclared := filterMap_of_forall₂ hfunctions fun f g hfg => hfg.declaration?_eq
  simp only [Declaration.moved_zero, List.map_id'] at hdeclared
  refine ⟨(classify (t ++ '\n' :: w)).tokens, ?_⟩
  simp only [classify, hclasses, hwords, hvariables, hdeclared]

lemma Signature.events_moved_zero (s : Signature) (name : Text) :
    (s.moved 0).events name = s.events name := by
  simp only [events_moved, ScopeEvent.moved_zero, List.map_id']

lemma signatureEvents_followed (hw : Idle w) {d : Declaration} (hstop : d.stop ≤ t.length) :
    signatureEvents (t ++ '\n' :: w) d = signatureEvents t d := by
  have hle : d.stop.toNat ≤ t.length := by omega
  have hsite : Site.ofOffset (t ++ '\n' :: w) d.stop.toNat
      = (Site.ofOffset t d.stop.toNat).followed w := by
    rw [Site.ofOffset, Site.ofOffset, Nat.min_eq_left hle,
      Nat.min_eq_left (by rw [List.length_append]; omega)]
    exact Site.advance_followed (s := ⟨0, none, t⟩) hle
  rw [signatureEvents, signatureEvents, hsite, eq_map_of_rel ((lockstep_followed hw).signature? rfl)]
  cases (Site.ofOffset t d.stop.toNat).signature? with
  | none => rfl
  | some s => exact s.events_moved_zero d.name

lemma findLoop_passesIdle : findLoop.PassesIdle := by
  intro s hs
  rw [findLoop, Site.clause?, Site.char?_of_idle hs (by decide)]
  rfl

lemma findRepeat_atNames : findRepeat.AtNames := by
  intro s hs
  rw [findRepeat, Site.word?_eq_none (by decide) hs]
  rfl

/-- The braces of an idle line are the only events that it adds. -/
lemma innerEvents_followed (hw : Idle w) (t : Text) :
    ∃ others, innerEvents t (classify t) = braceEventsFrom 0 t ++ others ∧
      innerEvents (t ++ '\n' :: w) (classify (t ++ '\n' :: w))
        = braceEventsFrom 0 t ++ braceEventsFrom t.length ('\n' :: w) ++ others := by
  have h := lockstep_followed hw
  obtain ⟨tokens, hclassify⟩ := classify_followed hw t
  have hsignatures : (classify t).functions.flatMap (signatureEvents (t ++ '\n' :: w))
      = (classify t).functions.flatMap (signatureEvents t) :=
    List.flatMap_congr fun d hd => signatureEvents_followed hw (stop_le_of_mem_functions hd).2
  have hloops : loopEvents (t ++ '\n' :: w) = loopEvents t := by
    rw [loopEvents, loopEvents,
      occurrences_followed_eq hw findLoop_passesIdle (fun _ => h.findLoop rfl)]
  have hrepeats : repeatEvents (t ++ '\n' :: w) = repeatEvents t := by
    rw [repeatEvents, repeatEvents,
      occurrences_followed_eq hw findRepeat_atNames.passesIdle (fun _ => h.findRepeat rfl)]
  refine ⟨(classify t).events ++ ((classify t).functions.flatMap (signatureEvents t)
    ++ (loopEvents t ++ repeatEvents t)), ?_, ?_⟩
  · simp only [innerEvents, List.append_assoc]
  · rw [hclassify, innerEvents, braceEventsFrom_append, Nat.zero_add, hloops, hrepeats]
    simp only [hsignatures, List.append_assoc]
    rfl

/-! ### The order of events -/

/-- Elements that stand behind all others in the order can be taken to the end before the others are
sorted. -/
lemma mergeSort_middle {α : Type} {le : α → α → Bool}
    (htrans : ∀ a b c, le a b → le b c → le a c) (htotal : ∀ a b, le a b || le b a)
    {p : α → Bool} (hp : ∀ a b, le a b → p b → p a)
    {l m r : List α} (hl : ∀ a ∈ l, p a) (hm : ∀ a ∈ m, ¬ p a) (hr : ∀ a ∈ r, p a)
    (hsorted : m.Pairwise (fun a b => le a b)) :
    (l ++ m ++ r).mergeSort le = (l ++ r).mergeSort le ++ m := by
  have hsplit : ∀ {s : List α}, s.Pairwise (fun a b => le a b) →
      s = s.filter p ++ s.filter (fun a => !p a) := by
    intro s hs
    induction hs with
    | nil => rfl
    | @cons a s hle hs ih =>
      by_cases ha : p a
      · rw [List.filter_cons_of_pos ha, List.filter_cons_of_neg (by simp [ha]), List.cons_append,
          ← ih]
      · have hnone : ∀ b ∈ a :: s, ¬ p b := by
          intro b hb hpb
          obtain rfl | hb := List.mem_cons.mp hb
          · exact ha hpb
          · exact ha (hp a b (hle b hb) hpb)
        rw [List.filter_eq_nil_iff.mpr hnone, List.nil_append, List.filter_eq_self.mpr]
        simpa using hnone
  have hbefore : (l ++ m ++ r).filter p = l ++ r := by
    rw [List.filter_append, List.filter_append, List.filter_eq_self.mpr hl,
      List.filter_eq_nil_iff.mpr hm, List.filter_eq_self.mpr hr, List.append_nil]
  have hbehind : (l ++ m ++ r).filter (fun a => !p a) = m := by
    rw [List.filter_append, List.filter_append, List.filter_eq_nil_iff.mpr (by simpa using hl),
      List.filter_eq_self.mpr (by simpa using hm), List.filter_eq_nil_iff.mpr (by simpa using hr),
      List.append_nil, List.nil_append]
  rw [hsplit (List.pairwise_mergeSort htrans htotal (l ++ m ++ r)),
    ← mergeSort_filter htrans htotal, ← mergeSort_filter htrans htotal, hbefore, hbehind,
    List.mergeSort_of_pairwise hsorted]

lemma braceEventsFrom_pairwise (t : Text) (offset : Nat) :
    (braceEventsFrom offset t).Pairwise fun a b => a.offset ≤ b.offset := by
  induction t generalizing offset with
  | nil => exact .nil
  | cons c cs ih =>
    have hlater : ∀ e ∈ braceEventsFrom (offset + 1) cs, (offset : Int) ≤ e.offset := by
      intro e he
      have hbounds := offset_of_mem_braceEventsFrom he
      omega
    rw [braceEventsFrom]
    split
    · exact .cons hlater (ih _)
    split
    · exact .cons hlater (ih _)
    · exact ih _

lemma kind_of_mem_idle_braces {e : ScopeEvent} {offset : Nat} (hw : Idle w)
    (h : e ∈ braceEventsFrom offset w) : e.kind = .closes .scope := by
  induction w generalizing offset with
  | nil => cases h
  | cons c cs ih =>
    have hopen : IsMark isOpenBrace := by decide
    rw [braceEventsFrom, hopen.idle (hw c List.mem_cons_self), if_neg Bool.false_ne_true] at h
    split at h
    · obtain rfl | h := List.mem_cons.mp h
      · rfl
      · exact ih (hw.drop 1) h
    · exact ih (hw.drop 1) h

/-- The events of a text with an idle line behind it: those of the text, and then the ends of scopes
behind it. -/
lemma scopeEvents_followed (hw : Idle w) (t : Text) :
    ∃ events closers : List ScopeEvent,
      scopeEvents t (classify t)
        = ⟨0, .opens .scope, [], none⟩ :: (events ++ [⟨t.length, .closes .scope, [], none⟩]) ∧
      scopeEvents (t ++ '\n' :: w) (classify (t ++ '\n' :: w))
        = ⟨0, .opens .scope, [], none⟩ :: (events ++ (closers
          ++ [⟨(t ++ '\n' :: w).length, .closes .scope, [], none⟩])) ∧
      (∀ e ∈ events, e ∈ innerEvents t (classify t)) ∧
      ∀ e ∈ closers, e.kind = .closes .scope ∧ t.length ≤ e.offset := by
  obtain ⟨others, hinner, hinner'⟩ := innerEvents_followed hw t
  let inText (e : ScopeEvent) : Bool := e.offset ≤ t.length
  have hdown : ∀ a b : ScopeEvent, decide (a.offset ≤ b.offset) → inText b → inText a := by
    intro a b hab hb
    rw [decide_eq_true_iff] at hab hb ⊢
    exact Int.le_trans hab hb
  have hevents : ∀ e ∈ braceEventsFrom 0 t ++ others, inText e := by
    intro e he
    rw [← hinner] at he
    exact decide_eq_true (offset_le_of_mem_innerEvents he)
  -- the line feed is no brace
  have hfeed : braceEventsFrom t.length ('\n' :: w) = braceEventsFrom (t.length + 1) w := rfl
  have hclosers : ∀ e ∈ braceEventsFrom (t.length + 1) w, t.length < e.offset := by
    intro e he
    have hbounds := offset_of_mem_braceEventsFrom he
    omega
  have hsort := mergeSort_middle offset_le_trans offset_le_total hdown
    (fun e he => hevents e (List.mem_append_left _ he))
    (fun e he => decide_eq_true_iff.not.mpr (Int.not_le.mpr (hclosers e he)))
    (fun e he => hevents e (List.mem_append_right _ he))
    ((braceEventsFrom_pairwise w (t.length + 1)).imp fun hab => decide_eq_true hab)
  refine ⟨(innerEvents t (classify t)).mergeSort (fun a b => a.offset ≤ b.offset),
    braceEventsFrom (t.length + 1) w, rfl, ?_, fun e he => List.mem_mergeSort.mp he, ?_⟩
  · rw [scopeEvents, hinner', hfeed, hsort, hinner, List.cons_append, List.append_assoc]
  · intro e he
    exact ⟨kind_of_mem_idle_braces hw he, Int.le_of_lt (hclosers e he)⟩

end LazeEdit
