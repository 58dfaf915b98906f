import LazeEdit.Proofs.Completion.Outline
import LazeEdit.Proofs.Scope.Events

/-!
# Counting loops of a text

The clauses of a counting loop stand one behind the other, and behind the last one the brace of its
block (`Loop.In`). A search for loops covers each one to the end of its last clause, so two loops of
a text are the same or one of them ends before the other begins (`loops_apart`). Only loops give
events of conditions and steps, and these are the ends of their clauses (`ends_of_mem_innerEvents`).
-/

namespace LazeEdit

variable {t : Text} {s s' : Site} {l l' : Loop}

/-- Where the block of a loop begins: at the first character behind its last clause that is not
blank. -/
def Loop.bodyStart (l : Loop) (t : Text) : Nat :=
  (Site.ofOffset t (l.step.closing + 1)).skipBlanks.offset

/-- The ends of the condition or the step of a loop. -/
def Loop.ends (l : Loop) : LoopClause → Ends
  | .condition => l.condition
  | .step => l.step

/-- The clauses of a loop of a text stand in their order, with a block behind them. -/
structure Loop.In (t : Text) (l : Loop) : Prop where
  declaration : l.declaration.opening < l.declaration.closing
  condition_behind : l.declaration.closing < l.condition.opening
  condition : l.condition.opening < l.condition.closing
  step_behind : l.condition.closing < l.step.opening
  step : l.step.opening < l.step.closing
  body_behind : l.step.closing < l.bodyStart t
  body : CharAt t isOpenBrace (l.bodyStart t)

lemma Loop.In.ends_bounds (h : l.In t) (clause : LoopClause) :
    l.declaration.opening < l.condition.opening ∧
      l.condition.opening ≤ (l.ends clause).opening ∧
      (l.ends clause).opening < (l.ends clause).closing ∧
      (l.ends clause).closing ≤ l.step.closing := by
  obtain ⟨hdeclaration, hcondition, _, hstep, _, _, _⟩ := h
  cases clause with
  | condition =>
    simp only [ends]
    omega
  | step =>
    simp only [ends]
    omega

/-! ### Clauses -/

lemma Site.offset_le_skipWhile (s : Site) (p : Char → Bool) : s.offset ≤ (s.skipWhile p).offset := by
  rw [skipWhile, advance_offset]
  exact Nat.le_add_right _ _

/-- What stands behind a clause: its last parenthesis is behind its first one. -/
lemma Site.In.clause? {α : Type} {k : Ends → Site → Option α} {x : α} (h : s.In t)
    (e : s.clause? k = some x) :
    ∃ close : Site, close.In t ∧ s.offset < close.offset ∧ (close.advance 1).In t ∧
      k ⟨s.offset, close.offset⟩ (close.advance 1) = some x := by
  obtain ⟨inner, hinner, e⟩ := Option.bind_eq_some_iff.mp e
  obtain ⟨close, hclose, hle, hchar, hk⟩ := (h.char? hinner).exists_of_searchLine e
  obtain ⟨_, _, _, _, rfl⟩ := char?_eq_some hinner
  rw [advance_offset] at hle
  exact ⟨close, hclose, hle, hclose.next hchar, hk⟩

lemma Site.In.link? {w : Text} (h : s.In t) (e : s.link? w = some s') :
    s'.In t ∧ s.offset ≤ s'.offset := by
  obtain ⟨behind, hbehind, rfl⟩ := Option.map_eq_some_iff.mp e
  have hskip := s.offset_le_skipWhile isBlank
  have hskip' := behind.offset_le_skipWhile isBlank
  refine ⟨((h.skipWhile isBlank).word? hbehind).skipWhile isBlank, ?_⟩
  obtain ⟨_, rfl⟩ := word?_eq_some hbehind
  rw [advance_offset] at hskip'
  exact Nat.le_trans hskip (Nat.le_trans (Nat.le_add_right _ _) hskip')

/-! ### Loops -/

/-- A loop that is found begins with its first clause and is covered to the end of its last. -/
lemma in_of_findLoop {n : Nat} (h : s.In t) (e : findLoop s = some (l, n)) :
    l.In t ∧ l.declaration.opening = s.offset ∧ s.offset + n = l.step.closing + 1 := by
  obtain ⟨close, hclose, hlt, hnext, e⟩ := h.clause? e
  obtain ⟨s2, hs2, e⟩ := Option.bind_eq_some_iff.mp e
  obtain ⟨hin2, hle2⟩ := hnext.link? hs2
  obtain ⟨close2, hclose2, hlt2, hnext2, e⟩ := hin2.clause? e
  obtain ⟨s4, hs4, e⟩ := Option.bind_eq_some_iff.mp e
  obtain ⟨hin4, hle4⟩ := hnext2.link? hs4
  obtain ⟨close3, hclose3, hlt3, hnext3, e⟩ := hin4.clause? e
  obtain ⟨brace, hbrace, e⟩ := Option.bind_eq_some_iff.mp e
  cases e
  have hbody : (close3.advance 1).skipBlanks.offset
      = Loop.bodyStart ⟨⟨s.offset, close.offset⟩, ⟨s2.offset, close2.offset⟩,
          ⟨s4.offset, close3.offset⟩⟩ t := by
    rw [Loop.bodyStart, hnext3.eq_ofOffset, Site.advance_offset]
  have hchar := (hnext3.skipWhile isBlank).charAt_of_char? hbrace
  have hskip := (close3.advance 1).offset_le_skipWhile isBlank
  rw [Site.advance_offset] at hle2 hle4 hskip
  rw [Site.advance_offset]
  refine ⟨⟨hlt, hle2, hlt2, hle4, hlt3, ?_, ?_⟩, rfl, ?_⟩
  · rw [← hbody]
    exact hskip
  · rw [← hbody]
    exact hchar
  · show s.offset + (close3.offset + 1 - s.offset) = close3.offset + 1
    omega

lemma in_of_mem_loops (h : l ∈ occurrences findLoop t) : l.In t := by
  obtain ⟨o, n, hfound⟩ := mem_occurrences.mp h
  exact (in_of_findLoop (Site.ofOffset_in t o) hfound.finds).1

/-- Two loops of a text are the same, or one of them ends before the other begins. -/
lemma loops_apart (h : l ∈ occurrences findLoop t) (h' : l' ∈ occurrences findLoop t) :
    l = l' ∨ l.step.closing < l'.declaration.opening ∨
      l'.step.closing < l.declaration.opening := by
  obtain ⟨o, n, hf⟩ := mem_occurrences.mp h
  obtain ⟨o', n', hf'⟩ := mem_occurrences.mp h'
  obtain ⟨_, hopen, hstop⟩ := in_of_findLoop (Site.ofOffset_in t o) hf.finds
  obtain ⟨_, hopen', hstop'⟩ := in_of_findLoop (Site.ofOffset_in t o') hf'.finds
  rw [Site.ofOffset_offset (Nat.le_of_lt hf.inside)] at hopen hstop
  rw [Site.ofOffset_offset (Nat.le_of_lt hf'.inside)] at hopen' hstop'
  obtain hlt | rfl | hlt := Nat.lt_trichotomy o o'
  · have hnext := hf.looks.next_le hf'.looks hlt
    rw [hf.stride_eq] at hnext
    exact .inr (.inl (by omega))
  · have e := hf.finds.symm.trans hf'.finds
    cases e
    exact .inl rfl
  · have hnext := hf'.looks.next_le hf.looks hlt
    rw [hf'.stride_eq] at hnext
    exact .inr (.inr (by omega))

/-! ### Events of clauses -/

variable {c : Classification} {e : ScopeEvent} {clause : LoopClause}

/-- The stretch of text of which a kind of event marks an end. -/
def EventKind.extent? : EventKind → Option Extent
  | opens extent | closes extent => some extent
  | _ => none

lemma extent_of_mem_braceEventsFrom {offset : Nat} (h : e ∈ braceEventsFrom offset t) :
    e.kind.extent? = some .scope := by
  induction t generalizing offset with
  | nil => cases h
  | cons d ds ih =>
    rw [braceEventsFrom] at h
    split at h
    · obtain rfl | h := List.mem_cons.mp h
      · rfl
      · exact ih h
    split at h
    · obtain rfl | h := List.mem_cons.mp h
      · rfl
      · exact ih h
    · exact ih h

lemma extent_of_mem_events (h : e ∈ c.events) : e.kind.extent? = none := by
  simp only [Classification.events, List.mem_append, List.mem_map] at h
  obtain ((⟨d, _, rfl⟩ | ⟨d, _, rfl⟩) | ⟨d, _, rfl⟩) | ⟨⟨offset, access⟩, _, rfl⟩ := h <;> rfl

lemma Ends.eq_of_mem_events {ends : Ends} {extent : Extent} {name : Text}
    (h : e ∈ ends.events extent name) :
    e = ⟨ends.opening, .opens extent, name, none⟩ ∨
      e = ⟨ends.closing, .closes extent, name, none⟩ := by
  simpa only [Ends.events, List.mem_cons, List.not_mem_nil, or_false] using h

lemma Ends.extent_of_mem_events {ends : Ends} {extent : Extent} {name : Text}
    (h : e ∈ ends.events extent name) : e.kind.extent? = some extent := by
  obtain rfl | rfl := Ends.eq_of_mem_events h
  · rfl
  · rfl

lemma equals_of_signature? {signature : Signature} {results : Results} (h : s.In t)
    (e : s.signature? = some signature) (hresults : signature.results = some results) :
    ∃ i, CharAt t isEquals i := by
  obtain ⟨inner, hinner, e⟩ := Option.bind_eq_some_iff.mp e
  have hin := (h.skipWhile isBlank).char? hinner
  obtain e | e := eq_some_or_of_orElse e
  · obtain ⟨close, _, hclose, e⟩ := hin.searchLine e
    obtain ⟨_, hr, rfl⟩ := Option.map_eq_some_iff.mp e
    obtain ⟨equals, hequals, _⟩ := Option.bind_eq_some_iff.mp hr
    exact ⟨_, (hclose.skipWhile isBlank).charAt_of_char? hequals⟩
  · obtain ⟨close, _, _, e⟩ := hin.searchLine e
    cases e
    cases hresults

/-- The events of a signature are ends of its lists, or those of a body behind an equals sign. -/
lemma extent_of_mem_signatureEvents {d : Declaration} (h : e ∈ signatureEvents t d) :
    e.kind.extent? = some .signature ∨
      (e.kind.extent? = some .scope ∧ ∃ i, CharAt t isEquals i) := by
  rw [signatureEvents] at h
  split at h
  case h_1 => cases h
  case h_2 signature hsignature =>
    rw [Signature.events] at h
    obtain h | h := List.mem_append.mp h
    · exact .inl (Ends.extent_of_mem_events h)
    split at h
    case h_1 => cases h
    case h_2 results hresults =>
      obtain h | h := List.mem_append.mp h
      · exact .inl (Ends.extent_of_mem_events h)
      split at h
      case h_1 => cases h
      case h_2 body _ =>
        exact .inr ⟨Ends.extent_of_mem_events h,
          equals_of_signature? (Site.ofOffset_in t _) hsignature hresults⟩

lemma Loop.clause_of_mem_events (h : e ∈ l.events) :
    ∃ ends : Ends, ∃ extent, extent ≠ .scope ∧ e ∈ ends.events extent := by
  simp only [Loop.events, List.mem_append] at h
  obtain (h | h) | h := h
  · exact ⟨l.declaration, .loopDeclaration, Extent.noConfusion, h⟩
  · exact ⟨l.condition, .loopCondition, Extent.noConfusion, h⟩
  · exact ⟨l.step, .loopStep, Extent.noConfusion, h⟩

/-- An event at an end of a condition or a step is that of a loop. -/
lemma clause_of_mem_innerEvents (h : e ∈ innerEvents t c)
    (hkind : e.kind.extent? = some clause.extent) :
    ∃ l ∈ occurrences findLoop t, e = ⟨(l.ends clause).opening, .opens clause.extent, [], none⟩ ∨
      e = ⟨(l.ends clause).closing, .closes clause.extent, [], none⟩ := by
  have hscope : clause.extent ≠ .scope := by cases clause <;> exact Extent.noConfusion
  have hsignature : clause.extent ≠ .signature := by cases clause <;> exact Extent.noConfusion
  simp only [innerEvents, List.mem_append] at h
  obtain (((h | h) | h) | h) | h := h
  · rw [extent_of_mem_braceEventsFrom h] at hkind
    exact absurd (Option.some.inj hkind).symm hscope
  · rw [extent_of_mem_events h] at hkind
    cases hkind
  · obtain ⟨d, _, h⟩ := List.mem_flatMap.mp h
    obtain hextent | ⟨hextent, _⟩ := extent_of_mem_signatureEvents h
    · rw [hextent] at hkind
      exact absurd (Option.some.inj hkind).symm hsignature
    · rw [hextent] at hkind
      exact absurd (Option.some.inj hkind).symm hscope
  · obtain ⟨l, hl, h⟩ := List.mem_flatMap.mp h
    refine ⟨l, hl, ?_⟩
    simp only [Loop.events, List.mem_append] at h
    obtain (h | h) | h := h
    · rw [Ends.extent_of_mem_events h] at hkind
      cases clause <;> cases hkind
    · rw [Ends.extent_of_mem_events h] at hkind
      cases clause with
      | condition => exact Ends.eq_of_mem_events h
      | step => cases hkind
    · rw [Ends.extent_of_mem_events h] at hkind
      cases clause with
      | condition => cases hkind
      | step => exact Ends.eq_of_mem_events h
  · obtain ⟨n, _, rfl⟩ := List.mem_map.mp h
    cases hkind

/-- An event of a condition or a step that does not stand behind the end of a clause of a loop is that
end, or it does not stand behind the beginning of the clause. -/
lemma clause_offset_le {which : LoopClause} (hl : l ∈ occurrences findLoop t)
    (h : e ∈ innerEvents t c) (hkind : e.kind.extent? = some which.extent)
    (hle : e.offset ≤ (l.ends clause).closing)
    (hne : e ≠ ⟨(l.ends clause).closing, .closes clause.extent, [], none⟩) :
    e.offset ≤ (l.ends clause).opening := by
  obtain ⟨l', hl', he⟩ := clause_of_mem_innerEvents h hkind
  have hbounds := (in_of_mem_loops hl).ends_bounds clause
  have hbounds' := (in_of_mem_loops hl').ends_bounds which
  have hends : e.offset = (l'.ends which).opening ∨ e.offset = (l'.ends which).closing :=
    he.imp (congrArg ScopeEvent.offset) (congrArg ScopeEvent.offset)
  obtain rfl | hapart | hapart := loops_apart hl hl'
  · by_cases hwhich : which = clause
    · subst hwhich
      obtain rfl | rfl := he
      · exact Int.le_refl _
      · exact absurd rfl hne
    · have hbehind := (in_of_mem_loops hl).step_behind
      cases which with
      | condition =>
        cases clause with
        | condition => exact absurd rfl hwhich
        | step =>
          simp only [Loop.ends] at hends hbounds' ⊢
          omega
      | step =>
        cases clause with
        | condition =>
          simp only [Loop.ends] at hends hbounds' hle ⊢
          omega
        | step => exact absurd rfl hwhich
  · omega
  · omega

/-- The end of a clause of a loop is among the events. -/
lemma closing_mem_innerEvents (h : l ∈ occurrences findLoop t) (clause : LoopClause) :
    ⟨(l.ends clause).closing, .closes clause.extent, [], none⟩ ∈ innerEvents t c := by
  have hloop : ⟨(l.ends clause).closing, .closes clause.extent, [], none⟩ ∈ l.events := by
    cases clause <;> simp [Loop.events, Ends.events, Loop.ends, LoopClause.extent]
  have hloops : ⟨(l.ends clause).closing, .closes clause.extent, [], none⟩ ∈ loopEvents t :=
    List.mem_flatMap.mpr ⟨l, h, hloop⟩
  exact List.mem_append_left _ (List.mem_append_right _ hloops)

lemma mem_braceEventsFrom {i : Nat} (h : CharAt t isOpenBrace i) (offset : Nat) :
    ⟨(offset + i : Nat), .opens .scope, [], none⟩ ∈ braceEventsFrom offset t := by
  induction t generalizing i offset with
  | nil =>
    obtain ⟨c, hc, _⟩ := h
    cases hc
  | cons d ds ih =>
    obtain ⟨c, hc, hopen⟩ := h
    rw [braceEventsFrom]
    cases i with
    | zero =>
      obtain rfl := Option.some.inj hc
      rw [if_pos hopen]
      exact List.mem_cons_self
    | succ i =>
      have hlater := ih ⟨c, hc, hopen⟩ (offset + 1)
      rw [Nat.add_right_comm, Nat.add_assoc] at hlater
      split
      · exact List.mem_cons_of_mem _ hlater
      split
      · exact List.mem_cons_of_mem _ hlater
      · exact hlater

/-- An opening brace is among the events. -/
lemma mem_innerEvents_of_brace {i : Nat} (h : CharAt t isOpenBrace i) :
    ⟨i, .opens .scope, [], none⟩ ∈ innerEvents t c := by
  have hbrace := mem_braceEventsFrom h 0
  rw [Nat.zero_add] at hbrace
  exact List.mem_append_left _ (List.mem_append_left _ (List.mem_append_left _
    (List.mem_append_left _ hbrace)))

/-- In a text without equals signs, scopes open and end at braces only. -/
lemma mem_braceEventsFrom_of_scope (hequals : ∀ i, ¬ CharAt t isEquals i) (h : e ∈ innerEvents t c)
    (hkind : e.kind.extent? = some .scope) : e ∈ braceEventsFrom 0 t := by
  simp only [innerEvents, List.mem_append] at h
  obtain (((h | h) | h) | h) | h := h
  · exact h
  · rw [extent_of_mem_events h] at hkind
    cases hkind
  · obtain ⟨d, _, h⟩ := List.mem_flatMap.mp h
    obtain hextent | ⟨_, i, hi⟩ := extent_of_mem_signatureEvents h
    · rw [hextent] at hkind
      cases hkind
    · exact absurd hi (hequals i)
  · obtain ⟨l, _, h⟩ := List.mem_flatMap.mp h
    obtain ⟨ends, extent, hextent, h⟩ := l.clause_of_mem_events h
    rw [Ends.extent_of_mem_events h] at hkind
    exact absurd (Option.some.inj hkind) hextent
  · obtain ⟨n, _, rfl⟩ := List.mem_map.mp h
    cases hkind

end LazeEdit
