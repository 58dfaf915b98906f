import LazeEdit.Proofs.Completion.Cursor
import LazeEdit.Proofs.Completion.Safety
import LazeEdit.Proofs.Scope.Loops

/-!
# Cursors in a loop clause

As long as every scope and clause that ends is behind two cursors, a replay does not tell them apart
(`run_before`). So a cursor in a clause has had no effect when the clause ends. There it is moved
just behind the brace of the next block, and from there on the replay is the one for a cursor that
stood behind that brace from the start (`visibleAt_of_clause`).

In a document the events are sorted, the loops do not overlap, and the next block behind a clause is
the body of its loop unless a scope opens between them. This gives `visibleAt_clause_eq_body`.
-/

namespace LazeEdit

/-- An event at which a replay compares its offset with the cursor, there or later: the end of a
scope, or either end of a clause. -/
def ScopeEvent.LooksBack (e : ScopeEvent) : Prop :=
  e.kind = .closes .scope ∨ ∃ c : LoopClause, e.kind.extent? = some c.extent

lemma ScopeEvent.LooksBack.of_moves {r : Replay} {e : ScopeEvent} {later : List ScopeEvent}
    (h : r.Moves e later) : e.LooksBack := by
  obtain ⟨⟨c, hkind⟩, _⟩ := h
  exact .inr ⟨c, congrArg EventKind.extent? hkind⟩

namespace Replay

variable {t : Text} {r : Replay} {cursor : Int}

/-- Events that look back only from behind the cursor of a state, and from behind another one, either
fail for both or lead both to states that differ in the cursor only. -/
lemma run_before {before : List ScopeEvent} (later : List ScopeEvent)
    (hlooks : ∀ e ∈ before, e.LooksBack → e.offset < r.cursor ∧ e.offset < cursor)
    (hclause : r.clauseStart < r.cursor) :
    (∃ cause, run t (before ++ later) r = .error cause ∧
      run t (before ++ later) (r.withCursor cursor) = .error cause) ∨
    ∃ q, run t (before ++ later) r = run t later q ∧
      run t (before ++ later) (r.withCursor cursor) = run t later (q.withCursor cursor) ∧
      q.cursor = r.cursor ∧ q.clauseStart < q.cursor := by
  induction before generalizing r with
  | nil => exact .inr ⟨r, rfl, rfl, rfl, hclause⟩
  | cons e before ih =>
    have hhere := hlooks e List.mem_cons_self
    have hmoves : ¬ r.Moves e (before ++ later) := by
      intro h
      exact absurd h.2.1.2 (Int.not_le.mpr (hhere (.of_moves h)).1)
    have hmoves' : ¬ (r.withCursor cursor).Moves e (before ++ later) := by
      intro h
      exact absurd h.2.1.2 (Int.not_le.mpr (hhere (.of_moves h)).2)
    have hstep' : (r.withCursor cursor).step t e (before ++ later)
        = (r.step t e (before ++ later)).map (·.withCursor cursor) :=
      step_withCursor Iff.rfl hmoves hmoves' fun hkind _ _ =>
        .of_lt (hhere (.inl hkind)).1 (hhere (.inl hkind)).2
    cases hstep : r.step t e (before ++ later) with
    | error cause =>
      rw [hstep] at hstep'
      refine .inl ⟨cause, ?_, ?_⟩
      · rw [List.cons_append, run, hstep]
        rfl
      · rw [List.cons_append, run, hstep']
        rfl
    | ok q =>
      rw [hstep] at hstep'
      have hcursor := cursor_of_step hmoves hstep
      have hclause' : q.clauseStart < q.cursor := by
        rw [hcursor]
        obtain hsame | ⟨hsame, c, hkind⟩ := (starts_of_step hstep).2
        · rwa [hsame]
        · rw [hsame]
          exact (hhere (.inr ⟨c, congrArg EventKind.extent? hkind⟩)).1
      rw [List.cons_append, run_cons hstep, run_cons hstep', ← hcursor]
      refine ih ?_ hclause'
      intro e' he'
      rw [hcursor]
      exact hlooks e' (List.mem_cons_of_mem e he')

end Replay

/-- A cursor in a clause has the view that a cursor just behind the start of the next scope has, when
what looks back before the clause ends stands before the cursor. -/
lemma visibleAt_of_clause {t : Text} {before later : List ScopeEvent} {e body : ScopeEvent}
    {c : LoopClause} {cursor : Int} (hkind : e.kind = .closes c.extent) (hpos : 0 < cursor)
    (hle : cursor ≤ e.offset)
    (hbody : (later.find? fun e => e.kind = .opens .scope) = some body)
    (hbehind : e.offset ≤ body.offset)
    (hlooks : ∀ e ∈ before, e.LooksBack → e.offset < cursor) :
    visibleAt t (before ++ e :: later) cursor
      = visibleAt t (before ++ e :: later) (body.offset + 1) := by
  have hboth : ∀ e ∈ before, e.LooksBack → e.offset < cursor ∧ e.offset < body.offset + 1 := by
    intro e' he' hlook
    have hlt := hlooks e' he' hlook
    exact ⟨hlt, by omega⟩
  rw [visibleAt, visibleAt, replay, replay]
  obtain ⟨cause, hrun, hrun'⟩ | ⟨q, hrun, hrun', hcursor, hclause⟩ :=
    Replay.run_before (t := t) (r := { cursor := cursor }) (e :: later) hboth hpos
  · rw [hrun]
    exact congrArg (Except.map _) hrun'.symm
  · change q.cursor = cursor at hcursor
    have hmoves : q.Moves e later := by
      refine ⟨⟨c, hkind⟩, ⟨hclause, ?_⟩, by rw [hbody]; rfl⟩
      rwa [hcursor]
    obtain ⟨body', hbody', hstep⟩ := Replay.step_of_moves hmoves t
    obtain rfl : body = body' := Option.some.inj (hbody.symm.trans hbody')
    -- behind the brace the clause has no effect on the cursor
    have hmoves' : ¬ (q.withCursor (body.offset + 1)).Moves e later := by
      rintro ⟨_, ⟨_, hinside⟩, _⟩
      change body.offset + 1 ≤ e.offset at hinside
      omega
    have hstep' := Replay.step_of_not_moves hkind hmoves' t
    rw [hrun, Replay.run_cons hstep]
    exact congrArg (Except.map _) (hrun'.trans (Replay.run_cons hstep')).symm

/-! ### Documents -/

lemma find?_scope {events : List ScopeEvent}
    (hsorted : events.Pairwise fun a b => a.offset ≤ b.offset) {brace : ScopeEvent}
    (hmem : brace ∈ events) (hkind : brace.kind = .opens .scope) :
    ∃ body ∈ events, (events.find? fun e => e.kind = .opens .scope) = some body ∧
      body.kind = .opens .scope ∧ body.offset ≤ brace.offset := by
  cases hfind : events.find? fun e => e.kind = .opens .scope with
  | none => exact absurd (decide_eq_true hkind) (List.find?_eq_none.mp hfind brace hmem)
  | some body =>
    obtain ⟨hbody, before, later, rfl, hnot⟩ := List.find?_eq_some_iff_append.mp hfind
    refine ⟨body, List.mem_of_find?_eq_some hfind, rfl, of_decide_eq_true hbody, ?_⟩
    obtain h | h := List.mem_append.mp hmem
    · have hbrace := hnot brace h
      rw [decide_eq_true hkind] at hbrace
      cases hbrace
    · obtain rfl | h := List.mem_cons.mp h
      · exact Int.le_refl _
      · exact (List.pairwise_cons.mp (List.pairwise_append.mp hsorted).2.1).1 brace h

/-- The events of a document before and behind the first occurrence of one of them. -/
lemma exists_events_split {t : Text} {e : ScopeEvent}
    (h : e ∈ innerEvents (maskText t) (classify (maskText t))) :
    ∃ before later, (analyze t).events = ⟨0, .opens .scope, [], none⟩
        :: (before ++ e :: (later ++ [⟨(maskText t).length, .closes .scope, [], none⟩])) ∧
      (∀ a ∈ before, a ∈ innerEvents (maskText t) (classify (maskText t)) ∧
        a.offset ≤ e.offset ∧ a ≠ e) ∧
      (∀ a ∈ later, e.offset ≤ a.offset) ∧ later.Pairwise (fun a b => a.offset ≤ b.offset) ∧
      ∀ a ∈ innerEvents (maskText t) (classify (maskText t)), e.offset < a.offset → a ∈ later := by
  have hevents : (analyze t).events = ⟨0, .opens .scope, [], none⟩
      :: ((innerEvents (maskText t) (classify (maskText t))).mergeSort
        (fun a b => a.offset ≤ b.offset) ++ [⟨(maskText t).length, .closes .scope, [], none⟩]) :=
    rfl
  have hsorted := List.pairwise_mergeSort offset_le_trans offset_le_total
    (innerEvents (maskText t) (classify (maskText t)))
  have hmem : ∀ a, a ∈ (innerEvents (maskText t) (classify (maskText t))).mergeSort
      (fun a b => a.offset ≤ b.offset) ↔ a ∈ innerEvents (maskText t) (classify (maskText t)) :=
    fun a => List.mem_mergeSort
  generalize (innerEvents (maskText t) (classify (maskText t))).mergeSort
    (fun a b => a.offset ≤ b.offset) = sorted at hevents hsorted hmem
  simp only [decide_eq_true_eq] at hsorted
  obtain ⟨before, later, rfl, hnot⟩ := List.eq_append_cons_of_mem ((hmem e).mpr h)
  obtain ⟨_, hlater, hbefore⟩ := List.pairwise_append.mp hsorted
  obtain ⟨hbehind, hlater⟩ := List.pairwise_cons.mp hlater
  refine ⟨before, later, ?_, ?_, hbehind, hlater, ?_⟩
  · rw [hevents, List.append_assoc, List.cons_append]
  · intro a ha
    exact ⟨(hmem a).mp (List.mem_append_left _ ha), hbefore a ha e List.mem_cons_self,
      fun hae => hnot (hae ▸ ha)⟩
  · intro a ha hlt
    obtain ha | ha := List.mem_append.mp ((hmem a).mpr ha)
    · have hle := hbefore a ha e List.mem_cons_self
      omega
    · obtain rfl | ha := List.mem_cons.mp ha
      · exact absurd hlt (Int.lt_irrefl _)
      · exact ha

/-- The events around the end of a clause, when no scope opens or ends between the condition and the
brace of the block: what looks back before it does not stand behind the beginning of the clause, and
the next scope behind it is the block of the loop. -/
lemma exists_clause_split {t : Text} {l : Loop} (hloop : l ∈ occurrences findLoop (maskText t))
    (hscopes : ∀ e ∈ (analyze t).events, e.kind = .opens .scope ∨ e.kind = .closes .scope →
      ¬ (l.condition.opening < e.offset ∧ e.offset < l.bodyStart (maskText t)))
    (clause : LoopClause) :
    ∃ before later : List ScopeEvent, ∃ body : ScopeEvent, (analyze t).events
        = before ++ ⟨(l.ends clause).closing, .closes clause.extent, [], none⟩ :: later ∧
      (later.find? fun e => e.kind = .opens .scope) = some body ∧
      body.offset = l.bodyStart (maskText t) ∧
      ∀ e ∈ before, e.LooksBack → e.offset ≤ (l.ends clause).opening := by
  have hin := in_of_mem_loops hloop
  obtain ⟨_, hcondition, hends, hlast⟩ := hin.ends_bounds clause
  have hbehind := hin.body_behind
  obtain ⟨before, later, hevents, hbefore, hlater, hsorted, hrest⟩ :=
    exists_events_split (closing_mem_innerEvents hloop clause)
  have hbrace := hrest _ (mem_innerEvents_of_brace hin.body) (by
    show ((l.ends clause).closing : Int) < l.bodyStart (maskText t)
    omega)
  obtain ⟨body, hbody, hfind, hkind, hle⟩ := find?_scope hsorted hbrace rfl
  refine ⟨⟨0, .opens .scope, [], none⟩ :: before, _, body, hevents, ?_, ?_, ?_⟩
  · rw [List.find?_append, hfind]
    rfl
  · have hmem : body ∈ (analyze t).events := by
      rw [hevents]
      simp [hbody]
    have hclosing := hlater body hbody
    have hapart := hscopes body hmem (.inl hkind)
    change body.offset ≤ l.bodyStart (maskText t) at hle
    change ((l.ends clause).closing : Int) ≤ body.offset at hclosing
    omega
  · intro e he hlooks
    obtain rfl | he := List.mem_cons.mp he
    · obtain hkind | ⟨which, hkind⟩ := hlooks
      · cases hkind
      · cases which <;> cases hkind
    obtain ⟨hmem, hle, hne⟩ := hbefore e he
    obtain hkind | ⟨which, hkind⟩ := hlooks
    · have hmem : e ∈ (analyze t).events := by
        rw [hevents]
        simp [he]
      have hapart := hscopes e hmem (.inr hkind)
      change e.offset ≤ (l.ends clause).closing at hle
      omega
    · exact clause_offset_le hloop hmem hkind hle hne

/-- A cursor in the condition or the step of a loop has the view that a cursor just behind the brace
of its block has, when no scope opens or ends between the condition and that brace. -/
theorem visibleAt_clause_eq_body (t : Text) (l : Loop)
    (hloop : l ∈ occurrences findLoop (analyze t).masked)
    (hscopes : ∀ e ∈ (analyze t).events, e.kind = .opens .scope ∨ e.kind = .closes .scope →
      ¬ (l.condition.opening < e.offset ∧ e.offset < l.bodyStart (analyze t).masked))
    (clause : LoopClause) (cursor : Int) (hstart : (l.ends clause).opening < cursor)
    (hstop : cursor ≤ (l.ends clause).closing) :
    CharAt (analyze t).masked isOpenBrace (l.bodyStart (analyze t).masked) ∧
    ∃ symbols, visibleAt t (analyze t).events cursor = .ok symbols ∧
      visibleAt t (analyze t).events (l.bodyStart (analyze t).masked + 1) = .ok symbols := by
  change l ∈ occurrences findLoop (maskText t) at hloop
  have hin := in_of_mem_loops hloop
  obtain ⟨_, _, _, hlast⟩ := hin.ends_bounds clause
  have hbehind := hin.body_behind
  obtain ⟨before, later, body, hevents, hfind, hoffset, hlooks⟩ :=
    exists_clause_split hloop hscopes clause
  have hinside : cursor ≤ t.length := by
    have hlt := hin.body.lt_length
    rw [length_maskText] at hlt
    omega
  obtain ⟨r, hr⟩ := replay_analyze hinside
  have hsymbols : visibleAt t (analyze t).events cursor = .ok r.visible := by
    rw [visibleAt, hr]
    rfl
  have hview : visibleAt t (analyze t).events cursor
      = visibleAt t (analyze t).events (body.offset + 1) := by
    rw [hevents]
    refine visibleAt_of_clause rfl (by omega) hstop hfind ?_ ?_
    · show ((l.ends clause).closing : Int) ≤ body.offset
      omega
    · intro e he hlook
      exact Int.lt_of_le_of_lt (hlooks e he hlook) hstart
  rw [hoffset] at hview
  exact ⟨hin.body, r.visible, hsymbols, hview.symm.trans hsymbols⟩

/-- A loop with a declaration, a condition, a step and an empty block. -/
def countingLoop : Text :=
  ['(', '整', '数', ':', 'i', ';', ')', 'か', 'ら', '(', 'i', '<', '9', ')', 'ま', 'で',
    '(', 'i', '+', '+', ')', '\x7b', '\x7d']

theorem visibleAt_countingLoop :
    (⟨⟨0, 6⟩, ⟨9, 13⟩, ⟨16, 20⟩⟩ : Loop) ∈ occurrences findLoop (analyze countingLoop).masked ∧
    ∃ symbols, visibleAt countingLoop (analyze countingLoop).events 12 = .ok symbols ∧
      visibleAt countingLoop (analyze countingLoop).events 22 = .ok symbols := by
  have hloop : (⟨⟨0, 6⟩, ⟨9, 13⟩, ⟨16, 20⟩⟩ : Loop)
      ∈ occurrences findLoop (analyze countingLoop).masked := by decide
  have hstart : Loop.bodyStart ⟨⟨0, 6⟩, ⟨9, 13⟩, ⟨16, 20⟩⟩ (analyze countingLoop).masked = 21 := by
    decide
  have hequals : ∀ i, ¬ CharAt (maskText countingLoop) isEquals i := by
    rintro i ⟨c, hc, hequal⟩
    have hall : (maskText countingLoop).all fun c => !isEquals c := by decide
    have hnot := List.all_eq_true.mp hall c (List.mem_of_getElem? hc)
    rw [hequal] at hnot
    cases hnot
  have hbraces : ∀ e ∈ braceEventsFrom 0 (maskText countingLoop),
      ¬ ((9 : Int) < e.offset ∧ e.offset < 21) := by decide
  have hscopes : ∀ e ∈ (analyze countingLoop).events,
      e.kind = .opens .scope ∨ e.kind = .closes .scope →
      ¬ ((9 : Int) < e.offset ∧ e.offset < 21) := by
    intro e he hkind
    have hextent : e.kind.extent? = some .scope := by
      obtain hkind | hkind := hkind <;> rw [hkind] <;> rfl
    obtain rfl | he := List.mem_cons.mp he
    · decide
    obtain he | he := List.mem_append.mp he
    · exact hbraces e (mem_braceEventsFrom_of_scope hequals (List.mem_mergeSort.mp he) hextent)
    · obtain rfl := List.mem_singleton.mp he
      decide
  have hview := visibleAt_clause_eq_body countingLoop ⟨⟨0, 6⟩, ⟨9, 13⟩, ⟨16, 20⟩⟩ hloop
    (by rw [hstart]; exact hscopes) .condition 12 (by decide) (by decide)
  rw [hstart] at hview
  exact ⟨hloop, hview.2⟩

end LazeEdit
