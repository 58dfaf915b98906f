import LazeEdit.Proofs.Completion.Cursor

/-!
# Frames

A frame is a scope or a list of values that is open. An event that opens a frame gives it the
carried symbols (`exists_of_opens`), the end of a list hands its symbols on (`eq_of_closesList`),
and the end of a scope shows them (`exists_close_of_step`). Every other event adds to the innermost
frame and to the carried symbols (`Adds`).

`Replay.runPart` is a replay up to some event. What every event keeps it keeps
(`runPart_invariant`): the view only grows, and a cursor that is in no clause stays. Events whose
frames are nested add to the innermost frame and leave those around it alone (`stack_of_nested`).
-/

namespace LazeEdit

/-! ### Kinds of events -/

/-- Whether a stretch of text is a frame of a replay while it is open. -/
def Extent.isFrame : Extent → Bool
  | scope | signature | loopDeclaration => true
  | loopCondition | loopStep => false

namespace EventKind

/-- Whether an event opens a frame. -/
def opensFrame : EventKind → Bool
  | opens extent => extent.isFrame
  | _ => false

/-- Whether an event ends a frame. -/
def closesFrame : EventKind → Bool
  | closes extent => extent.isFrame
  | _ => false

/-- Whether an event takes the carried symbols, replaces them or drops them. -/
def movesCarried (kind : EventKind) : Bool :=
  kind.opensFrame || kind.closesFrame || kind = .declares .function

lemma eq_of_closesFrame {kind : EventKind} (h : kind.closesFrame) :
    kind = .closes .scope ∨ ∃ list : ValueList, kind = .closes list.extent := by
  match kind with
  | closes .scope => exact .inl rfl
  | closes .signature => exact .inr ⟨.signature, rfl⟩
  | closes .loopDeclaration => exact .inr ⟨.loopDeclaration, rfl⟩

lemma not_movesCarried {kind : EventKind} (h : ¬ kind.movesCarried) :
    ¬ kind.opensFrame ∧ ¬ kind.closesFrame ∧ kind ≠ .declares .function := by
  simpa [movesCarried, and_assoc] using h

end EventKind

namespace ScopeEvent

/-- The symbols that an event adds to the innermost frame. -/
def declared (e : ScopeEvent) (access : Access) : List Symbol :=
  match e.kind with
  | .declares kind => [⟨kind, e.name, e.declaredType, access⟩]
  | _ => []

/-- The symbols that an event adds to the carried ones. -/
def counted (e : ScopeEvent) (access : Access) : List Symbol :=
  match e.kind with
  | .counter => [⟨.value, counterName, some int64Word, access⟩]
  | _ => []

end ScopeEvent

/-- Events of which each that opens a frame has its end behind it. -/
inductive Nested : List ScopeEvent → Prop where
  | nil : Nested []
  | skip {e events} :
    ¬ e.kind.opensFrame →
    ¬ e.kind.closesFrame →
    Nested events →
    Nested (e :: events)
  | block {opening inside closing events} :
    opening.kind.opensFrame →
    Nested inside →
    closing.kind.closesFrame →
    Nested events →
    Nested (opening :: (inside ++ closing :: events))

namespace Replay

variable {t : Text} {r q : Replay} {e : ScopeEvent} {events later : List ScopeEvent}

/-! ### One event -/

/-- What an event does that opens and ends no frame: it adds to the innermost frame and to the
carried symbols, and a function drops what was carried before. -/
structure Adds (e : ScopeEvent) (r q : Replay) : Prop where
  stack : ∀ top rest, r.stack = top :: rest → ∃ top', q.stack = top' :: rest ∧
    top'.start = top.start ∧ top'.symbols = top.symbols ++ e.declared top.access
  carry : ∃ access, q.carry
    = (if e.kind = .declares .function then [] else r.carry) ++ e.counted access
  registry : q.registry = r.registry
  visible : q.visible = r.visible

/-- An end of a clause moves the cursor at most. -/
lemma adds_of_clause {c : LoopClause} (hkind : e.kind = .opens c.extent ∨ e.kind = .closes c.extent)
    (h : r.step t e later = .ok q) : Adds e r q := by
  have hkept : q.stack = r.stack ∧ q.carry = r.carry ∧ q.registry = r.registry ∧
      q.visible = r.visible := by
    obtain hkind | hkind := hkind
    · cases c with
      | condition =>
        simp only [step, hkind, LoopClause.extent] at h
        cases h
        exact ⟨rfl, rfl, rfl, rfl⟩
      | step =>
        simp only [step, hkind, LoopClause.extent] at h
        cases h
        exact ⟨rfl, rfl, rfl, rfl⟩
    · by_cases hmoves : r.Moves e later
      · obtain ⟨body, _, hstep⟩ := step_of_moves hmoves t
        cases hstep.symm.trans h
        exact ⟨rfl, rfl, rfl, rfl⟩
      · cases (step_of_not_moves hkind hmoves t).symm.trans h
        exact ⟨rfl, rfl, rfl, rfl⟩
  obtain ⟨hstack, hcarry, hregistry, hvisible⟩ := hkept
  have hnothing : e.kind ≠ .declares .function ∧ ∀ access, e.declared access = [] ∧
      e.counted access = [] := by
    obtain hkind | hkind := hkind
    · simp [hkind, ScopeEvent.declared, ScopeEvent.counted]
    · simp [hkind, ScopeEvent.declared, ScopeEvent.counted]
  obtain ⟨hfunction, hnothing⟩ := hnothing
  refine ⟨fun top rest htop => ⟨top, hstack.trans htop, rfl, ?_⟩, ⟨.everyone, ?_⟩, hregistry,
    hvisible⟩
  · rw [(hnothing _).1, List.append_nil]
  · rw [if_neg hfunction, (hnothing _).2, List.append_nil, hcarry]

lemma exists_of_onTop {f : Frame → Frame} (h : r.onTop f = .ok q) :
    ∃ top rest, r.stack = top :: rest ∧ q = { r with stack := f top :: rest } := by
  rw [onTop] at h
  split at h
  case h_1 => cases h
  case h_2 top rest hstack =>
    cases h
    exact ⟨top, rest, hstack, rfl⟩

lemma adds_of_declares {kind : SymbolKind} (hkind : e.kind = .declares kind)
    (h : r.step t e later = .ok q) : Adds e r q := by
  simp only [step, hkind] at h
  obtain ⟨m, hm, h⟩ := exists_of_bind h
  obtain ⟨top, rest, hstack, rfl⟩ := exists_of_onTop hm
  have hdeclared : e.declared top.access = [⟨kind, e.name, e.declaredType, top.access⟩] := by
    rw [ScopeEvent.declared, hkind]
  have hcounted : e.counted .everyone = [] := by rw [ScopeEvent.counted, hkind]
  rw [← hdeclared] at h
  have hq : q.stack = { top with symbols := top.symbols ++ e.declared top.access } :: rest ∧
      q.carry = (if e.kind = .declares .function then [] else r.carry) ∧
      q.registry = r.registry ∧ q.visible = r.visible := by
    rw [hkind]
    cases kind with
    | function =>
      cases h
      exact ⟨rfl, rfl, rfl, rfl⟩
    | value =>
      cases h
      exact ⟨rfl, rfl, rfl, rfl⟩
    | classType =>
      cases h
      exact ⟨rfl, rfl, rfl, rfl⟩
  obtain ⟨hstack', hcarry, hregistry, hvisible⟩ := hq
  refine ⟨?_, ⟨.everyone, ?_⟩, hregistry, hvisible⟩
  · intro _ _ htop
    cases hstack.symm.trans htop
    exact ⟨_, hstack', rfl, rfl⟩
  · rw [hcarry, hcounted, List.append_nil]

lemma adds_of_step (h : r.step t e later = .ok q) (hopens : ¬ e.kind.opensFrame)
    (hcloses : ¬ e.kind.closesFrame) : Adds e r q := by
  cases hkind : e.kind with
  | opens extent =>
    rw [hkind] at hopens
    cases extent with
    | loopCondition => exact adds_of_clause (c := .condition) (.inl hkind) h
    | loopStep => exact adds_of_clause (c := .step) (.inl hkind) h
    | scope | signature | loopDeclaration => exact absurd rfl hopens
  | closes extent =>
    rw [hkind] at hcloses
    cases extent with
    | loopCondition => exact adds_of_clause (c := .condition) (.inr hkind) h
    | loopStep => exact adds_of_clause (c := .step) (.inr hkind) h
    | scope | signature | loopDeclaration => exact absurd rfl hcloses
  | counter =>
    simp only [step, hkind] at h
    split at h
    case h_1 => cases h
    case h_2 top rest hstack =>
      cases h
      refine ⟨fun _ _ htop => ⟨_, htop, rfl, ?_⟩, ⟨top.access, ?_⟩, rfl, rfl⟩
      · rw [ScopeEvent.declared, hkind, List.append_nil]
      · rw [if_neg (by simp [hkind]), ScopeEvent.counted, hkind]
  | grants access =>
    simp only [step, hkind] at h
    obtain ⟨top, rest, hstack, rfl⟩ := exists_of_onTop h
    refine ⟨?_, ⟨.everyone, ?_⟩, rfl, rfl⟩
    · intro _ _ htop
      cases hstack.symm.trans htop
      refine ⟨_, rfl, rfl, ?_⟩
      rw [ScopeEvent.declared, hkind, List.append_nil]
    · rw [if_neg (by simp [hkind]), ScopeEvent.counted, hkind, List.append_nil]
  | declares kind => exact adds_of_declares hkind h

/-- An event that opens a frame gives it the carried symbols. -/
lemma exists_of_opens (h : r.step t e later = .ok q) (hkind : e.kind.opensFrame) :
    (∃ access owner, q.stack = ⟨e.offset, r.carry, access, owner⟩ :: r.stack) ∧
      q.carry = [] ∧ q.registry = r.registry ∧ q.visible = r.visible := by
  cases hopens : e.kind with
  | opens extent =>
    simp only [step, hopens] at h
    rw [hopens] at hkind
    cases extent with
    | scope =>
      cases h
      exact ⟨⟨_, _, rfl⟩, rfl, rfl, rfl⟩
    | signature =>
      cases h
      exact ⟨⟨_, _, rfl⟩, rfl, rfl, rfl⟩
    | loopDeclaration =>
      cases h
      exact ⟨⟨_, _, rfl⟩, rfl, rfl, rfl⟩
    | loopCondition | loopStep => cases hkind
  | closes extent | counter | grants access | declares kind =>
    rw [hopens] at hkind
    cases hkind

lemma eq_of_closesList {list : ValueList} (h : r.step t e later = .ok q)
    (hkind : e.kind = .closes list.extent) : q = r.handOver := by
  cases list with
  | signature =>
    simp only [step, hkind, ValueList.extent] at h
    exact (Except.ok.inj h).symm
  | loopDeclaration =>
    simp only [step, hkind, ValueList.extent] at h
    exact (Except.ok.inj h).symm

/-! ### A part of a replay -/

/-- The state after a part of the events, of which `later` are the events behind the part. -/
def runPart (t : Text) (later : List ScopeEvent) :
    List ScopeEvent → Replay → Except ResolveError Replay
  | [], r => .ok r
  | e :: events, r => do runPart t later events (← r.step t e (events ++ later))

lemma run_eq_runPart (t : Text) (events : List ScopeEvent) (r : Replay) :
    run t events r = runPart t [] events r := by
  induction events generalizing r with
  | nil => rfl
  | cons e events ih =>
    rw [run, runPart, List.append_nil, funext ih]

lemma exists_of_runPart_append {xs ys : List ScopeEvent}
    (h : runPart t later (xs ++ ys) r = .ok q) :
    ∃ m, runPart t (ys ++ later) xs r = .ok m ∧ runPart t later ys m = .ok q := by
  induction xs generalizing r with
  | nil => exact ⟨r, rfl, h⟩
  | cons e xs ih =>
    rw [List.cons_append] at h
    obtain ⟨r', hstep, h⟩ := exists_of_bind h
    obtain ⟨m, hm, hq⟩ := ih h
    refine ⟨m, ?_, hq⟩
    rw [runPart, ← List.append_assoc, hstep]
    exact hm

/-- What every event of a part keeps, the part keeps. -/
lemma runPart_invariant {P : Replay → Prop}
    (hstep : ∀ e ∈ events, ∀ (rest : List ScopeEvent) (r q : Replay), P r →
      r.step t e rest = .ok q → P q)
    (h : runPart t later events r = .ok q) (hr : P r) : P q := by
  induction events generalizing r with
  | nil =>
    cases h
    exact hr
  | cons e events ih =>
    obtain ⟨r', hr', h⟩ := exists_of_bind h
    have hP := hstep e List.mem_cons_self _ r r' hr hr'
    exact ih (fun e' he' => hstep e' (List.mem_cons_of_mem e he')) h hP

/-! ### The view -/

lemma visible_subset_of_close {frame : Frame} {stack : List Frame} {stop : Int}
    (h : r.close t frame stack stop = .ok q) : r.visible ⊆ q.visible := by
  obtain ⟨seen, rfl, _⟩ := exists_seen_of_close h
  exact List.subset_append_left r.visible seen

lemma visible_subset_of_closeAll {stack : List Frame} {stop : Int}
    (h : r.closeAll t stop stack = .ok q) : r.visible ⊆ q.visible := by
  induction stack generalizing r with
  | nil =>
    cases h
    exact fun x hx => hx
  | cons frame stack ih =>
    obtain ⟨m, hm, h⟩ := exists_of_bind h
    exact List.Subset.trans (visible_subset_of_close hm) (ih h)

lemma visible_subset_of_closesScope (hkind : e.kind = .closes .scope)
    (h : r.step t e later = .ok q) : r.visible ⊆ q.visible := by
  obtain ⟨_, m, hclose, rfl⟩ | ⟨_, _, rfl⟩ | ⟨_, frame, next, stack, m, hstack, hclose, rfl⟩ :=
    closesScope_cases hkind h
  · exact visible_subset_of_closeAll (q := m) hclose
  · exact fun x hx => hx
  · exact visible_subset_of_close (q := m) hclose

/-- What is in view stays in view. -/
lemma visible_subset_of_step (h : r.step t e later = .ok q) : r.visible ⊆ q.visible := by
  by_cases hopens : e.kind.opensFrame
  · obtain ⟨_, _, _, hvisible⟩ := exists_of_opens h hopens
    exact hvisible ▸ fun x hx => hx
  by_cases hcloses : e.kind.closesFrame
  · obtain hkind | ⟨list, hkind⟩ := EventKind.eq_of_closesFrame hcloses
    · exact visible_subset_of_closesScope hkind h
    · rw [eq_of_closesList h hkind, handOver]
      split
      · exact fun x hx => hx
      · exact fun x hx => hx
  · exact (adds_of_step h hopens hcloses).visible ▸ fun x hx => hx

/-- A scope inside another one is ended alone or as the first of all. -/
lemma exists_close_of_step {top next : Frame} {rest : List Frame} (hkind : e.kind = .closes .scope)
    (hstack : r.stack = top :: next :: rest) (h : r.step t e later = .ok q) :
    ∃ m, r.close t top (next :: rest) e.offset = .ok m ∧ m.visible ⊆ q.visible ∧
      (later ≠ [] → q.stack = next :: rest) := by
  obtain ⟨hlast, m, hclose, rfl⟩ | ⟨_, hle, _⟩ | ⟨_, _, _, _, m, hstack', hclose, rfl⟩ :=
    closesScope_cases hkind h
  · rw [hstack] at hclose
    obtain ⟨m', hm', hclose⟩ := exists_of_bind hclose
    exact ⟨m', hm', visible_subset_of_closeAll (q := m) hclose, fun hlater => absurd hlast hlater⟩
  · rw [hstack] at hle
    exact absurd hle (by simp)
  · cases hstack.symm.trans hstack'
    refine ⟨m, hclose, fun x hx => hx, fun _ => ?_⟩
    obtain ⟨seen, rfl, _⟩ := exists_seen_of_close hclose
    rfl

/-! ### Nested frames -/

/-- A frame inside another one is gone behind its end. -/
lemma stack_of_closesFrame {top next : Frame} {rest : List Frame} (hkind : e.kind.closesFrame)
    (hlater : later ≠ []) (hstack : r.stack = top :: next :: rest) (h : r.step t e later = .ok q) :
    q.stack = next :: rest := by
  obtain hkind | ⟨list, hkind⟩ := EventKind.eq_of_closesFrame hkind
  · obtain ⟨_, _, _, hq⟩ := exists_close_of_step hkind hstack h
    exact hq hlater
  · rw [eq_of_closesList h hkind, handOver, hstack]

/-- Nested events add to the innermost frame and leave those around it as they are. -/
lemma stack_of_nested {top : Frame} {rest : List Frame} (hnested : Nested events)
    (hlater : later ≠ []) (hrun : runPart t later events r = .ok q)
    (hstack : r.stack = top :: rest) :
    ∃ top', q.stack = top' :: rest ∧ top'.start = top.start ∧ top.symbols ⊆ top'.symbols := by
  induction hnested generalizing r q top rest later with
  | nil =>
    cases hrun
    exact ⟨top, hstack, rfl, fun x hx => hx⟩
  | skip hopens hcloses _ ih =>
    obtain ⟨m, hstep, hrun⟩ := exists_of_bind hrun
    obtain ⟨top1, hstack1, hstart1, hsymbols1⟩ :=
      (adds_of_step hstep hopens hcloses).stack top rest hstack
    obtain ⟨top2, hstack2, hstart2, hsubset⟩ := ih hlater hrun hstack1
    rw [hsymbols1] at hsubset
    exact ⟨top2, hstack2, hstart2.trans hstart1,
      List.Subset.trans (List.subset_append_left _ _) hsubset⟩
  | @block opening inside closing events hopens _ hcloses _ ihInside ih =>
    obtain ⟨m1, hm1, hrun⟩ := exists_of_bind hrun
    obtain ⟨m2, hm2, hrun⟩ := exists_of_runPart_append hrun
    obtain ⟨m3, hm3, hrun⟩ := exists_of_bind hrun
    obtain ⟨⟨access, owner, hstack1⟩, _⟩ := exists_of_opens hm1 hopens
    obtain ⟨top2, hstack2, _⟩ := ihInside (List.cons_ne_nil _ _) hm2 hstack1
    rw [hstack] at hstack2
    have hne : events ++ later ≠ [] := List.append_ne_nil_of_right_ne_nil events hlater
    exact ih hlater hrun (stack_of_closesFrame hcloses hne hstack2 hm3)

/-- A cursor behind the ends of all clauses stays where it is. -/
lemma cursor_of_runPart {cursor : Int} (hrun : runPart t later events r = .ok q)
    (hclauses : ∀ e ∈ events, ∀ c : LoopClause, e.kind = .closes c.extent → e.offset < cursor)
    (hcursor : r.cursor = cursor) : q.cursor = cursor := by
  refine runPart_invariant (P := fun r => r.cursor = cursor) ?_ hrun hcursor
  intro e he rest r q hr hstep
  have hstays : ¬ r.Moves e rest := by
    rintro ⟨⟨c, hkind⟩, hinside, _⟩
    have hbehind := hclauses e he c hkind
    omega
  exact (cursor_of_step hstays hstep).trans hr

end Replay

end LazeEdit
