import LazeEdit.Proofs.Completion.Outline
import LazeEdit.Proofs.Completion.Registry

/-!
# Replays for two cursors

Two cursors that the end of a scope sees alike (`SeenAlike`) give the same view of it. An event that
moves neither of two such cursors leads to the same state for both, but for the cursor
(`step_withCursor`), and one that moves them brings them to one place (`step_of_moves`).

Scopes and clauses start where events stand (`starts_of_step`). So where no event stands between two
cursors every end sees them alike, and the view from both is the same (`visibleAt_between_events`).
-/

namespace LazeEdit

/-- Two cursors, each in its text, from which a scope between two offsets is seen alike: it is around
both or around neither, and where it is around them they have the same receiver. -/
structure SeenAlike (t t' : Text) (cursor cursor' start stop : Int) : Prop where
  around : start < cursor ∧ cursor ≤ stop ↔ start < cursor' ∧ cursor' ≤ stop
  receiver : start < cursor → cursor ≤ stop → receiver? t' cursor' = receiver? t cursor

lemma SeenAlike.refl (t : Text) (cursor start stop : Int) :
    SeenAlike t t cursor cursor start stop :=
  ⟨Iff.rfl, fun _ _ => rfl⟩

/-- A scope that ends before both of two cursors is around neither. -/
lemma SeenAlike.of_lt {t t' : Text} {cursor cursor' start stop : Int} (h : stop < cursor)
    (h' : stop < cursor') : SeenAlike t t' cursor cursor' start stop :=
  ⟨by omega, by omega⟩

namespace Replay

variable {t t' : Text} {r q : Replay} {e : ScopeEvent} {later later' : List ScopeEvent}
  {cursor : Int}

/-! ### The end of a scope -/

/-- The state in which nothing is carried to the next scope. -/
def settled (r : Replay) : Replay :=
  { r with carry := [] }

lemma exists_of_map {x : Except ResolveError Replay} {f : Replay → Replay}
    (h : x.map f = .ok q) : ∃ r, x = .ok r ∧ q = f r := by
  cases x with
  | error cause => cases h
  | ok r =>
    cases h
    exact ⟨r, rfl, rfl⟩

lemma exists_of_bind {x : Except ResolveError Replay} {f : Replay → Except ResolveError Replay}
    (h : x >>= f = .ok q) : ∃ r, x = .ok r ∧ f r = .ok q := by
  cases x with
  | error cause => cases h
  | ok r => exact ⟨r, rfl, h⟩

/-- The last event ends every scope. -/
lemma step_last (h : e.kind = .closes .scope) :
    r.step t e [] = (r.closeAll t e.offset r.stack).map settled := by
  simp only [step, h]
  cases r.closeAll t e.offset r.stack with
  | error cause => rfl
  | ok q => rfl

/-- An event that is not the last one ends a scope inside another one. -/
lemma step_inner (h : e.kind = .closes .scope) (hlater : later ≠ []) {frame next : Frame}
    {stack : List Frame} (hstack : r.stack = frame :: next :: stack) :
    r.step t e later = (r.close t frame (next :: stack) e.offset).map settled := by
  obtain ⟨e', later, rfl⟩ := List.exists_cons_of_ne_nil hlater
  simp only [step, h, hstack]
  cases r.close t frame (next :: stack) e.offset with
  | error cause => rfl
  | ok q => rfl

/-- An event that is not the last one leaves the outermost scope open. -/
lemma step_outermost (h : e.kind = .closes .scope) (hlater : later ≠ [])
    (hstack : r.stack.length ≤ 1) : r.step t e later = .ok r.settled := by
  obtain ⟨e', later, rfl⟩ := List.exists_cons_of_ne_nil hlater
  simp only [step, h]
  cases hframes : r.stack with
  | nil => rfl
  | cons frame stack =>
    cases stack with
    | nil => rfl
    | cons next stack =>
      rw [hframes] at hstack
      exact absurd hstack (by simp)

/-- The end of all scopes changes the stack, the view and the registry only. -/
lemma exists_of_closeAll {stop : Int} {stack : List Frame} (hstack : r.stack = stack)
    (h : r.closeAll t stop stack = .ok q) :
    ∃ visible registry, q = { r with stack := [], visible := visible, registry := registry } := by
  induction stack generalizing r with
  | nil =>
    cases h
    exact ⟨q.visible, q.registry, by rw [← hstack]⟩
  | cons frame stack ih =>
    obtain ⟨r', hclose, h⟩ := exists_of_bind h
    obtain ⟨visible, rfl⟩ := exists_of_close hclose
    obtain ⟨visible', registry', rfl⟩ := ih rfl h
    exact ⟨visible', registry', rfl⟩

/-- The end of a scope is the end of all scopes, of none or of one inside another. -/
lemma closesScope_cases (hkind : e.kind = .closes .scope) (h : r.step t e later = .ok q) :
    (later = [] ∧ ∃ m, r.closeAll t e.offset r.stack = .ok m ∧ q = m.settled) ∨
    (later ≠ [] ∧ r.stack.length ≤ 1 ∧ q = r.settled) ∨
    (later ≠ [] ∧ ∃ frame next stack m, r.stack = frame :: next :: stack ∧
      r.close t frame (next :: stack) e.offset = .ok m ∧ q = m.settled) := by
  by_cases hlater : later = []
  · subst hlater
    rw [step_last hkind] at h
    exact .inl ⟨rfl, exists_of_map h⟩
  · match hstack : r.stack with
    | [] =>
      rw [step_outermost hkind hlater (by simp [hstack])] at h
      exact .inr (.inl ⟨hlater, Nat.zero_le 1, (Except.ok.inj h).symm⟩)
    | [_] =>
      rw [step_outermost hkind hlater (by simp [hstack])] at h
      exact .inr (.inl ⟨hlater, Nat.le_refl 1, (Except.ok.inj h).symm⟩)
    | frame :: next :: stack =>
      rw [step_inner hkind hlater hstack] at h
      obtain ⟨m, hm, hq⟩ := exists_of_map h
      exact .inr (.inr ⟨hlater, frame, next, stack, m, rfl, hm, hq⟩)

/-! ### Where scopes and clauses start -/

/-- The end of a scope opens no scope and begins no clause. -/
lemma starts_of_closeScope (hkind : e.kind = .closes .scope) (h : r.step t e later = .ok q) :
    q.stack.map Frame.start ⊆ r.stack.map Frame.start ∧ q.clauseStart = r.clauseStart := by
  obtain ⟨_, m, hclose, rfl⟩ | ⟨_, _, rfl⟩ | ⟨_, frame, next, stack, m, hstack, hclose, rfl⟩ :=
    closesScope_cases hkind h
  · obtain ⟨_, _, rfl⟩ := exists_of_closeAll rfl hclose
    exact ⟨List.nil_subset _, rfl⟩
  · exact ⟨fun _ hstart => hstart, rfl⟩
  · obtain ⟨_, rfl⟩ := exists_of_close hclose
    rw [hstack]
    exact ⟨List.subset_cons_self _ _, rfl⟩

lemma starts_of_handOver (r : Replay) :
    r.handOver.stack.map Frame.start ⊆ r.stack.map Frame.start ∧
      r.handOver.clauseStart = r.clauseStart := by
  rw [handOver]
  split
  case h_1 top next stack hstack =>
    rw [hstack]
    exact ⟨List.subset_cons_self _ _, rfl⟩
  case h_2 => exact ⟨List.Subset.refl _, rfl⟩

lemma starts_of_onTop {f : Frame → Frame} (h : r.onTop f = .ok q)
    (hf : ∀ top, (f top).start = top.start) :
    q.stack.map Frame.start ⊆ r.stack.map Frame.start ∧ q.clauseStart = r.clauseStart := by
  rw [onTop] at h
  split at h
  case h_1 => cases h
  case h_2 top stack hstack =>
    cases h
    rw [hstack, List.map_cons, List.map_cons, hf]
    exact ⟨List.Subset.refl _, rfl⟩

/-- A scope that is open behind an event was open before it or starts with it. A clause that was
begun before it is still the last one, or the event begins a clause. -/
lemma starts_of_step (h : r.step t e later = .ok q) :
    q.stack.map Frame.start ⊆ e.offset :: r.stack.map Frame.start ∧
    (q.clauseStart = r.clauseStart ∨
      q.clauseStart = e.offset ∧ ∃ c : LoopClause, e.kind = .opens c.extent) := by
  have hkept : ∀ {q : Replay},
      q.stack.map Frame.start ⊆ r.stack.map Frame.start ∧ q.clauseStart = r.clauseStart →
      q.stack.map Frame.start ⊆ e.offset :: r.stack.map Frame.start ∧
        (q.clauseStart = r.clauseStart ∨
          q.clauseStart = e.offset ∧ ∃ c : LoopClause, e.kind = .opens c.extent) :=
    fun hq => ⟨List.subset_cons_of_subset _ hq.1, .inl hq.2⟩
  obtain ⟨kind, hkind⟩ : ∃ kind, e.kind = kind := ⟨_, rfl⟩
  cases kind with
  | opens extent =>
    simp only [step, hkind] at h
    cases extent with
    | scope =>
      cases h
      exact ⟨List.Subset.refl _, .inl rfl⟩
    | signature =>
      cases h
      exact ⟨List.Subset.refl _, .inl rfl⟩
    | loopDeclaration =>
      cases h
      exact ⟨List.Subset.refl _, .inl rfl⟩
    | loopCondition =>
      cases h
      exact ⟨List.subset_cons_self _ _, .inr ⟨rfl, .condition, hkind⟩⟩
    | loopStep =>
      cases h
      exact ⟨List.subset_cons_self _ _, .inr ⟨rfl, .step, hkind⟩⟩
  | closes extent =>
    have hentered := SameScopes.of_enterBody r e.offset later
    have hstack : (r.enterBody e.offset later).stack.map Frame.start
        ⊆ r.stack.map Frame.start := by
      rw [hentered.stack]
      exact List.Subset.refl _
    cases extent with
    | scope => exact hkept (starts_of_closeScope hkind h)
    | signature =>
      simp only [step, hkind] at h
      cases h
      exact hkept r.starts_of_handOver
    | loopDeclaration =>
      simp only [step, hkind] at h
      cases h
      exact hkept r.starts_of_handOver
    | loopCondition =>
      simp only [step, hkind] at h
      cases h
      exact hkept ⟨hstack, hentered.clauseStart⟩
    | loopStep =>
      simp only [step, hkind] at h
      cases h
      exact hkept ⟨hstack, hentered.clauseStart⟩
  | counter =>
    simp only [step, hkind] at h
    split at h
    case h_1 => cases h
    case h_2 =>
      cases h
      exact hkept ⟨List.Subset.refl _, rfl⟩
  | grants access =>
    simp only [step, hkind] at h
    exact hkept (starts_of_onTop h fun _ => rfl)
  | declares kind =>
    simp only [step, hkind] at h
    generalize hdeclared : r.onTop _ = x at h
    cases x with
    | error cause => cases h
    | ok r' =>
      have hstarts := starts_of_onTop hdeclared fun _ => rfl
      cases kind <;> cases h <;> exact hkept hstarts

/-! ### The cursor -/

/-- The state with another cursor. -/
def withCursor (r : Replay) (cursor : Int) : Replay :=
  { r with cursor := cursor }

/-- An event moves the cursor of a state: it ends a clause around the cursor, and a scope opens
behind it. -/
def Moves (r : Replay) (e : ScopeEvent) (later : List ScopeEvent) : Prop :=
  (∃ c : LoopClause, e.kind = .closes c.extent) ∧
    (r.clauseStart < r.cursor ∧ r.cursor ≤ e.offset) ∧
    (later.find? fun e => e.kind = .opens .scope).isSome

lemma close_withCursor {frame : Frame} {stop : Int}
    (h : SeenAlike t t' r.cursor cursor frame.start stop) (stack : List Frame) :
    (r.withCursor cursor).close t' frame stack stop
      = (r.close t frame stack stop).map (·.withCursor cursor) := by
  by_cases hview : frame.start < r.cursor ∧ r.cursor ≤ stop
  · have hview' : frame.start < (r.withCursor cursor).cursor ∧
        (r.withCursor cursor).cursor ≤ stop := h.around.mp hview
    have hmembers : (r.withCursor cursor).members t' frame.symbols
        = r.members t frame.symbols := by
      show (receiver? t' cursor >>= _) = (receiver? t r.cursor >>= _)
      rw [h.receiver hview.1 hview.2]
      rfl
    rw [close, close, if_pos hview, if_pos hview', hmembers]
    cases r.members t frame.symbols with
    | error cause => rfl
    | ok members => rfl
  · have hview' : ¬ (frame.start < (r.withCursor cursor).cursor ∧
        (r.withCursor cursor).cursor ≤ stop) := fun hview' => hview (h.around.mpr hview')
    rw [close, close, if_neg hview, if_neg hview']
    rfl

lemma closeAll_withCursor {stop : Int} {stack : List Frame}
    (h : ∀ f ∈ stack, SeenAlike t t' r.cursor cursor f.start stop) :
    (r.withCursor cursor).closeAll t' stop stack
      = (r.closeAll t stop stack).map (·.withCursor cursor) := by
  induction stack generalizing r with
  | nil => rfl
  | cons frame stack ih =>
    rw [closeAll, closeAll, close_withCursor (h frame List.mem_cons_self)]
    cases hclose : r.close t frame stack stop with
    | error cause => rfl
    | ok q =>
      obtain ⟨visible, rfl⟩ := exists_of_close hclose
      exact ih fun f hf => h f (List.mem_cons_of_mem frame hf)

lemma handOver_withCursor (r : Replay) (cursor : Int) :
    (r.withCursor cursor).handOver = r.handOver.withCursor cursor := by
  obtain ⟨_, stack, _, _, _, _, _⟩ := r
  match stack with
  | [] => rfl
  | [_] => rfl
  | _ :: _ :: _ => rfl

lemma onTop_withCursor (r : Replay) (cursor : Int) (f : Frame → Frame) :
    (r.withCursor cursor).onTop f = (r.onTop f).map (·.withCursor cursor) := by
  rw [onTop, onTop, withCursor]
  cases r.stack with
  | nil => rfl
  | cons top stack => rfl

lemma closeScope_withCursor (hlast : later = [] ↔ later' = []) (hkind : e.kind = .closes .scope)
    (hscopes : ∀ f ∈ r.stack, SeenAlike t t' r.cursor cursor f.start e.offset) :
    (r.withCursor cursor).step t' e later' = (r.step t e later).map (·.withCursor cursor) := by
  by_cases hlater : later = []
  · obtain rfl := hlater
    obtain rfl := hlast.mp rfl
    rw [step_last hkind, step_last hkind]
    show Except.map settled ((r.withCursor cursor).closeAll t' e.offset r.stack) = _
    rw [closeAll_withCursor hscopes]
    cases r.closeAll t e.offset r.stack with
    | error cause => rfl
    | ok q => rfl
  · have hlater' : later' ≠ [] := fun hnil => hlater (hlast.mpr hnil)
    match hstack : r.stack with
    | [] =>
      rw [step_outermost hkind hlater (by simp [hstack]),
        step_outermost hkind hlater' (by simp [withCursor, hstack])]
      rfl
    | [_] =>
      rw [step_outermost hkind hlater (by simp [hstack]),
        step_outermost hkind hlater' (by simp [withCursor, hstack])]
      rfl
    | frame :: next :: stack =>
      have hframe := hscopes frame (hstack ▸ List.mem_cons_self)
      rw [step_inner hkind hlater hstack, step_inner (r := r.withCursor cursor) hkind hlater' hstack,
        close_withCursor hframe]
      cases r.close t frame (next :: stack) e.offset with
      | error cause => rfl
      | ok q => rfl

/-- The end of a clause that does not move the cursor changes nothing. -/
lemma step_of_not_moves {c : LoopClause} (hkind : e.kind = .closes c.extent)
    (h : ¬ r.Moves e later) (t : Text) : r.step t e later = .ok r := by
  have hstay : r.enterBody e.offset later = r := by
    rw [enterBody]
    split
    case isTrue hinside =>
      split
      case h_1 body hbody =>
        exact absurd ⟨⟨c, hkind⟩, hinside, by rw [hbody]; rfl⟩ h
      case h_2 => rfl
    case isFalse => rfl
  cases c with
  | condition => simp only [step, hkind, LoopClause.extent, hstay]
  | step => simp only [step, hkind, LoopClause.extent, hstay]

/-- An event that moves neither the cursor of a state nor another cursor leads to the same state for
both, but for the cursor, when a scope that it ends is seen alike from both. -/
lemma step_withCursor (hlast : later = [] ↔ later' = [])
    (hmoves : ¬ r.Moves e later) (hmoves' : ¬ (r.withCursor cursor).Moves e later')
    (hscopes : e.kind = .closes .scope →
      ∀ f ∈ r.stack, SeenAlike t t' r.cursor cursor f.start e.offset) :
    (r.withCursor cursor).step t' e later' = (r.step t e later).map (·.withCursor cursor) := by
  cases hkind : e.kind with
  | opens extent =>
    simp only [step, hkind]
    cases extent <;> rfl
  | closes extent =>
    cases extent with
    | scope => exact closeScope_withCursor hlast hkind (hscopes hkind)
    | signature =>
      simp only [step, hkind, handOver_withCursor]
      rfl
    | loopDeclaration =>
      simp only [step, hkind, handOver_withCursor]
      rfl
    | loopCondition =>
      have hclause : e.kind = .closes LoopClause.condition.extent := hkind
      rw [step_of_not_moves hclause hmoves, step_of_not_moves hclause hmoves']
      rfl
    | loopStep =>
      have hclause : e.kind = .closes LoopClause.step.extent := hkind
      rw [step_of_not_moves hclause hmoves, step_of_not_moves hclause hmoves']
      rfl
  | counter =>
    simp only [step, hkind, withCursor]
    cases r.stack with
    | nil => rfl
    | cons top stack => rfl
  | grants access =>
    simp only [step, hkind, onTop_withCursor]
  | declares kind =>
    simp only [step, hkind, onTop_withCursor]
    generalize r.onTop _ = x
    cases x with
    | error cause => rfl
    | ok q => cases kind <;> rfl

/-- An event that moves the cursor brings it just behind the start of the next scope. -/
lemma step_of_moves (h : r.Moves e later) (t : Text) :
    ∃ body, (later.find? fun e => e.kind = .opens .scope) = some body ∧
      r.step t e later = .ok (r.withCursor (body.offset + 1)) := by
  obtain ⟨⟨c, hkind⟩, hinside, hopens⟩ := h
  obtain ⟨body, hbody⟩ := Option.isSome_iff_exists.mp hopens
  have hentered : r.enterBody e.offset later = r.withCursor (body.offset + 1) := by
    rw [enterBody, if_pos hinside, hbody]
    rfl
  refine ⟨body, hbody, ?_⟩
  cases c with
  | condition => simp only [step, hkind, LoopClause.extent, hentered]
  | step => simp only [step, hkind, LoopClause.extent, hentered]

/-- An event that does not move the cursor leaves it where it is. -/
lemma cursor_of_step (hmoves : ¬ r.Moves e later) (h : r.step t e later = .ok q) :
    q.cursor = r.cursor := by
  have hkept : r.step t e later = (r.step t e later).map (·.withCursor r.cursor) :=
    step_withCursor Iff.rfl hmoves hmoves fun _ f _ => .refl t r.cursor f.start e.offset
  rw [h] at hkept
  have hq : q = q.withCursor r.cursor := Except.ok.inj hkept
  rw [hq]
  rfl

/-! ### Cursors with no event between them -/

/-- An offset that is not between two cursors. -/
def Beside (cursor cursor' offset : Int) : Prop :=
  offset < cursor ∨ cursor' ≤ offset

lemma Beside.seenAlike {cursor cursor' start stop : Int} (hle : cursor ≤ cursor')
    (hreceiver : receiver? t cursor' = receiver? t cursor) (hstart : Beside cursor cursor' start)
    (hstop : Beside cursor cursor' stop) : SeenAlike t t cursor cursor' start stop := by
  rw [Beside] at hstart hstop
  exact ⟨by omega, fun _ _ => hreceiver⟩

/-- Two cursors with no event, and no start of a scope or a clause, between them have the same
view. -/
lemma run_between {cursor' : Int} (hle : cursor ≤ cursor')
    (hreceiver : receiver? t cursor' = receiver? t cursor) {events : List ScopeEvent}
    (hevents : ∀ e ∈ events, Beside cursor cursor' e.offset) (hcursor : r.cursor = cursor)
    (hstarts : ∀ start ∈ r.stack.map Frame.start, Beside cursor cursor' start)
    (hclause : Beside cursor cursor' r.clauseStart) :
    (run t events (r.withCursor cursor')).map visible = (run t events r).map visible := by
  induction events generalizing r with
  | nil => rfl
  | cons e later ih =>
    subst hcursor
    have hhere := hevents e List.mem_cons_self
    have hclauses : r.Moves e later ↔ (r.withCursor cursor').Moves e later :=
      and_congr_right' (and_congr_left' (hclause.seenAlike hle hreceiver hhere).around)
    rw [run, run]
    by_cases hmoves : r.Moves e later
    · -- both cursors come to stand behind the start of the next scope
      obtain ⟨body, hbody, hstep⟩ := step_of_moves hmoves t
      obtain ⟨body', hbody', hstep'⟩ := step_of_moves (hclauses.mp hmoves) t
      obtain rfl : body = body' := Option.some.inj (hbody.symm.trans hbody')
      rw [hstep, hstep']
      rfl
    · rw [step_withCursor (Iff.refl (later = [])) hmoves (mt hclauses.mpr hmoves) fun _ f hf =>
        (hstarts _ (List.mem_map_of_mem hf)).seenAlike hle hreceiver hhere]
      cases hstep : r.step t e later with
      | error cause => rfl
      | ok q =>
        obtain ⟨hstack, hq⟩ := starts_of_step hstep
        refine ih (fun e' he' => hevents e' (List.mem_cons_of_mem e he'))
          (cursor_of_step hmoves hstep) ?_ ?_
        · intro start hstart
          obtain rfl | hstart := List.mem_cons.mp (hstack hstart)
          · exact hhere
          · exact hstarts start hstart
        · obtain hq | ⟨hq, _⟩ := hq
          · rwa [hq]
          · rwa [hq]

end Replay

/-- The view changes only where an event stands: two cursors behind the start of the text with the
same receiver, and with no event between them, have the same view, whatever the events are. Where
the events cannot be replayed for one of them they cannot for the other, for the same cause. -/
theorem visibleAt_between_events (t : Text) (events : List ScopeEvent) (cursor cursor' : Int)
    (hpos : 1 ≤ cursor) (hle : cursor ≤ cursor')
    (hevents : ∀ e ∈ events, ¬ (cursor ≤ e.offset ∧ e.offset < cursor'))
    (hreceiver : receiver? t cursor' = receiver? t cursor) :
    visibleAt t events cursor' = visibleAt t events cursor := by
  have hbeside : ∀ e ∈ events, Replay.Beside cursor cursor' e.offset := by
    intro e he
    have hnot := hevents e he
    rw [Replay.Beside]
    omega
  exact Replay.run_between (r := { cursor := cursor }) hle hreceiver hbeside rfl
    (fun start hstart => nomatch hstart) (.inl hpos)

theorem tangledEvents_between :
    (∀ e ∈ tangledEvents, ¬ ((3 : Int) ≤ e.offset ∧ e.offset < 4)) ∧
    receiver? ['c', '.', ' ', ' '] 4 = receiver? ['c', '.', ' ', ' '] 3 ∧
    visibleAt ['c', '.', ' ', ' '] tangledEvents 4
      = visibleAt ['c', '.', ' ', ' '] tangledEvents 3 := by
  have hevents : ∀ e ∈ tangledEvents, ¬ ((3 : Int) ≤ e.offset ∧ e.offset < 4) := by decide
  have hreceiver : receiver? ['c', '.', ' ', ' '] 4 = receiver? ['c', '.', ' ', ' '] 3 := by decide
  exact ⟨hevents, hreceiver, visibleAt_between_events ['c', '.', ' ', ' '] tangledEvents 3 4
    (by decide) (by decide) hevents hreceiver⟩

end LazeEdit
