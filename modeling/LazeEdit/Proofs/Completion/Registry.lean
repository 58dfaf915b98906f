import LazeEdit.Proofs.Completion.Replay

/-!
# The registry and the cursor

A cursor decides what comes into view when a scope ends, and it may be moved where a clause ends. It
decides nothing else. `Replay.SameScopes` says of two states that they hold the same scopes, the
same symbols to be handed on and the same registry. One event keeps this for any two cursors
(`SameScopes.step`), so a run does (`SameScopes.run`), and the classes that a replay leaves do not
depend on the cursor.
-/

namespace LazeEdit

namespace Replay

variable {t : Text} {r r' q : Replay} {e : ScopeEvent}

lemma mem_receiverMembers {classes : Text → List Symbol} {receiver : Option Text}
    {symbols : List Symbol} {x : Symbol} (h : x ∈ receiverMembers classes receiver symbols) :
    ∃ type, x ∈ classes type := by
  unfold receiverMembers at h
  split at h
  · cases h
  split at h
  · cases h
  split at h
  · cases h
  · exact ⟨_, h⟩

lemma mem_of_members {symbols found : List Symbol} {x : Symbol}
    (h : r.members t symbols = .ok found) (hx : x ∈ found) :
    ∃ type, x ∈ r.registry.members type := by
  by_cases hle : r.cursor ≤ t.length
  · rw [members_eq hle] at h
    cases h
    exact mem_receiverMembers hx
  · -- a cursor beyond the text has no receiver
    have hreceiver : receiver? t r.cursor = .error .cursorBeyondText := if_pos (by omega)
    rw [members, hreceiver] at h
    cases h

/-- The end of a scope takes it from the stack and may put a class into the registry. What comes
into view is of the scope or of a class, and a scope around the cursor shows all of its symbols. -/
lemma exists_seen_of_close {frame : Frame} {stack : List Frame} {stop : Int}
    (h : r.close t frame stack stop = .ok q) :
    ∃ seen, q = { r with
        stack := stack, visible := r.visible ++ seen, registry := r.registryBehind frame } ∧
      (∀ x ∈ seen, x ∈ frame.symbols ∨ ∃ type, x ∈ r.registry.members type) ∧
      (frame.start < r.cursor → r.cursor ≤ stop → frame.symbols ⊆ seen) := by
  rw [close] at h
  split at h
  case isTrue hinside =>
    cases hmembers : r.members t frame.symbols with
    | error cause =>
      rw [hmembers] at h
      cases h
    | ok members =>
      rw [hmembers] at h
      cases h
      refine ⟨frame.symbols ++ members, ?_, fun x hx => ?_, fun _ _ => List.subset_append_left _ _⟩
      · rw [← List.append_assoc]
        rfl
      · exact (List.mem_append.mp hx).imp_right (mem_of_members hmembers)
  case isFalse houtside =>
    cases h
    refine ⟨[], ?_, by simp, fun hstart hstop => absurd ⟨hstart, hstop⟩ houtside⟩
    rw [List.append_nil]
    rfl

/-- Of the end of a scope only the view depends on the cursor. -/
lemma exists_of_close {frame : Frame} {stack : List Frame} {stop : Int}
    (h : r.close t frame stack stop = .ok q) :
    ∃ visible, q = { r with
      stack := stack, visible := visible, registry := r.registryBehind frame } := by
  obtain ⟨seen, hq, _⟩ := exists_seen_of_close h
  exact ⟨r.visible ++ seen, hq⟩

/-! ### Scopes that are the same -/

/-- Two states with the same scopes and clause, symbols to be handed on and registry. What has come
into view may differ. -/
structure SameScopes (r r' : Replay) : Prop where
  stack : r'.stack = r.stack
  carry : r'.carry = r.carry
  pendingClass : r'.pendingClass = r.pendingClass
  registry : r'.registry = r.registry
  clauseStart : r'.clauseStart = r.clauseStart

/-- Where two replays both go on, they come to states with the same scopes. -/
def Together (x x' : Except ResolveError Replay) : Prop :=
  ∀ q q', x = .ok q → x' = .ok q' → q.SameScopes q'

lemma Together.ok (h : r.SameScopes r') : Together (.ok r) (.ok r') := by
  rintro _ _ ⟨⟩ ⟨⟩
  exact h

lemma Together.bind {x x' : Except ResolveError Replay}
    {f f' : Replay → Except ResolveError Replay} (h : Together x x')
    (hf : ∀ r r', r.SameScopes r' → Together (f r) (f' r')) : Together (x >>= f) (x' >>= f') := by
  cases x with
  | error cause => rintro _ _ ⟨⟩
  | ok r =>
    cases x' with
    | error cause =>
      rintro _ _ _ ⟨⟩
    | ok r' => exact hf r r' (h r r' rfl rfl)

namespace SameScopes

lemma symm (h : r.SameScopes r') : r'.SameScopes r :=
  ⟨h.stack.symm, h.carry.symm, h.pendingClass.symm, h.registry.symm, h.clauseStart.symm⟩

lemma trans (h : r.SameScopes r') (h' : r'.SameScopes q) : r.SameScopes q :=
  ⟨h'.stack.trans h.stack, h'.carry.trans h.carry, h'.pendingClass.trans h.pendingClass,
    h'.registry.trans h.registry, h'.clauseStart.trans h.clauseStart⟩

lemma push (h : r.SameScopes r') (start : Int) (owner : Option Text) :
    (r.push start owner).SameScopes (r'.push start owner) := by
  refine ⟨?_, rfl, h.pendingClass, h.registry, h.clauseStart⟩
  rw [Replay.push, Replay.push, h.stack, h.carry]

lemma close (h : r.SameScopes r') (frame : Frame) (stack : List Frame) (stop : Int) :
    Together (r.close t frame stack stop) (r'.close t frame stack stop) := by
  intro q q' hq hq'
  obtain ⟨visible, rfl⟩ := exists_of_close hq
  obtain ⟨visible', rfl⟩ := exists_of_close hq'
  refine ⟨rfl, h.carry, h.pendingClass, ?_, h.clauseStart⟩
  show r'.registryBehind frame = r.registryBehind frame
  rw [registryBehind, registryBehind, h.registry]

lemma closeAll (h : r.SameScopes r') (stop : Int) (stack : List Frame) :
    Together (r.closeAll t stop stack) (r'.closeAll t stop stack) := by
  induction stack generalizing r r' with
  | nil => exact .ok h
  | cons frame stack ih => exact (h.close frame stack stop).bind fun _ _ hq => ih hq

lemma onTop (h : r.SameScopes r') (f : Frame → Frame) : Together (r.onTop f) (r'.onTop f) := by
  rw [Replay.onTop, Replay.onTop, h.stack]
  cases r.stack with
  | nil => rintro _ _ ⟨⟩
  | cons top stack => exact .ok ⟨rfl, h.carry, h.pendingClass, h.registry, h.clauseStart⟩

lemma handOver (h : r.SameScopes r') : r.handOver.SameScopes r'.handOver := by
  rw [Replay.handOver, Replay.handOver, h.stack]
  match hstack : r.stack with
  | [] => exact h
  | [_] => exact h
  | top :: next :: stack => exact ⟨rfl, rfl, h.pendingClass, h.registry, h.clauseStart⟩

/-- The end of a clause moves the cursor at most. -/
lemma of_enterBody (r : Replay) (stop : Int) (later : List ScopeEvent) :
    r.SameScopes (r.enterBody stop later) := by
  rw [Replay.enterBody]
  split
  · split
    · exact ⟨rfl, rfl, rfl, rfl, rfl⟩
    · exact ⟨rfl, rfl, rfl, rfl, rfl⟩
  · exact ⟨rfl, rfl, rfl, rfl, rfl⟩

lemma enterBody (h : r.SameScopes r') (stop : Int) (later : List ScopeEvent) :
    (r.enterBody stop later).SameScopes (r'.enterBody stop later) :=
  (of_enterBody r stop later).symm.trans (h.trans (of_enterBody r' stop later))

lemma closeScope (h : r.SameScopes r') (hkind : e.kind = .closes .scope)
    (later : List ScopeEvent) : Together (r.step t e later) (r'.step t e later) := by
  have hsettle : ∀ q q' : Replay, q.SameScopes q' →
      Together (.ok { q with carry := [] }) (.ok { q' with carry := [] }) :=
    fun q q' hq => .ok { hq with carry := rfl }
  simp only [Replay.step, hkind, h.stack]
  cases later with
  | nil => exact (h.closeAll e.offset r.stack).bind hsettle
  | cons next later =>
    match hstack : r.stack with
    | [] => exact hsettle r r' h
    | [_] => exact hsettle r r' h
    | frame :: next :: stack => exact (h.close frame (next :: stack) e.offset).bind hsettle

/-- One event leads from the same scopes to the same scopes, whatever its kind. -/
lemma step (h : r.SameScopes r') (e : ScopeEvent) (later : List ScopeEvent) :
    Together (r.step t e later) (r'.step t e later) := by
  cases hkind : e.kind with
  | opens extent =>
    simp only [Replay.step, hkind]
    cases extent with
    | scope =>
      rw [h.pendingClass]
      exact .ok { h.push e.offset r.pendingClass with pendingClass := rfl }
    | signature => exact .ok (h.push e.offset none)
    | loopDeclaration => exact .ok (h.push e.offset none)
    | loopCondition => exact .ok { h with clauseStart := rfl }
    | loopStep => exact .ok { h with clauseStart := rfl }
  | closes extent =>
    cases extent with
    | scope => exact h.closeScope hkind later
    | signature =>
      simp only [Replay.step, hkind]
      exact .ok h.handOver
    | loopDeclaration =>
      simp only [Replay.step, hkind]
      exact .ok h.handOver
    | loopCondition =>
      simp only [Replay.step, hkind]
      exact .ok (h.enterBody e.offset later)
    | loopStep =>
      simp only [Replay.step, hkind]
      exact .ok (h.enterBody e.offset later)
  | counter =>
    simp only [Replay.step, hkind, h.stack]
    match hstack : r.stack with
    | [] => rintro _ _ ⟨⟩
    | top :: stack =>
      exact .ok ⟨rfl, congrArg (· ++ _) h.carry, h.pendingClass, h.registry, h.clauseStart⟩
  | grants access =>
    simp only [Replay.step, hkind]
    exact h.onTop _
  | declares kind =>
    simp only [Replay.step, hkind]
    refine (h.onTop _).bind ?_
    intro q q' hq
    cases kind with
    | function => exact .ok { hq with carry := rfl }
    | classType => exact .ok { hq with pendingClass := rfl }
    | value => exact .ok hq

/-- A run over events leads from the same scopes to the same scopes. -/
lemma run (h : r.SameScopes r') (events : List ScopeEvent) :
    Together (run t events r) (run t events r') := by
  induction events generalizing r r' with
  | nil => exact .ok h
  | cons e later ih => exact (h.step e later).bind fun _ _ hq => ih hq

end SameScopes

end Replay

/-- The classes that a replay leaves, with their members, do not depend on the cursor: whatever the
events are, any two cursors for which they are replayed to the end leave the same registry. -/
theorem registry_same_for_cursors (t : Text) (events : List ScopeEvent) (cursor cursor' : Int)
    (r r' : Replay) (h : replay t events cursor = .ok r) (h' : replay t events cursor' = .ok r') :
    r'.registry = r.registry := by
  have hstart : Replay.SameScopes { cursor := cursor } { cursor := cursor' } :=
    ⟨rfl, rfl, rfl, rfl, rfl⟩
  exact (hstart.run events r r' h h').registry

/-- Events that do not match and stand in no order: a class body, a scope that nothing ends before the
last event, and between them the end of a list that was not begun. -/
def tangledEvents : List ScopeEvent :=
  [⟨0, .opens .scope, [], none⟩, ⟨4, .declares .classType, ['猫'], none⟩,
    ⟨0, .opens .scope, [], none⟩, ⟨1, .declares .value, ['年'], some ['整', '数']⟩,
    ⟨2, .closes .scope, [], none⟩, ⟨2, .closes .signature, [], none⟩,
    ⟨1, .opens .scope, [], none⟩, ⟨1, .declares .value, ['c'], some ['猫']⟩,
    ⟨4, .closes .scope, [], none⟩]

theorem tangledEvents_registry :
    ∃ r r', replay ['c', '.', ' ', 'x'] tangledEvents 1 = .ok r ∧
      replay ['c', '.', ' ', 'x'] tangledEvents 3 = .ok r' ∧ r'.visible ≠ r.visible ∧
      r'.registry = r.registry := by
  refine ⟨_, _, rfl, rfl, by decide, ?_⟩
  exact registry_same_for_cursors ['c', '.', ' ', 'x'] tangledEvents 1 3 _ _ rfl rfl

end LazeEdit
