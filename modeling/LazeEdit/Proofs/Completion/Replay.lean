import LazeEdit.Completion.Resolver
import Mathlib.Tactic.Lemma

/-!
# Ending scopes

A replay reads the text only when a scope ends, and only before its cursor. As long as the cursor
does not lie beyond the text this cannot fail, and `Replay.close_eq` gives the state behind it in
closed form: the scope adds to the view what it offers at the cursor (`offered`). Ending all open
scopes goes through the stack by induction (`Replay.closeAll_ok`).
-/

namespace LazeEdit

/-- The receiver before a cursor that does not lie beyond the text. -/
def receiverAt (t : Text) (cursor : Int) : Option Text :=
  receiverReversed? (t.take cursor.toNat).reverse

/-- A cursor that does not lie beyond the text can be read before. -/
lemma receiver?_eq {t : Text} {cursor : Int} (h : cursor ≤ t.length) :
    receiver? t cursor = .ok (receiverAt t cursor) := by
  rw [receiver?, if_neg (by omega)]
  rfl

/-- The members that a scope offers for a receiver: those of the class that the first value of that
name among its symbols has as its type. -/
def receiverMembers (classes : Text → List Symbol) (receiver : Option Text)
    (symbols : List Symbol) : List Symbol :=
  match receiver with
  | none => []
  | some name =>
    match symbols.find? fun s => s.kind = .value && s.name = name with
    | none => []
    | some s =>
      match s.declaredType with
      | none => []
      | some type => classes type

/-- What a scope between two offsets offers at a cursor. -/
def offered (t : Text) (cursor start stop : Int) (classes : Text → List Symbol)
    (symbols : List Symbol) : List Symbol :=
  if start < cursor ∧ cursor ≤ stop then
    symbols ++ receiverMembers classes (receiverAt t cursor) symbols
  else []

namespace Replay

variable {t : Text} {r : Replay}

/-- The members that a replay finds are those of the receiver. -/
lemma members_eq (h : r.cursor ≤ t.length) (symbols : List Symbol) :
    r.members t symbols
      = .ok (receiverMembers r.registry.members (receiverAt t r.cursor) symbols) := by
  rw [members, receiver?_eq h]
  generalize receiverAt t r.cursor = receiver
  cases receiver with
  | none => rfl
  | some name =>
    show Except.bind (.ok (some name)) _ = _
    simp only [Except.bind, receiverMembers]
    cases symbols.find? fun s => s.kind = .value && s.name = name with
    | none => rfl
    | some s =>
      cases hs : s.declaredType with
      | none => simp only [hs]; rfl
      | some type => simp only [hs]; rfl

/-- The registry behind the end of a scope. -/
def registryBehind (r : Replay) (frame : Frame) : Registry :=
  match frame.owner with
  | some name => r.registry.insert name frame.symbols
  | none => r.registry

/-- The state behind the end of a scope. -/
lemma close_eq (h : r.cursor ≤ t.length) (frame : Frame) (stack : List Frame) (stop : Int) :
    r.close t frame stack stop = .ok { r with
      stack := stack
      visible := r.visible
        ++ offered t r.cursor frame.start stop r.registry.members frame.symbols
      registry := r.registryBehind frame } := by
  rw [close, offered]
  split
  · rw [members_eq h, ← List.append_assoc]
    rfl
  · rw [List.append_nil]
    rfl

/-- All open scopes can be ended. -/
lemma closeAll_ok (h : r.cursor ≤ t.length) (stop : Int) (stack : List Frame)
    (hstack : r.stack = stack) :
    ∃ r', closeAll t stop stack r = .ok r' ∧ r'.stack = [] := by
  induction stack generalizing r with
  | nil => exact ⟨r, rfl, hstack⟩
  | cons frame stack ih =>
    rw [closeAll, close_eq h]
    exact ih h rfl

/-- An event that is replayed without failing is followed by the rest. -/
lemma run_cons {r r' : Replay} {e : ScopeEvent} {later : List ScopeEvent}
    (h : r.step t e later = .ok r') : run t (e :: later) r = run t later r' := by
  rw [run, h]
  rfl

end Replay

end LazeEdit
