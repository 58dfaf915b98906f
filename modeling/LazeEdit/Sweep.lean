import LazeEdit.Analysis

/-!
# Sweeps

What is in view at each offset of a document, from its start to its end.
-/

namespace LazeEdit

/-- The changes of view along a document: each offset at which the names in view differ from those
before it, and the registry of classes at the end. -/
structure Sweep where
  views : List (Nat × List Text)
  registry : Registry
  deriving DecidableEq, Repr

/-- The first of each run of equal values. -/
def changes {α β : Type} [DecidableEq β] (last : Option β) : List (α × β) → List (α × β)
  | [] => []
  | (a, b) :: rest => if last = some b then changes last rest else (a, b) :: changes (some b) rest

/-- The changes of view along an analysed document. -/
def sweep (a : Analysis) : Except ResolveError Sweep := do
  let text := a.source.text
  let states ← (List.range (text.length + 1)).mapM fun (n : Nat) =>
    (replay text a.events n).map fun r => (n, r)
  let views := states.map fun (n, r) => (n, r.visible.map Symbol.name)
  let registry := (states.getLast?.map fun (_, r) => r.registry).getD []
  return ⟨changes none views, registry⟩

end LazeEdit
