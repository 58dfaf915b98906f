import LazeEdit.Completion.Receiver
import LazeEdit.Completion.Symbol
import LazeEdit.Lexicon.Word
import LazeEdit.Text.Source

/-!
# Resolving a cursor

The events of a document are replayed over a stack of open scopes. A scope that closes behind the
cursor and opened before it gives its symbols, inner scopes first, and with them the members of the
receiver when the scope declares its type. A cursor in a condition or step clause is moved into the
body of its loop.
-/

namespace LazeEdit

/-- A scope that is still open. -/
structure Frame where
  start : Int
  symbols : List Symbol := []
  access : Access := .everyone
  /-- The class whose body this scope is. -/
  owner : Option Text := none
  deriving DecidableEq, Repr

/-- Why a list of events cannot be replayed. -/
inductive ResolveError where
  | noOpenScope
  | receiver (cause : ReceiverError)
  deriving DecidableEq, Repr

/-- The text of the error about a list of events. -/
def ResolveError.message : ResolveError → String
  | noOpenScope => "list index out of range"
  | receiver cause => cause.message

/-- The state of a replay. The stack has the innermost scope first. -/
structure Replay where
  cursor : Int
  stack : List Frame := []
  /-- Symbols for the next scope that opens: parameters, loop variables and counters. -/
  carry : List Symbol := []
  pendingClass : Option Text := none
  registry : Registry := []
  clauseStart : Int := 0
  visible : List Symbol := []
  deriving DecidableEq, Repr

namespace Replay

/-- Opens a scope, which takes the carried symbols and the access level around it. -/
def push (r : Replay) (start : Int) (owner : Option Text) : Replay :=
  let access := match r.stack with
    | [] => .everyone
    | top :: _ => top.access
  { r with stack := ⟨start, r.carry, access, owner⟩ :: r.stack, carry := [] }

/-- The members of the class that the first declaration of the receiver in a scope names. -/
def members (t : Text) (r : Replay) (symbols : List Symbol) :
    Except ReceiverError (List Symbol) := do
  match ← receiver? t r.cursor with
  | none => return []
  | some name =>
    match symbols.find? fun s => s.kind = .value && s.name = name with
    | none => return []
    | some s =>
      match s.declaredType with
      | none => return []
      | some type => return r.registry.members type

/-- Ends a scope, of which `stack` are the scopes around it. -/
def close (t : Text) (r : Replay) (frame : Frame) (stack : List Frame) (stop : Int) :
    Except ResolveError Replay := do
  let visible ←
    if frame.start < r.cursor ∧ r.cursor ≤ stop then
      match r.members t frame.symbols with
      | .ok members => pure (r.visible ++ frame.symbols ++ members)
      | .error e => .error (.receiver e)
    else pure r.visible
  let registry := match frame.owner with
    | some name => r.registry.insert name frame.symbols
    | none => r.registry
  return { r with stack := stack, visible := visible, registry := registry }

/-- Ends all of the given open scopes. -/
def closeAll (t : Text) (stop : Int) : List Frame → Replay → Except ResolveError Replay
  | [], r => .ok r
  | frame :: stack, r => do closeAll t stop stack (← r.close t frame stack stop)

/-- Changes the innermost open scope. -/
def onTop (r : Replay) (f : Frame → Frame) : Except ResolveError Replay :=
  match r.stack with
  | [] => .error .noOpenScope
  | top :: stack => .ok { r with stack := f top :: stack }

/-- Ends a signature list or a loop declaration, whose symbols are carried on. -/
def handOver (r : Replay) : Replay :=
  match r.stack with
  | top :: next :: stack => { r with stack := next :: stack, carry := top.symbols }
  | _ => r

/-- Moves a cursor inside the clause that ends here into the next scope that opens. -/
def enterBody (r : Replay) (stop : Int) (later : List ScopeEvent) : Replay :=
  if r.clauseStart < r.cursor ∧ r.cursor ≤ stop then
    match later.find? fun e => e.kind = .opens .scope with
    | some body => { r with cursor := body.offset + 1 }
    | none => r
  else r

/-- The state after one event, of which `later` are the events behind it. The last event ends every
open scope; no other one ends the outermost. -/
def step (t : Text) (e : ScopeEvent) (later : List ScopeEvent) (r : Replay) :
    Except ResolveError Replay :=
  match e.kind with
  | .opens .scope => .ok { r.push e.offset r.pendingClass with pendingClass := none }
  | .closes .scope => do
    let r' ←
      match later, r.stack with
      | [], stack => r.closeAll t e.offset stack
      | _ :: _, frame :: next :: stack => r.close t frame (next :: stack) e.offset
      | _ :: _, _ => pure r
    return { r' with carry := [] }
  | .opens .signature | .opens .loopDeclaration => .ok (r.push e.offset none)
  | .closes .signature | .closes .loopDeclaration => .ok r.handOver
  | .opens .loopCondition | .opens .loopStep => .ok { r with clauseStart := e.offset }
  | .closes .loopCondition | .closes .loopStep => .ok (r.enterBody e.offset later)
  | .counter =>
    match r.stack with
    | [] => .error .noOpenScope
    | top :: _ =>
      .ok { r with carry := r.carry ++ [⟨.value, counterName, some int64Word, top.access⟩] }
  | .grants access => r.onTop fun top => { top with access := access }
  | .declares kind => do
    let r' ← r.onTop fun top =>
      { top with symbols := top.symbols ++ [⟨kind, e.name, e.declaredType, top.access⟩] }
    return match kind with
      | .function => { r' with carry := [] }
      | .classType => { r' with pendingClass := some e.name }
      | .value => r'

/-- The state after a list of events. -/
def run (t : Text) : List ScopeEvent → Replay → Except ResolveError Replay
  | [], r => .ok r
  | e :: later, r => do run t later (← r.step t e later)

end Replay

/-- The state after replaying the events of a document for a cursor. -/
def replay (t : Text) (events : List ScopeEvent) (cursor : Int) : Except ResolveError Replay :=
  Replay.run t events { cursor := cursor }

/-- The symbols in view at a cursor, those of inner scopes first. -/
def visibleAt (t : Text) (events : List ScopeEvent) (cursor : Int) :
    Except ResolveError (List Symbol) :=
  (replay t events cursor).map Replay.visible

/-- The symbols in view at an editor position. -/
def visibleAtPosition (src : Source) (events : List ScopeEvent) (row column : Int) :
    Except ResolveError (List Symbol) :=
  visibleAt src.text events (src.offset row column)

end LazeEdit
