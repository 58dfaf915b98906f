import LazeEdit.Classification.Basic
import LazeEdit.Scope.Event
import LazeEdit.Scope.Loop

/-!
# The events of a document

The events of a masked document and its classification, in the order of their offsets and inside a
scope that spans the whole document. Events at one offset keep the order in which they are listed
here: braces, declarations, access changes, signatures, loops and repetitions.
-/

namespace LazeEdit

/-- The events of the braces of a text that begins at `offset`. -/
def braceEventsFrom (offset : Nat) : Text → List ScopeEvent
  | [] => []
  | c :: cs =>
    if isOpenBrace c then
      { offset := offset, kind := .opens .scope } :: braceEventsFrom (offset + 1) cs
    else if isCloseBrace c then
      { offset := offset, kind := .closes .scope } :: braceEventsFrom (offset + 1) cs
    else braceEventsFrom (offset + 1) cs

/-- The event of a declaration. -/
def Declaration.event (d : Declaration) (kind : SymbolKind) : ScopeEvent :=
  ⟨d.offset, .declares kind, d.name, d.declaredType⟩

/-- The event of a declaration whose type does not matter. -/
def Declaration.plainEvent (d : Declaration) (kind : SymbolKind) : ScopeEvent :=
  ⟨d.offset, .declares kind, d.name, none⟩

/-- The events of the declarations and access changes of a classification. -/
def Classification.events (c : Classification) : List ScopeEvent :=
  c.classes.map (·.plainEvent .classType)
    ++ c.functions.map (·.plainEvent .function)
    ++ c.bindings.map (·.event .value)
    ++ c.access.map fun (offset, access) => { offset := offset, kind := .grants access }

/-- The two events of the ends of a stretch. -/
def Ends.events (e : Ends) (extent : Extent) (name : Text := []) : List ScopeEvent :=
  [{ offset := e.opening, kind := .opens extent, name := name },
    { offset := e.closing, kind := .closes extent, name := name }]

/-- The events of a signature. An expression body is a scope of its own. -/
def Signature.events (s : Signature) (name : Text) : List ScopeEvent :=
  s.parameters.events .signature name
    ++ match s.results with
      | none => []
      | some r =>
        r.list.events .signature name
          ++ match r.body with
            | none => []
            | some body => body.events .scope name

/-- The events of the signature behind a declared name. -/
def signatureEvents (t : Text) (d : Declaration) : List ScopeEvent :=
  match (Site.ofOffset t d.stop.toNat).signature? with
  | none => []
  | some s => s.events d.name

/-- The events of the clauses of a loop. -/
def Loop.events (l : Loop) : List ScopeEvent :=
  l.declaration.events .loopDeclaration
    ++ l.condition.events .loopCondition
    ++ l.step.events .loopStep

/-- The events of the loops of a text. -/
def loopEvents (t : Text) : List ScopeEvent :=
  (occurrences findLoop t).flatMap Loop.events

/-- The events of the repetitions of a text. -/
def repeatEvents (t : Text) : List ScopeEvent :=
  (occurrences findRepeat t).map fun (n : Nat) => { offset := n, kind := .counter }

/-- The events of a masked text before they are put in order. -/
def innerEvents (t : Text) (c : Classification) : List ScopeEvent :=
  braceEventsFrom 0 t
    ++ c.events
    ++ c.functions.flatMap (signatureEvents t)
    ++ loopEvents t
    ++ repeatEvents t

/-- The events of a masked text in order, inside the scope of the whole document. -/
def scopeEvents (t : Text) (c : Classification) : List ScopeEvent :=
  { offset := 0, kind := .opens .scope }
    :: (innerEvents t c).mergeSort (fun a b => a.offset ≤ b.offset)
    ++ [{ offset := t.length, kind := .closes .scope }]

end LazeEdit
