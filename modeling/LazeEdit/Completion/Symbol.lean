import LazeEdit.Scope.Event

/-!
# Symbols

A symbol is a name that a document offers at some place. The registry keeps, for each class whose
body has been read, the symbols of that body.
-/

namespace LazeEdit

/-- A name that may be offered, with its type and who may use it. -/
structure Symbol where
  kind : SymbolKind
  name : Text
  declaredType : Option Text := none
  access : Access := .everyone
  deriving DecidableEq, Repr

/-- The name of a kind of symbol. -/
def SymbolKind.name : SymbolKind → String
  | function => "function"
  | value => "variable"
  | classType => "class"

/-- The symbols of the classes read so far, each class once. -/
abbrev Registry := List (Text × List Symbol)

namespace Registry

/-- The symbols of a class; none for a class that is not there. -/
def members (r : Registry) (name : Text) : List Symbol :=
  (r.lookup name).getD []

/-- The registry in which a class has some symbols; what it had before is replaced. -/
def insert (name : Text) (symbols : List Symbol) : Registry → Registry
  | [] => [(name, symbols)]
  | (n, old) :: r => if n = name then (n, symbols) :: r else (n, old) :: insert name symbols r

end Registry

end LazeEdit
