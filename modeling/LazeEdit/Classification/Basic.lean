import LazeEdit.Scope.Access

/-!
# Classifications

What classifying a masked document finds: highlighted spans in the order in which the passes give
them, the classes, functions and variables that it declares, and where its access level changes.
-/

namespace LazeEdit

/-- A declared name, with where its declaration starts and ends and the type it is given. -/
structure Declaration where
  name : Text
  offset : Int
  stop : Int
  declaredType : Option Text := none
  deriving DecidableEq, Repr

/-- What classifying a document finds. -/
structure Classification where
  tokens : List TokenSpan := []
  classes : List Declaration := []
  functions : List Declaration := []
  bindings : List Declaration := []
  access : List (Int × Access) := []
  deriving DecidableEq, Repr

/-- The names of the declared classes. -/
def Classification.classNames (c : Classification) : List Text :=
  c.classes.map Declaration.name

end LazeEdit
