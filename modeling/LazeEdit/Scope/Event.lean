import LazeEdit.Scope.Access

/-!
# Scope events

Events mark the places of a document where names come into view or go out of it: the ends of
scopes, signature lists and loop clauses, the declarations, and the changes of access.
-/

namespace LazeEdit

/-- The kinds of declared names. -/
inductive SymbolKind where
  | function
  | value
  | classType
  deriving DecidableEq, Repr

/-- The stretches of text whose ends are events. -/
inductive Extent where
  | scope
  | signature
  | loopDeclaration
  | loopCondition
  | loopStep
  deriving DecidableEq, Repr

/-- What an event marks. -/
inductive EventKind where
  | opens (extent : Extent)
  | closes (extent : Extent)
  | counter
  | declares (kind : SymbolKind)
  | grants (access : Access)
  deriving DecidableEq, Repr

namespace EventKind

/-- The kinds of events. -/
def all : List EventKind :=
  [opens .scope, closes .scope, opens .signature, closes .signature, opens .loopDeclaration,
    closes .loopDeclaration, opens .loopCondition, closes .loopCondition, opens .loopStep,
    closes .loopStep, counter, declares .classType, declares .function, declares .value,
    grants .owner, grants .everyone, grants .heirs]

/-- The name of a kind. -/
def name : EventKind → String
  | opens .scope => "START_SCOPE"
  | closes .scope => "END_SCOPE"
  | opens .signature => "START_FUNC_SUBSCOPE"
  | closes .signature => "END_FUNC_SUBSCOPE"
  | opens .loopDeclaration => "START_FOR_DECL"
  | closes .loopDeclaration => "END_FOR_DECL"
  | opens .loopCondition => "START_FOR_CONDITION"
  | closes .loopCondition => "END_FOR_CONDITION"
  | opens .loopStep => "START_FOR_LOOP"
  | closes .loopStep => "END_FOR_LOOP"
  | counter => "REPEAT_COUNTER_INJECTED"
  | declares .classType => "CLASS_DECLARED"
  | declares .function => "FUNCTION_DECLARED"
  | declares .value => "VARIABLE_DECLARED"
  | grants .owner => "ACCESS_PRIVATE"
  | grants .everyone => "ACCESS_PUBLIC"
  | grants .heirs => "ACCESS_PROTECTED"

/-- The kind of a name. -/
def ofName? (s : String) : Option EventKind :=
  all.find? (·.name == s)

end EventKind

/-- An event of a document. A name that is not there is empty. -/
structure ScopeEvent where
  offset : Int
  kind : EventKind
  name : Text := []
  declaredType : Option Text := none
  deriving DecidableEq, Repr

end LazeEdit
