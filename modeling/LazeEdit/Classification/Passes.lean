import LazeEdit.Classification.Basic
import LazeEdit.Classification.Recognize

/-!
# Classifying a document

Each pass reads the whole masked text on its own. The classes come first, since their names are
types for the later passes.
-/

namespace LazeEdit

/-- The span of a piece of text. -/
def Piece.token (p : Piece) (type : TokenType) (modifiers : Modifiers := .none) : TokenSpan :=
  ⟨p.offset, p.text.length, type, modifiers⟩

/-- The colour turn of a bracket depth; depths below zero go on in the same rotation. -/
def scopeTurn (depth : Int) : Fin 3 :=
  ⟨(depth % 3).toNat, by omega⟩

/-- The brackets of a text that begins at `offset` and `depth`. A closing bracket has the depth of
the bracket that it closes. -/
def bracketTokensFrom (depth : Int) (offset : Nat) : Text → List TokenSpan
  | [] => []
  | c :: cs =>
    if isOpenBracket c then
      ⟨offset, 1, .scope (scopeTurn depth), .only .opening⟩
        :: bracketTokensFrom (depth + 1) (offset + 1) cs
    else if isCloseBracket c then
      ⟨offset, 1, .scope (scopeTurn (depth - 1)), .only .closing⟩
        :: bracketTokensFrom (depth - 1) (offset + 1) cs
    else bracketTokensFrom depth (offset + 1) cs

/-- The brackets of a text. -/
def bracketTokens (t : Text) : List TokenSpan :=
  bracketTokensFrom 0 0 t

namespace ClassForm

/-- The span of the name of a class. -/
def token (f : ClassForm) : TokenSpan :=
  f.name.token .className

/-- The class that a form declares. -/
def declaration (f : ClassForm) : Declaration :=
  ⟨f.name.text, f.offset, f.name.stop, none⟩

end ClassForm

/-- The span of a control word or keyword. -/
def wordToken? (w : Piece) : Option TokenSpan :=
  if controlForms.contains w.text then some (w.token .control)
  else if keywordForms.contains w.text then some (w.token .keyword)
  else none

/-- The access level that a word begins. -/
def accessChange? (w : Piece) : Option (Int × Access) :=
  if w.text = privateWord then some (w.offset, .owner)
  else if w.text = publicWord then some (w.offset, .everyone)
  else none

namespace FunctionForm

/-- The span of the name of a function, unless the name is a control word. -/
def token? (f : FunctionForm) : Option TokenSpan :=
  if controlForms.contains f.name.text then none
  else if builtinFunctionForms.contains f.name.text then some (f.name.token .builtin)
  else some (f.name.token .functionName (if f.keyword.isSome then .only .declaration else .none))

/-- The function that a form declares, if it does. -/
def declaration? (f : FunctionForm) : Option Declaration :=
  if f.keyword.isSome then some ⟨f.name.text, f.offset, f.name.stop, none⟩ else none

end FunctionForm

namespace VariableForm

/-- The name of a variable. -/
def name : VariableForm → Piece
  | declared _ name => name
  | used name => name

/-- The span of a variable, unless its name is reserved. -/
def token? (reserved : List Text) (f : VariableForm) : Option TokenSpan :=
  if reserved.contains f.name.text then none
  else
    match f with
    | declared _ name => some (name.token .variableName (.only .declaration))
    | used name => some (name.token .variableName)

/-- The variable that a form declares, if it does and its name is not reserved. -/
def declaration? (reserved : List Text) : VariableForm → Option Declaration
  | declared type name =>
    if reserved.contains name.text then none
    else some ⟨name.text, name.offset, name.stop, some type.text⟩
  | used _ => none

end VariableForm

/-- The modifier of a base. -/
def Base.modifier : Base → Modifier
  | binary => .binary
  | hexadecimal => .hexadecimal
  | decimal => .decimal

/-- The span of a number. -/
def NumberForm.token (f : NumberForm) : TokenSpan :=
  f.piece.token .number (.only f.base.modifier)

/-- Everything that the passes find in a masked text. -/
def classify (t : Text) : Classification :=
  let classForms := occurrences findClass t
  let classes := classForms.map ClassForm.declaration
  let classNames := classes.map Declaration.name
  let types := typeForms classNames
  let reserved := reservedForms classNames
  let words := occurrences findWord t
  let functionForms := occurrences (findFunction types) t
  let variableForms := occurrences (findVariable types) t
  { tokens :=
      bracketTokens t
        ++ classForms.map ClassForm.token
        ++ words.filterMap wordToken?
        ++ functionForms.filterMap FunctionForm.token?
        ++ variableForms.filterMap (VariableForm.token? reserved)
        ++ (occurrences (findType types) t).map (Piece.token · .typeName)
        ++ (occurrences findNumber t).map NumberForm.token
        ++ (occurrences findOperator t).map (Piece.token · .operator)
    classes := classes
    functions := functionForms.filterMap FunctionForm.declaration?
    bindings := variableForms.filterMap (VariableForm.declaration? reserved)
    access := words.filterMap accessChange? }

end LazeEdit
