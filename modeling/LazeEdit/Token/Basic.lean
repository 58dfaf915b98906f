import LazeEdit.Text.Basic

/-!
# Tokens

The kinds of highlighted text, the modifiers that say more about one occurrence, and the span of
text that carries them. The place of a kind or modifier in its list is its number on the wire.
-/

namespace LazeEdit

/-- The kinds of highlighted text. Brackets are coloured by their depth in three turns. -/
inductive TokenType where
  | comment
  | string
  | keyword
  | number
  | regexp
  | operator
  | namespaceName
  | typeName
  | structName
  | className
  | interfaceName
  | enumName
  | typeParameter
  | functionName
  | memberName
  | macroName
  | variableName
  | parameterName
  | propertyName
  | label
  | control
  | scope (turn : Fin 3)
  | bracket
  | char
  | builtin
  deriving DecidableEq, Repr

namespace TokenType

/-- The kinds in the order of the legend. -/
def all : List TokenType :=
  [comment, string, keyword, number, regexp, operator, namespaceName, typeName, structName,
    className, interfaceName, enumName, typeParameter, functionName, memberName, macroName,
    variableName, parameterName, propertyName, label, control, scope 0, scope 1, scope 2, bracket,
    char, builtin]

/-- The name of a kind in the legend. -/
def name : TokenType → String
  | comment => "comment"
  | string => "string"
  | keyword => "keyword"
  | number => "number"
  | regexp => "regexp"
  | operator => "operator"
  | namespaceName => "namespace"
  | typeName => "type"
  | structName => "struct"
  | className => "class"
  | interfaceName => "interface"
  | enumName => "enum"
  | typeParameter => "typeParameter"
  | functionName => "function"
  | memberName => "member"
  | macroName => "macro"
  | variableName => "variable"
  | parameterName => "parameter"
  | propertyName => "property"
  | label => "label"
  | control => "control"
  | scope 0 => "scope0"
  | scope 1 => "scope1"
  | scope 2 => "scope2"
  | bracket => "bracket"
  | char => "char"
  | builtin => "default"

/-- The place of a kind in the legend. -/
def index : TokenType → Nat
  | comment => 0
  | string => 1
  | keyword => 2
  | number => 3
  | regexp => 4
  | operator => 5
  | namespaceName => 6
  | typeName => 7
  | structName => 8
  | className => 9
  | interfaceName => 10
  | enumName => 11
  | typeParameter => 12
  | functionName => 13
  | memberName => 14
  | macroName => 15
  | variableName => 16
  | parameterName => 17
  | propertyName => 18
  | label => 19
  | control => 20
  | scope turn => 21 + turn.val
  | bracket => 24
  | char => 25
  | builtin => 26

/-- The kind at a place of the legend. -/
def ofIndex? (n : Int) : Option TokenType :=
  if n < 0 then none else all[n.toNat]?

/-- Every kind stands at its place in the legend. -/
theorem ofIndex?_index (k : TokenType) : ofIndex? k.index = some k := by
  cases k with
  | scope turn =>
    match turn with
    | 0 => rfl
    | 1 => rfl
    | 2 => rfl
  | _ => rfl

end TokenType

/-- What may be said about one occurrence beside its kind. -/
inductive Modifier where
  | declaration
  | documentation
  | readonly
  | static
  | abstract
  | deprecated
  | modification
  | async
  | decimal
  | hexadecimal
  | binary
  | opening
  | closing
  | invalid
  deriving DecidableEq, Repr

namespace Modifier

/-- The modifiers in the order of the legend. -/
def all : List Modifier :=
  [declaration, documentation, readonly, static, abstract, deprecated, modification, async, decimal,
    hexadecimal, binary, opening, closing, invalid]

/-- The name of a modifier in the legend. -/
def name : Modifier → String
  | declaration => "declaration"
  | documentation => "documentation"
  | readonly => "readonly"
  | static => "static"
  | abstract => "abstract"
  | deprecated => "deprecated"
  | modification => "modification"
  | async => "async"
  | decimal => "dec"
  | hexadecimal => "hex"
  | binary => "bin"
  | opening => "start"
  | closing => "end"
  | invalid => "invalid"

/-- The bit of a modifier, which is its place in the legend. -/
def bit : Modifier → Nat
  | declaration => 0
  | documentation => 1
  | readonly => 2
  | static => 3
  | abstract => 4
  | deprecated => 5
  | modification => 6
  | async => 7
  | decimal => 8
  | hexadecimal => 9
  | binary => 10
  | opening => 11
  | closing => 12
  | invalid => 13

end Modifier

/-- A set of modifiers, one bit for each; bits that no modifier has are kept. -/
structure Modifiers where
  bits : Nat
  deriving DecidableEq, Repr

namespace Modifiers

/-- No modifier. -/
def none : Modifiers := ⟨0⟩

/-- One modifier. -/
def only (m : Modifier) : Modifiers := ⟨Nat.pow 2 m.bit⟩

/-- Whether a set has a modifier. -/
def has (ms : Modifiers) (m : Modifier) : Bool :=
  ms.bits.testBit m.bit

/-- The modifiers of a set in the order of the legend. -/
def toList (ms : Modifiers) : List Modifier :=
  Modifier.all.filter ms.has

/-- The number of bits in which a whole number can be written, its sign apart. -/
def bitWidth (n : Nat) : Nat :=
  if n = 0 then 0 else n.log2 + 1

/-- The set of a number. A negative number is read in two's complement, in fourteen bits or, if its
size needs more, in as many as that. -/
def ofInt (n : Int) : Modifiers :=
  match n with
  | .ofNat k => ⟨k⟩
  | .negSucc k =>
    let size := k + 1
    if size ≤ 16384 then ⟨16384 - size⟩ else ⟨Nat.pow 2 (bitWidth size) - size⟩

end Modifiers

/-- A stretch of text with its kind and modifiers. Offsets and lengths count characters. -/
structure TokenSpan where
  start : Int
  length : Int
  type : TokenType
  modifiers : Modifiers := .none
  deriving DecidableEq, Repr

/-- The offset just behind a span. -/
def TokenSpan.stop (s : TokenSpan) : Int :=
  s.start + s.length

/-- A value that an enumeration does not have. -/
structure UnknownMember where
  enumeration : String
  value : String
  deriving DecidableEq, Repr

/-- The text of the error about a value that an enumeration does not have. -/
def UnknownMember.message (e : UnknownMember) : String :=
  e.value ++ " is not a valid " ++ e.enumeration

/-- The kind at a place of the legend, or the error that says there is none. -/
def TokenType.ofIndex (n : Int) : Except UnknownMember TokenType :=
  match TokenType.ofIndex? n with
  | some k => .ok k
  | none => .error ⟨"TokenType", toString n⟩

end LazeEdit
