import LazeEdit.Lexicon.Name
import LazeEdit.Lexicon.Operator
import LazeEdit.Lexicon.Word

/-!
# Recognisers

The forms that classification looks for in masked text. A type is a type of the language or a class
of the document; where one type begins another the longer one is tried first.
-/

namespace LazeEdit

/-- The types that a document with some classes may name, longer ones first. -/
def typeForms (classNames : List Text) : List Text :=
  sortLongerFirst (builtinTypeForms ++ classNames)

/-- The words that are no variable in a document with some classes. -/
def reservedForms (classNames : List Text) : List Text :=
  (controlForms ++ keywordForms ++ builtinTypeForms ++ classNames).eraseDups

/-- The place behind a word, a colon and the blanks around the colon. -/
def Site.labelled? (s : Site) (w : Text) : Option Site := do
  let behind ← s.word? w
  let colon ← behind.skipBlanks.char? isColon
  return colon.skipBlanks

/-! ### Classes -/

/-- The declaration of a class: from where it stands to the end of its name. -/
structure ClassForm where
  offset : Nat
  name : Piece
  deriving DecidableEq, Repr

/-- The class that is declared at a place. -/
def findClass : Finder ClassForm := fun s =>
  if s.afterName then none
  else do
    let n ← s.labelled? classWord
    let name ← leadingName? n.rest
    return (⟨s.offset, ⟨n.offset, name⟩⟩, n.offset + name.length - s.offset)

/-! ### Words and types -/

/-- The name at a place. -/
def findWord : Finder Piece := fun s =>
  (leadingName? s.rest).map fun w => (⟨s.offset, w⟩, w.length)

/-- The type that labels what follows it. -/
def findType (types : List Text) : Finder Piece := fun s =>
  if s.afterName then none
  else types.findSome? fun w => do
    let behind ← s.word? w
    let _ ← behind.skipBlanks.char? isColon
    return (⟨s.offset, w⟩, w.length)

/-! ### Functions -/

/-- A function name before an opening parenthesis: the type and the declaring word that label it, if
any, and the name. -/
structure FunctionForm where
  offset : Nat
  type : Option Piece
  keyword : Option Piece
  name : Piece
  deriving DecidableEq, Repr

/-- The name at a place, when an opening parenthesis follows it. -/
def Site.calledName? (s : Site) : Option Piece := do
  let name ← leadingName? s.rest
  let _ ← (s.advance name.length).skipBlanks.char? isOpenParen
  return ⟨s.offset, name⟩

/-- The declaring word (if any) and the called name at a place. -/
def Site.functionName? (s : Site) : Option (Option Piece × Piece) :=
  (do
    let n ← s.labelled? functionWord
    let name ← n.calledName?
    return (some (s.pieceTo n), name))
  <|> s.calledName?.map fun name => (none, name)

/-- The function that is declared or called at a place. -/
def findFunction (types : List Text) : Finder FunctionForm := fun s =>
  if s.afterName then none
  else
    let form (type : Option Piece) : Option Piece × Piece → FunctionForm × Nat
      | (keyword, name) => (⟨s.offset, type, keyword, name⟩, name.stop - s.offset)
    (types.findSome? fun w => do
      let n ← s.labelled? w
      let found ← n.functionName?
      return form (some ⟨s.offset, w⟩) found)
    <|> s.functionName?.map (form none)

/-! ### Variables -/

/-- A variable that is declared with a type, or used. -/
inductive VariableForm where
  | declared (type name : Piece)
  | used (name : Piece)
  deriving DecidableEq, Repr

/-- The variable that is declared at a place: a type, a colon and a name that no opening parenthesis
follows. -/
def findDeclared (types : List Text) : Finder VariableForm := fun s =>
  if s.before.all isSeparator then
    types.findSome? fun w => do
      let n ← s.labelled? w
      let name ← leadingName? n.rest
      match (n.advance name.length).skipBlanks.char? isOpenParen with
      | some _ => none
      | none =>
        return (.declared ⟨s.offset, w⟩ ⟨n.offset, name⟩, n.offset + name.length - s.offset)
  else none

/-- The characters that make a name before them a label, a call or the head of a block. -/
def isNameOpener (c : Char) : Bool :=
  isColon c || isOpenParen c || isOpenBrace c

/-- The variable that is used at a place: a name that is neither a label nor called nor the head of
a block. -/
def findUsed : Finder VariableForm := fun s =>
  if s.before.all fun c => isSeparator c && !isColon c then do
    let name ← leadingName? s.rest
    match (s.advance name.length).skipBlanks.char? isNameOpener with
    | some _ => none
    | none => return (.used ⟨s.offset, name⟩, name.length)
  else none

/-- The variable that is declared or, if none is, used at a place. -/
def findVariable (types : List Text) : Finder VariableForm := fun s =>
  findDeclared types s <|> findUsed s

/-! ### Numbers and operators -/

/-- The bases in which numbers are written. -/
inductive Base where
  | binary
  | hexadecimal
  | decimal
  deriving DecidableEq, Repr

/-- A number as it is written. -/
structure NumberForm where
  base : Base
  piece : Piece
  deriving DecidableEq, Repr

/-- The hexadecimal digits. -/
def isHexDigit (c : Char) : Bool :=
  isDigit c || ('a' ≤ c && c ≤ 'f') || ('A' ≤ c && c ≤ 'F')

/-- The digits of a number that begins with a base mark: at least one must follow the mark. -/
def markedNumber? (mark : Char → Bool) (digit : Char → Bool) : Text → Option Text
  | z :: m :: cs =>
    let digits := cs.takeWhile digit
    if z == '0' && mark m && !digits.isEmpty then some (z :: m :: digits) else none
  | _ => none

/-- The digits and points of a number without a base mark. -/
def plainNumber? : Text → Option Text
  | c :: cs => if isDigit c then some (c :: cs.takeWhile fun d => isDigit d || d == '.') else none
  | [] => none

/-- The number that begins a text. -/
def leadingNumber? (t : Text) : Option (Base × Text) :=
  let binary := markedNumber? (fun c => c == 'b' || c == 'B') (fun c => c == '0' || c == '1') t
  let hexadecimal := markedNumber? (fun c => c == 'x' || c == 'X') isHexDigit t
  binary.map (.binary, ·) <|> hexadecimal.map (.hexadecimal, ·)
    <|> (plainNumber? t).map (.decimal, ·)

/-- The number at a place. -/
def findNumber : Finder NumberForm := fun s =>
  if s.afterName then none
  else (leadingNumber? s.rest).map fun (base, w) => (⟨base, ⟨s.offset, w⟩⟩, w.length)

/-- The operator at a place. -/
def findOperator : Finder Piece := fun s =>
  (leadingOperator? s.rest).map fun w => (⟨s.offset, w⟩, w.length)

end LazeEdit
