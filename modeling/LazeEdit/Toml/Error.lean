import LazeEdit.Text.Quoted
import LazeEdit.Toml.Value

/-!
# TOML errors

Why a text is no TOML document, and at which offset the reader noticed it.
-/

namespace LazeEdit.Toml

/-- What is wrong with a document. -/
inductive Reason where
  | statement
  | statementEnd
  | equalsSign
  | keyStart
  | tableEnd
  | arrayOfTablesEnd
  | value
  | date
  | overwrites
  | declaredTwice (key : Key)
  | immutable (key : Key)
  | redefines (key : Key)
  | duplicate (name : Text)
  | illegal (c : Char)
  | invalid (c : Char)
  | expected (mark : Text)
  | unterminated
  | escape
  | hexValue
  | scalarValue
  | openArray
  | openTable
  deriving DecidableEq, Repr

/-- A key as it is shown in an error: its names in parentheses, a lone one with a comma. -/
def keyText (key : Key) : Text :=
  match key with
  | [name] => ['('] ++ quoted name ++ [',', ')']
  | names => ['('] ++ joinWith [',', ' '] (names.map quoted) ++ [')']

/-- The words for what is wrong. -/
def Reason.message : Reason → Text
  | statement => "Invalid statement".toList
  | statementEnd => "Expected newline or end of document after a statement".toList
  | equalsSign => "Expected '=' after a key in a key/value pair".toList
  | keyStart => "Invalid initial character for a key part".toList
  | tableEnd => "Expected ']' at the end of a table declaration".toList
  | arrayOfTablesEnd => "Expected ']]' at the end of an array declaration".toList
  | value => "Invalid value".toList
  | date => "Invalid date or datetime".toList
  | overwrites => "Cannot overwrite a value".toList
  | declaredTwice key => "Cannot declare ".toList ++ keyText key ++ " twice".toList
  | immutable key => "Cannot mutate immutable namespace ".toList ++ keyText key
  | redefines key => "Cannot redefine namespace ".toList ++ keyText key
  | duplicate name => "Duplicate inline table key ".toList ++ quoted name
  | illegal c => "Illegal character ".toList ++ quoted [c]
  | invalid c => "Found invalid character ".toList ++ quoted [c]
  | expected mark => "Expected ".toList ++ quoted mark
  | unterminated => "Unterminated string".toList
  | escape => "Unescaped '\\' in a string".toList
  | hexValue => "Invalid hex value".toList
  | scalarValue => "Escaped character is not a Unicode scalar value".toList
  | openArray => "Unclosed array".toList
  | openTable => "Unclosed inline table".toList

/-- Why a text is not read as a document. -/
inductive Error where
  | malformed (reason : Reason) (offset : Nat)
  /-- A decimal integer has more digits than are converted. -/
  | tooManyDigits (count : Nat)
  deriving DecidableEq, Repr

/-- The line and column of an offset, both counted from one; none at the end of the document. -/
def place? (document : Text) (offset : Nat) : Option (Nat × Nat) :=
  if offset < document.length then
    let before := document.take offset
    let line := before.count '\n' + 1
    some (line, (before.reverse.takeWhile (· != '\n')).length + 1)
  else none

end LazeEdit.Toml
