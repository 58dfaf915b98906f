import LazeEdit.Text.Basic

/-!
# Line endings

Files may end their lines in several ways. Reading a file turns each carriage return, alone or with
a line feed behind it, into one line feed; a diagnostic shows a line of text that ends at any of the
characters that end a line on a terminal.
-/

namespace LazeEdit

/-- A text in which every line ends with a line feed alone. -/
def normalizeLineEnds : Text → Text
  | '\r' :: '\n' :: cs => '\n' :: normalizeLineEnds cs
  | '\r' :: cs => '\n' :: normalizeLineEnds cs
  | c :: cs => c :: normalizeLineEnds cs
  | [] => []

/-- The characters that end a line on a terminal. -/
def isLineBreak (c : Char) : Bool :=
  let n := c.toNat
  (10 ≤ n && n ≤ 13) || (0x1C ≤ n && n ≤ 0x1E) || n == 0x85 || n == 0x2028 || n == 0x2029

/-- The lines of a text without the characters that end them, where `line` is what was read of the
first one. A carriage return and a line feed end a line together, and no empty line follows the last
line end. -/
def terminalLinesFrom (line : Text) : Text → List Text
  | [] => if line.isEmpty then [] else [line.reverse]
  | '\r' :: '\n' :: cs => line.reverse :: terminalLinesFrom [] cs
  | c :: cs =>
    if isLineBreak c then line.reverse :: terminalLinesFrom [] cs
    else terminalLinesFrom (c :: line) cs

/-- The lines of a text as a terminal shows them. -/
def terminalLines (t : Text) : List Text :=
  terminalLinesFrom [] t

end LazeEdit
