import LazeEdit.Text.Basic

/-!
# Character widths

Structural characters may be written in ASCII or in full width. This module holds the table of
counterparts, the classes of characters that the analysis takes as one, and all the spellings of a
word.
-/

namespace LazeEdit

/-- The structural ASCII characters with their full-width counterparts. -/
def fullWidthTable : List (Char × Char) :=
  [('=', '＝'), ('(', '（'), (')', '）'), ('\x7b', '｛'), ('\x7d', '｝'), ('[', '［'), (']', '］'),
    ('<', '＜'), ('>', '＞'), ('+', '＋'), ('*', '＊'), ('&', '＆'), (' ', '\u3000'), ('\'', '’'),
    ('"', '”'), (':', '：'), (',', '、'), ('.', '。')]

/-- The full-width counterpart of a structural ASCII character. -/
def fullWidth? (c : Char) : Option Char :=
  fullWidthTable.lookup c

/-- The ways to write one character, ASCII first. -/
def charSpellings (c : Char) : List Char :=
  match fullWidth? c with
  | some w => [c, w]
  | none => [c]

/-- The ways to write a word, each structural character in either width; the last character varies
fastest. -/
def spellings : Text → List Text
  | [] => [[]]
  | c :: cs => (charSpellings c).flatMap fun d => (spellings cs).map (d :: ·)

/-- Characters followed by the full-width counterparts of those that have one. -/
def withFullWidth (cs : Text) : Text :=
  cs ++ cs.filterMap fullWidth?

/-- The opening brackets. -/
def openBrackets : Text :=
  withFullWidth ['\x7b', '(', '[']

/-- The closing brackets. -/
def closeBrackets : Text :=
  withFullWidth ['\x7d', ')', ']']

/-- The opening braces. -/
def openBraces : Text :=
  withFullWidth ['\x7b']

/-- The closing braces. -/
def closeBraces : Text :=
  withFullWidth ['\x7d']

/-- The periods that lead from a receiver to its members. -/
def periods : Text :=
  ['.', '．', '。']

/-- The characters that may stand before an identifier for it to count as a word. -/
def separators : Text :=
  withFullWidth
    ['~', '!', '@', '$', '%', '^', '&', '*', '(', ')', '-', '=', '+', '[', '\x7b', ']', '\x7d', '|',
      ';', ':', '\'', '"', ',', '.', '<', '>', '/', '?', '\\']
    ++ ['．', '\t', '\n', '\r', ' ', '\u3000']

/-- Whether a character is a colon. -/
def isColon (c : Char) : Bool :=
  c == ':' || c == '：'

/-- Whether a character is an opening parenthesis. -/
def isOpenParen (c : Char) : Bool :=
  c == '(' || c == '（'

/-- Whether a character is a closing parenthesis. -/
def isCloseParen (c : Char) : Bool :=
  c == ')' || c == '）'

/-- Whether a character is an opening brace. -/
def isOpenBrace (c : Char) : Bool :=
  openBraces.contains c

/-- Whether a character is a closing brace. -/
def isCloseBrace (c : Char) : Bool :=
  closeBraces.contains c

/-- Whether a character is an equals sign. -/
def isEquals (c : Char) : Bool :=
  c == '=' || c == '＝'

/-- Whether a character is a greater-than sign. -/
def isGreater (c : Char) : Bool :=
  c == '>' || c == '＞'

/-- Whether a character is an opening bracket of any shape. -/
def isOpenBracket (c : Char) : Bool :=
  openBrackets.contains c

/-- Whether a character is a closing bracket of any shape. -/
def isCloseBracket (c : Char) : Bool :=
  closeBrackets.contains c

/-- Whether a character is a separator. -/
def isSeparator (c : Char) : Bool :=
  separators.contains c

end LazeEdit
