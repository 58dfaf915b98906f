import LazeEdit.Text.Basic

/-!
# Regular-expression text

Editors that highlight by regular expressions are given classes of characters and choices of words
as pattern text. A choice lists longer words first, so that no word is cut short by its beginning.
-/

namespace LazeEdit

/-- The characters that a pattern needs to have escaped. -/
def isPatternSpecial (c : Char) : Bool :=
  ['(', ')', '[', ']', '\x7b', '\x7d', '?', '*', '+', '-', '|', '^', '$', '\\', '.', '&', '~', '#',
    ' ', '\t', '\n', '\r', '\x0b', '\x0c'].contains c

/-- The pattern that stands for exactly one text. -/
def escapePattern (t : Text) : Text :=
  t.flatMap fun c => if isPatternSpecial c then ['\\', c] else [c]

/-- The pattern for any one of some characters. -/
def charClassPattern (cs : Text) : Text :=
  ['['] ++ escapePattern cs ++ [']']

/-- The pattern for any one of some words. -/
def choicePattern (ws : List Text) : Text :=
  joinWith ['|'] ((sortLongerFirst ws).map escapePattern)

end LazeEdit
