import LazeEdit.Lexicon.Width

/-!
# Operators

The operators of the language and all their spellings, longer ones first, so that reading an
operator takes the longest one that stands at a place.
-/

namespace LazeEdit

/-- The operators in ASCII. -/
def baseOperators : List Text :=
  [['=', '='], ['!', '='], ['>', '='], ['<', '='], ['+', '='], ['-', '='], ['*', '='], ['/', '='],
    ['&', '&'], ['|', '|'], ['+', '+'], ['-', '-'], ['=', '>'],
    ['='], ['<'], ['>'], ['+'], ['-'], ['*'], ['/'], ['!']]

/-- The operators in every spelling, longer ones first and those of one length by code point. -/
def operators : List Text :=
  sortLongerFirst (baseOperators.flatMap spellings)

/-- The longest operator that begins a text, in any spelling. -/
def leadingOperator? (t : Text) : Option Text :=
  operators.find? (·.isPrefixOf t)

end LazeEdit
