import LazeEdit.Lexicon.Width
import LazeEdit.Text.Site

/-!
# Function signatures

Behind the name of a declared function stands its parameter list and perhaps an arrow with a list of
results and an expression as body. Each list ends on the line on which it begins: the results at
their first closing parenthesis, and the parameters at the first one from which the arrow and the
results go on, or else at the first one of all.
-/

namespace LazeEdit

/-- The two ends of a stretch of text. -/
structure Ends where
  opening : Nat
  closing : Nat
  deriving DecidableEq, Repr

/-- The results of a function, and its body when that is an expression. -/
structure Results where
  list : Ends
  body : Option Ends
  deriving DecidableEq, Repr

/-- The signature of a function. -/
structure Signature where
  parameters : Ends
  results : Option Results
  deriving DecidableEq, Repr

/-- The body that an equals sign begins, which ends at a semicolon or with its line. -/
def Site.expressionBody? (s : Site) : Option Ends := do
  let opening := s.skipBlanks
  let inner ← opening.char? isEquals
  return ⟨opening.offset, (inner.skipWhile fun c => c != ';' && c != '\n').offset⟩

/-- The arrow, the results and the body behind a parameter list. -/
def Site.results? (s : Site) : Option Results := do
  let equals ← s.skipBlanks.char? isEquals
  let arrow ← equals.skipBlanks.char? isGreater
  let opening := arrow.skipBlanks
  let inner ← opening.char? isOpenParen
  inner.searchLine isCloseParen fun close =>
    some ⟨⟨opening.offset, close.offset⟩, (close.advance 1).expressionBody?⟩

/-- The signature behind the name of a function. -/
def Site.signature? (s : Site) : Option Signature := do
  let opening := s.skipBlanks
  let inner ← opening.char? isOpenParen
  (inner.searchLine isCloseParen fun close =>
      (close.advance 1).results?.map fun r => ⟨⟨opening.offset, close.offset⟩, some r⟩)
    <|> inner.searchLine isCloseParen fun close => some ⟨⟨opening.offset, close.offset⟩, none⟩

end LazeEdit
