import LazeEdit.Lexicon.Word
import LazeEdit.Scope.Signature

/-!
# Counting loops

A counting loop has three clauses in parentheses, a declaration, a condition and a step, with a word
between one and the next, and a block behind the last. A clause ends on the line on which it begins,
at the first closing parenthesis from which the rest of the loop goes on.
-/

namespace LazeEdit

/-- The three clauses of a counting loop. -/
structure Loop where
  declaration : Ends
  condition : Ends
  step : Ends
  deriving DecidableEq, Repr

/-- What `k` gives behind a clause in parentheses, at the first end of the clause where it gives
anything. -/
def Site.clause? {α : Type} (s : Site) (k : Ends → Site → Option α) : Option α := do
  let inner ← s.char? isOpenParen
  inner.searchLine isCloseParen fun close => k ⟨s.offset, close.offset⟩ (close.advance 1)

/-- The place behind a word and the blanks around it. -/
def Site.link? (s : Site) (w : Text) : Option Site :=
  (s.skipBlanks.word? w).map Site.skipBlanks

/-- The counting loop at a place, as far as its last clause. -/
def findLoop : Finder Loop := fun s =>
  s.clause? fun declaration s1 => do
    let s2 ← s1.link? fromWord
    s2.clause? fun condition s3 => do
      let s4 ← s3.link? untilWord
      s4.clause? fun step s5 => do
        let _ ← s5.skipBlanks.char? isOpenBrace
        return (⟨declaration, condition, step⟩, s5.offset - s.offset)

/-- The word at a place that repeats a block. -/
def findRepeat : Finder Nat := fun s =>
  (s.word? repeatWord).map fun _ => (s.offset, repeatWord.length)

end LazeEdit
