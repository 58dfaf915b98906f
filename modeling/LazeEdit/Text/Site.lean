import LazeEdit.Text.Basic

/-!
# Sites

A site is a place inside a text: how far it is from the start, which character stands just before it
and what follows. The recognisers of the library walk over sites, and `occurrences` collects what
one of them finds from left to right, each search going on behind the last find.
-/

namespace LazeEdit

/-- A place in a text: its offset, the character before it (if any) and the text from it on. -/
structure Site where
  offset : Nat
  before : Option Char
  rest : Text
  deriving DecidableEq, Repr

namespace Site

/-- The place `n` characters further on. -/
def advance (s : Site) (n : Nat) : Site :=
  match n with
  | 0 => s
  | k + 1 => ⟨s.offset + (k + 1), s.rest[k]?, s.rest.drop (k + 1)⟩

/-- The place at an offset of a text, or at its end when the text is shorter. -/
def ofOffset (t : Text) (offset : Nat) : Site :=
  advance ⟨0, none, t⟩ (min offset t.length)

/-- The place behind the longest run of characters of a class. -/
def skipWhile (s : Site) (p : Char → Bool) : Site :=
  s.advance (s.rest.takeWhile p).length

/-- The place behind the blanks that follow. -/
def skipBlanks (s : Site) : Site :=
  s.skipWhile isBlank

/-- The place behind the next character, when it is of a class. -/
def char? (s : Site) (p : Char → Bool) : Option Site :=
  match s.rest with
  | [] => none
  | c :: _ => if p c then some (s.advance 1) else none

/-- The place behind a word, when the text goes on with it. -/
def word? (s : Site) (w : Text) : Option Site :=
  if w.isPrefixOf s.rest then some (s.advance w.length) else none

/-- The text between two places. -/
def textTo (s stop : Site) : Text :=
  s.rest.take (stop.offset - s.offset)

/-- What `k` gives at the first character of a class, on the rest of this line, where it gives
anything. -/
def firstOnLine {α : Type} (p : Char → Bool) (k : Site → Option α) (offset : Nat)
    (before : Option Char) : Text → Option α
  | [] => none
  | c :: cs =>
    match if p c then k ⟨offset, before, c :: cs⟩ else none with
    | some a => some a
    | none => if c = '\n' then none else firstOnLine p k (offset + 1) (some c) cs

/-- What `k` gives at the first character of class `p`, on the rest of this line, where it gives
anything. -/
def searchLine {α : Type} (s : Site) (p : Char → Bool) (k : Site → Option α) : Option α :=
  firstOnLine p k s.offset s.before s.rest

end Site

/-- A piece of a text with the offset at which it stands. -/
structure Piece where
  offset : Nat
  text : Text
  deriving DecidableEq, Repr

/-- The offset just behind a piece. -/
def Piece.stop (p : Piece) : Nat :=
  p.offset + p.text.length

/-- The piece of text between two places. -/
def Site.pieceTo (s stop : Site) : Piece :=
  ⟨s.offset, s.textTo stop⟩

/-- A recogniser: what it finds at a place, and over how many characters. -/
abbrev Finder (α : Type) := Site → Option (α × Nat)

/-- The finds of a recogniser in a text that begins at a given place, after `skip` characters that
the last find covers. -/
def occurrencesFrom {α : Type} (find : Finder α) (skip offset : Nat) (before : Option Char) :
    Text → List α
  | [] => []
  | c :: cs =>
    match skip with
    | k + 1 => occurrencesFrom find k (offset + 1) (some c) cs
    | 0 =>
      match find ⟨offset, before, c :: cs⟩ with
      | none => occurrencesFrom find 0 (offset + 1) (some c) cs
      | some (a, n) => a :: occurrencesFrom find (n - 1) (offset + 1) (some c) cs

/-- The finds of a recogniser in a text, from left to right and without overlap. -/
def occurrences {α : Type} (find : Finder α) (t : Text) : List α :=
  occurrencesFrom find 0 0 none t

end LazeEdit
