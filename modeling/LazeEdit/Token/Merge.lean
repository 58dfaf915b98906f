import LazeEdit.Token.Basic

/-!
# Merging spans

Several passes may mark the same text. Merging puts their spans in order and keeps, from left to
right, each span that begins at or behind the end of the last one kept. Of spans that begin at one
offset the kind of the lowest rank comes first, and then the longest.
-/

namespace LazeEdit

/-- The rank of a kind among spans that begin at one offset; the lowest wins. -/
def TokenType.rank : TokenType → Nat
  | comment | string | char => 0
  | className | keyword | control => 1
  | typeName => 2
  | functionName | builtin => 3
  | variableName => 4
  | number => 5
  | operator => 6
  | _ => 7

/-- The order in which spans are considered: by offset, then by rank, then longer ones first. -/
def TokenSpan.precedes (a b : TokenSpan) : Bool :=
  if a.start ≠ b.start then a.start < b.start
  else if a.type.rank ≠ b.type.rank then a.type.rank < b.type.rank
  else b.length ≤ a.length

/-- The spans of an ordered list that are not empty and begin at or behind `stop` or, once one is
kept, behind the last one kept. -/
def keepDisjoint (stop : Int) : List TokenSpan → List TokenSpan
  | [] => []
  | s :: ss =>
    if s.length ≤ 0 ∨ s.start < stop then keepDisjoint stop ss
    else s :: keepDisjoint s.stop ss

/-- The spans in order, without those that are empty, begin before the text or begin inside one that
is kept. -/
def mergeSpans (ss : List TokenSpan) : List TokenSpan :=
  keepDisjoint 0 (ss.mergeSort TokenSpan.precedes)

end LazeEdit
