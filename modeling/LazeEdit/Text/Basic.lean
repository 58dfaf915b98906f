/-!
# Texts

A text is a list of characters (Unicode scalar values). Offsets count characters. This module holds
the class of blank characters, slices and element access by signed bounds, and the splitting of a
text at a character.
-/

namespace LazeEdit

/-- A text, as the list of its characters. -/
abbrev Text := List Char

/-- The blank characters: white space and separators of every width, but no zero-width one. -/
def isBlank (c : Char) : Bool :=
  let n := c.toNat
  (9 ≤ n && n ≤ 13) || (28 ≤ n && n ≤ 32) || n == 0x85 || n == 0xA0 || n == 0x1680
    || (0x2000 ≤ n && n ≤ 0x200A) || n == 0x2028 || n == 0x2029 || n == 0x202F || n == 0x205F
    || n == 0x3000

/-- A signed bound into a sequence of `n` elements: a negative bound counts from the end, and a
bound outside the sequence is moved to its nearest end. -/
def clampBound (n : Nat) (i : Int) : Nat :=
  if i < 0 then (i + n).toNat else min i.toNat n

/-- The elements between two signed bounds; none when the second is not beyond the first. -/
def slice {α : Type} (xs : List α) (start stop : Int) : List α :=
  let a := clampBound xs.length start
  let b := clampBound xs.length stop
  (xs.drop a).take (b - a)

/-- The element at a signed index, where -1 is the last one. -/
def elementAt? {α : Type} (xs : List α) (i : Int) : Option α :=
  if 0 ≤ i then xs[i.toNat]?
  else if 0 ≤ i + xs.length then xs[(i + xs.length).toNat]?
  else none

/-- The pieces of a text between the occurrences of a character, one more than there are
occurrences. -/
def splitAtChar (sep : Char) : Text → List Text
  | [] => [[]]
  | c :: cs =>
    match splitAtChar sep cs with
    | [] => [[c]]
    | piece :: pieces => if c = sep then [] :: piece :: pieces else (c :: piece) :: pieces

/-- Texts joined with a separator between them. -/
def joinWith (sep : Text) : List Text → Text
  | [] => []
  | [t] => t
  | t :: u :: ts => t ++ sep ++ joinWith sep (u :: ts)

/-- A whole number in decimal. -/
def intText (n : Int) : Text :=
  (toString n).toList

/-- The order of texts by code point, first difference first; a proper beginning comes first. -/
def textLE : Text → Text → Bool
  | [], _ => true
  | _ :: _, [] => false
  | a :: as, b :: bs => if a = b then textLE as bs else a.toNat < b.toNat

/-- The order that puts longer texts first and orders texts of one length by code point. -/
def longerFirst (a b : Text) : Bool :=
  b.length < a.length || (a.length == b.length && textLE a b)

/-- The distinct texts of a list, longer ones first. -/
def sortLongerFirst (ws : List Text) : List Text :=
  ws.eraseDups.mergeSort longerFirst

end LazeEdit
