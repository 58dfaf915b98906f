import LazeEdit.Text.Digit
import LazeEdit.Text.Utf8

/-!
# Percent escapes

In the address of a document a percent sign and two hexadecimal digits stand for one byte of UTF-8.
A percent sign without them stands for itself.
-/

namespace LazeEdit

/-- The byte of the escape that begins a text. -/
def leadingEscape? : Text → Option UInt8
  | '%' :: a :: b :: _ => (hexNumber? 0 [a, b]).map Nat.toUInt8
  | _ => none

/-- The bytes of a text with escapes, whose first `skip` characters belong to an escape before
it. -/
def escapedBytesFrom (skip : Nat) : Text → List UInt8
  | [] => []
  | c :: cs =>
    match skip with
    | k + 1 => escapedBytesFrom k cs
    | 0 =>
      match leadingEscape? (c :: cs) with
      | some b => b :: escapedBytesFrom 2 cs
      | none => String.utf8EncodeChar c ++ escapedBytesFrom 0 cs

/-- The text that a text with escapes stands for; bytes that are no text are replaced. -/
def unescapePercent (t : Text) : Text :=
  Utf8.decodeLossy (escapedBytesFrom 0 t)

end LazeEdit
