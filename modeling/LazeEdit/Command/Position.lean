import LazeEdit.Text.Digit
import LazeEdit.Text.Quoted
import LazeEdit.Toml.Scalar

/-!
# Position arguments

A cursor position on the command line is a row and a column with a colon between them.
-/

namespace LazeEdit

/-- Why an argument is no position. -/
inductive PositionError where
  | malformed (argument : Text)
  /-- The argument has the right form, but a digit that is no decimal digit. -/
  | notDecimal (digits : Text)
  | tooManyDigits (count : Nat)
  deriving DecidableEq, Repr

/-- The words for a number with too many digits. -/
def tooManyDigitsMessage (count : Nat) : Text :=
  "Exceeds the limit (".toList ++ intText Toml.maxDigits
    ++ " digits) for integer string conversion: value has ".toList ++ intText count
    ++ " digits; use sys.set_int_max_str_digits() to increase the limit".toList

/-- The number of characters to which a quoted numeral is cut. -/
def maxQuotedNumeral : Nat := 200

/-- The words for why an argument is no position. -/
def PositionError.message : PositionError → Text
  | malformed argument => "invalid position (expected LINE:COL): ".toList ++ argument
  | notDecimal digits =>
    "invalid literal for int() with base 10: ".toList ++ (quoted digits).take maxQuotedNumeral
  | tooManyDigits count => tooManyDigitsMessage count

/-- The number of some digits. The limit is on the decimal digits at their beginning. -/
def positionNumber (digits : Text) : Except PositionError Nat :=
  let count := (digits.takeWhile fun c => (decimalValue? c).isSome).length
  if Toml.maxDigits < count then .error (.tooManyDigits count)
  else
    match decimalNumber? 0 digits with
    | none => .error (.notDecimal digits)
    | some n => .ok n

/-- The row and column of an argument. -/
def parsePosition (argument : Text) : Except PositionError (Nat × Nat) :=
  let row := argument.takeWhile (· != ':')
  let isNumber (t : Text) : Bool := !t.isEmpty && t.all isAnyDigit
  match argument.drop row.length with
  | ':' :: column =>
    if isNumber row && isNumber column then do
      let r ← positionNumber row
      let c ← positionNumber column
      return (r, c)
    else .error (.malformed argument)
  | _ => .error (.malformed argument)

end LazeEdit
