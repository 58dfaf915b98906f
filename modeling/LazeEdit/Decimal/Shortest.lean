import LazeEdit.Decimal.Binary64
import LazeEdit.Text.Basic

/-!
# Shortest decimals

A double-precision number is written with the fewest digits that are read back as it, and of those
with the digits nearest to it.
-/

namespace LazeEdit

/-- A decimal numeral: `digits * 10 ^ exponent`. -/
structure Numeral where
  digits : Nat
  exponent : Int
  deriving DecidableEq, Repr

/-- The order of `digits * 10 ^ ten` and `count * 2 ^ two`. -/
def comparePowers (digits : Nat) (ten : Int) (count : Nat) (two : Int) : Ordering :=
  compare (digits * Nat.pow 10 ten.toNat * Nat.pow 2 (-two).toNat)
    (count * Nat.pow 10 (-ten).toNat * Nat.pow 2 two.toNat)

/-- The largest whole number `d` with `d * 10 ^ ten` at most `count * 2 ^ two`. -/
def floorPowers (count : Nat) (two : Int) (ten : Int) : Nat :=
  (count * Nat.pow 10 (-ten).toNat * Nat.pow 2 two.toNat)
    / (Nat.pow 10 ten.toNat * Nat.pow 2 (-two).toNat)

/-- The numbers that are read as a given one, in quarters of its last place: the number itself, the
two ends of the interval, and whether the ends belong to it. -/
structure Neighbourhood where
  centre : Nat
  low : Nat
  high : Nat
  exponent : Int
  closed : Bool
  deriving DecidableEq, Repr

/-- The neighbourhood of `mantissa * 2 ^ exponent`. Below a power of two the next number is only
half as far. -/
def Neighbourhood.ofNumber (mantissa : Nat) (exponent : Int) : Neighbourhood :=
  let centre := 4 * mantissa
  let low := if mantissa = hiddenBit ∧ -1074 < exponent then centre - 1 else centre - 2
  ⟨centre, low, centre + 2, exponent - 2, mantissa % 2 = 0⟩

/-- Whether a numeral is read as the centre of a neighbourhood. -/
def Neighbourhood.has (n : Neighbourhood) (x : Numeral) : Bool :=
  let low := comparePowers x.digits x.exponent n.low n.exponent
  let high := comparePowers x.digits x.exponent n.high n.exponent
  if n.closed then low != .lt && high != .gt else low == .gt && high == .lt

/-- The numeral on the grid of multiples of `10 ^ ten` that is read as the centre; of two the nearer
one, and of two equally near the even one. -/
def Neighbourhood.onGrid? (n : Neighbourhood) (ten : Int) : Option Numeral :=
  let below : Numeral := ⟨floorPowers n.centre n.exponent ten, ten⟩
  let above : Numeral := ⟨below.digits + 1, ten⟩
  match n.has below && below.digits != 0, n.has above with
  | true, false => some below
  | false, true => some above
  | false, false => none
  | true, true =>
    match comparePowers (2 * below.digits + 1) ten (2 * n.centre) n.exponent with
    | .gt => some below
    | .lt => some above
    | .eq => if below.digits % 2 = 0 then some below else some above

/-- The numeral on the coarsest of the grids `10 ^ ten`, `10 ^ (ten - 1)` and so on, `steps` in all,
that has one. -/
def Neighbourhood.coarsest (n : Neighbourhood) (ten : Int) : Nat → Numeral
  | 0 => ⟨0, 0⟩
  | steps + 1 =>
    match n.onGrid? ten with
    | some x => x
    | none => n.coarsest (ten - 1) steps

/-- The shortest numeral that is read as a positive number. -/
def shortestNumeral (mantissa : Nat) (exponent : Int) : Numeral :=
  (Neighbourhood.ofNumber mantissa exponent).coarsest 309 660

/-- A positive numeral: with a point where that needs at most sixteen places before it or four
behind it, and otherwise with an exponent of at least two digits. -/
def Numeral.text (x : Numeral) : Text :=
  let digits := Nat.toDigits 10 x.digits
  let point : Int := digits.length + x.exponent
  if -4 < point ∧ point ≤ 16 then
    if point ≤ 0 then ['0', '.'] ++ List.replicate (-point).toNat '0' ++ digits
    else if digits.length ≤ point then
      digits ++ List.replicate (point.toNat - digits.length) '0' ++ ['.', '0']
    else digits.take point.toNat ++ ['.'] ++ digits.drop point.toNat
  else
    let size := Nat.toDigits 10 (point - 1).natAbs
    digits.take 1 ++ (if digits.length = 1 then [] else '.' :: digits.drop 1)
      ++ ['e', if point - 1 < 0 then '-' else '+']
      ++ List.replicate (2 - size.length) '0' ++ size

/-- A double-precision number as text. -/
def Binary64.text : Binary64 → Text
  | finite negative mantissa exponent =>
    (if negative then ['-'] else [])
      ++ if mantissa = 0 then ['0', '.', '0'] else (shortestNumeral mantissa exponent).text
  | infinite negative => if negative then ['-', 'i', 'n', 'f'] else ['i', 'n', 'f']
  | notANumber => ['n', 'a', 'n']

end LazeEdit
