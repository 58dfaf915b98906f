import LazeEdit.Text.Basic

/-!
# Calendar

The date and time of a number of seconds since the start of 1970, in universal time.
-/

namespace LazeEdit

/-- A date of the Gregorian calendar. -/
structure Date where
  year : Nat
  month : Nat
  day : Nat
  deriving DecidableEq, Repr

/-- The date of a number of days since the first of March of the year zero. Counted from March, the
leap day is the last of its year, and the lengths of the months repeat every five months. -/
def Date.ofMarchDays (days : Nat) : Date :=
  let era := days / 146097
  let dayOfEra := days % 146097
  let yearOfEra := (dayOfEra - dayOfEra / 1460 + dayOfEra / 36524 - dayOfEra / 146096) / 365
  let dayOfYear := dayOfEra - (365 * yearOfEra + yearOfEra / 4 - yearOfEra / 100)
  let marchMonth := (5 * dayOfYear + 2) / 153
  let month := if marchMonth < 10 then marchMonth + 3 else marchMonth - 9
  let year := 400 * era + yearOfEra
  ⟨if month ≤ 2 then year + 1 else year, month, dayOfYear - (153 * marchMonth + 2) / 5 + 1⟩

/-- The date of a number of days since the start of 1970. -/
def Date.ofDays (days : Nat) : Date :=
  Date.ofMarchDays (days + 719468)

/-- A number with at least `width` digits. -/
def paddedNumber (width n : Nat) : Text :=
  let digits := Nat.toDigits 10 n
  List.replicate (width - digits.length) '0' ++ digits

/-- The date and time of a number of seconds since the start of 1970. -/
def timeText (seconds : Nat) : Text :=
  let date := Date.ofDays (seconds / 86400)
  let second := seconds % 86400
  paddedNumber 4 date.year ++ ['-'] ++ paddedNumber 2 date.month ++ ['-'] ++ paddedNumber 2 date.day
    ++ [' '] ++ paddedNumber 2 (second / 3600) ++ [':'] ++ paddedNumber 2 (second / 60 % 60)
    ++ [':'] ++ paddedNumber 2 (second % 60)

end LazeEdit
