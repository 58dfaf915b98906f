import LazeEdit.Lexicon.Name
import LazeEdit.Text.Digit
import LazeEdit.Text.Site
import LazeEdit.Toml.Error

/-!
# TOML scalars

Strings, numbers, dates and times as they are written in a document, with the filler between values.
-/

namespace LazeEdit.Toml

/-- The error that something is wrong at an offset. -/
def fail {α : Type} (reason : Reason) (offset : Nat) : Except Error α :=
  .error (.malformed reason offset)

/-- The blanks between the parts of a line. -/
def isSpace (c : Char) : Bool :=
  c == ' ' || c == '\t'

/-- The blanks between the parts of an array. -/
def isSpaceOrNewline (c : Char) : Bool :=
  isSpace c || c == '\n'

/-- The control characters that no line may hold. A tab is allowed. -/
def isControl (c : Char) : Bool :=
  (c.toNat < 32 && c != '\t') || c.toNat == 127

/-- The control characters that no text of several lines may hold. -/
def isControlInLines (c : Char) : Bool :=
  isControl c && c != '\n'

/-- The place behind spaces and tabs. -/
def skipSpaces (s : Site) : Site :=
  s.skipWhile isSpace

/-! ### Comments -/

/-- The place at the end of the comment at `s`, or `s` itself when there is none. -/
def skipComment (s : Site) : Except Error Site :=
  match s.rest with
  | '#' :: cs =>
    let comment := cs.takeWhile (· != '\n')
    match comment.findIdx? isControl, comment.find? isControl with
    | some n, some c => fail (.invalid c) (s.offset + 1 + n)
    | _, _ => .ok (s.advance (comment.length + 1))
  | _ => .ok s

/-- The place behind the blanks, line feeds and comments that follow an offset, with `comment` when
it is inside a comment. -/
def skipFillerFrom (comment : Bool) (offset : Nat) (before : Option Char) : Text → Except Error Site
  | [] => .ok ⟨offset, before, []⟩
  | c :: cs =>
    if comment then
      if c = '\n' then skipFillerFrom false (offset + 1) (some c) cs
      else if isControl c then fail (.invalid c) offset
      else skipFillerFrom true (offset + 1) (some c) cs
    else if isSpaceOrNewline c then skipFillerFrom false (offset + 1) (some c) cs
    else if c = '#' then skipFillerFrom true (offset + 1) (some c) cs
    else .ok ⟨offset, before, c :: cs⟩

/-- The place behind the blanks, line feeds and comments between the parts of an array. -/
def skipFiller (s : Site) : Except Error Site :=
  skipFillerFrom false s.offset s.before s.rest

/-! ### Strings -/

/-- The text before the first occurrence of a mark. -/
def textBefore? (mark : Text) : Text → Option Text
  | [] => if mark.isEmpty then some [] else none
  | c :: cs =>
    if mark.isPrefixOf (c :: cs) then some [] else (textBefore? mark cs).map (c :: ·)

/-- The text up to a mark, which must follow, without certain characters. -/
def literalUpTo (mark : Text) (excluded : Char → Bool) (s : Site) : Except Error (Text × Site) :=
  match textBefore? mark s.rest with
  | none => fail (.expected mark) (s.offset + s.rest.length)
  | some t =>
    match t.findIdx? excluded, t.find? excluded with
    | some n, some c => fail (.invalid c) (s.offset + n)
    | _, _ => .ok (t, s.advance (t.length + mark.length))

/-- The character whose number follows in `width` hexadecimal digits. -/
def hexCharacter (width : Nat) (s : Site) : Except Error (Text × Site) :=
  let digits := s.rest.take width
  match hexNumber? 0 digits with
  | none => fail .hexValue s.offset
  | some n =>
    if digits.length < width then fail .hexValue s.offset
    else if n < 0xD800 ∨ (0xDFFF < n ∧ n < 0x110000) then .ok ([Char.ofNat n], s.advance width)
    else fail .scalarValue (s.offset + width)

/-- The character that a letter behind a backslash stands for. -/
def simpleEscape? : Char → Option Char
  | 'b' => some '\x08'
  | 't' => some '\t'
  | 'n' => some '\n'
  | 'f' => some '\x0c'
  | 'r' => some '\r'
  | '"' => some '"'
  | '\\' => some '\\'
  | _ => none

/-- The line break behind a backslash, which with all blanks around it stands for nothing. -/
def joinedLines (s : Site) : Except Error (Text × Site) :=
  let spaces := skipSpaces s
  match spaces.rest with
  | [] => .ok ([], spaces)
  | '\n' :: _ => .ok ([], spaces.skipWhile isSpaceOrNewline)
  | _ => fail .escape spaces.offset

/-- What the escape at a backslash stands for. -/
def escape (lines : Bool) (s : Site) : Except Error (Text × Site) :=
  match (s.advance 1).rest with
  | [] => fail .escape (s.offset + 2)
  | c :: _ =>
    if lines && isSpaceOrNewline c then joinedLines (s.advance 1)
    else if c = 'u' then hexCharacter 4 (s.advance 2)
    else if c = 'U' then hexCharacter 8 (s.advance 2)
    else
      match simpleEscape? c with
      | some d => .ok ([d], s.advance 2)
      | none => fail .escape (s.offset + 2)

/-- The text up to a closing quote, or three of them when the text may have several lines. A step
takes at least one character, so that as many steps as there are characters are enough. -/
def basicText (lines : Bool) : Nat → Site → Except Error (Text × Site)
  | 0, s => fail .unterminated s.offset
  | steps + 1, s =>
    match s.rest with
    | [] => fail .unterminated s.offset
    | '"' :: cs =>
      if !lines then .ok ([], s.advance 1)
      else if ['"', '"'].isPrefixOf cs then .ok ([], s.advance 3)
      else do
        let (t, stop) ← basicText lines steps (s.advance 1)
        return ('"' :: t, stop)
    | '\\' :: _ => do
      let (d, next) ← escape lines s
      let (t, stop) ← basicText lines steps next
      return (d ++ t, stop)
    | c :: _ =>
      if isControl c && !(lines && c == '\n') then fail (.illegal c) s.offset
      else do
        let (t, stop) ← basicText lines steps (s.advance 1)
        return (c :: t, stop)

/-- The string in double quotes at a place, on one line. -/
def basicString (s : Site) : Except Error (Text × Site) :=
  basicText false (s.rest.length + 1) (s.advance 1)

/-- The string in single quotes at a place, on one line. -/
def literalString (s : Site) : Except Error (Text × Site) :=
  literalUpTo ['\''] isControl (s.advance 1)

/-- Up to two more quotes that belong to the text before the closing three. -/
def moreQuotes (quote : Char) (t : Text) (s : Site) : Text × Site :=
  let more := ((s.rest.take 2).takeWhile (· == quote)).length
  (t ++ List.replicate more quote, s.advance more)

/-- The string in three quotes at a place. A line feed right behind the opening quotes is no part of
the text. -/
def linesString (quote : Char) (s : Site) : Except Error (Text × Site) := do
  let inner := s.advance 3
  let start := (inner.char? (· == '\n')).getD inner
  let (t, stop) ←
    if quote = '"' then basicText true (start.rest.length + 1) start
    else literalUpTo [quote, quote, quote] isControlInLines start
  return moreQuotes quote t stop

/-! ### Numbers -/

/-- The longest run of digits in which single low lines may stand between digits. -/
def digitRun (digit : Char → Bool) : Text → Text
  | c :: '_' :: d :: cs =>
    if digit c then if digit d then c :: '_' :: digitRun digit (d :: cs) else [c] else []
  | c :: cs => if digit c then c :: digitRun digit cs else []
  | [] => []

/-- The digits of a run, without low lines. -/
def runDigits (run : Text) : Text :=
  run.filter (· != '_')

/-- The digits and the base of an integer that begins with a base mark, and its whole length. -/
def basedInteger? : Text → Option (Nat × Text × Nat)
  | '0' :: mark :: cs =>
    let based (base : Nat) (digit : Char → Bool) : Option (Nat × Text × Nat) :=
      match digitRun digit cs with
      | [] => none
      | run => some (base, runDigits run, run.length + 2)
    match mark with
    | 'x' => based 16 fun c => (hexValue? c).isSome
    | 'b' => based 2 fun c => c == '0' || c == '1'
    | 'o' => based 8 fun c => '0' ≤ c && c ≤ '7'
    | _ => none
  | _ => none

/-- The number that digits write in a base, read behind a number `n`. -/
def basedNumber (base n : Nat) : Text → Nat
  | [] => n
  | c :: cs => basedNumber base (base * n + (hexValue? c).getD 0) cs

/-- A decimal numeral: its sign, the digits before and behind the point, and the exponent. -/
structure DecimalForm where
  negative : Bool
  whole : Text
  fraction : Option Text
  exponent : Option Int
  length : Nat
  deriving DecidableEq, Repr

/-- The sign in front of digits: whether it is a minus, and its length. -/
def leadingSign : Text → Bool × Nat
  | '-' :: _ => (true, 1)
  | '+' :: _ => (false, 1)
  | _ => (false, 0)

/-- The whole part of a decimal numeral: a lone zero, or digits that begin with another one. -/
def wholePart : Text → Text
  | '0' :: _ => ['0']
  | t => digitRun isDigit t

/-- The point and the digits behind it. -/
def fractionPart : Text → Text
  | '.' :: cs => digitRun isDigit cs
  | _ => []

/-- The exponent and its whole length. -/
def exponentPart? : Text → Option (Int × Nat)
  | e :: cs =>
    if e == 'e' || e == 'E' then
      let (negative, signLength) := leadingSign cs
      match digitRun isDigit (cs.drop signLength) with
      | [] => none
      | run =>
        let size : Int := basedNumber 10 0 (runDigits run)
        some (if negative then -size else size, run.length + signLength + 1)
    else none
  | [] => none

/-- The decimal numeral that begins a text. -/
def decimalForm? (t : Text) : Option DecimalForm :=
  let (negative, signLength) := leadingSign t
  match wholePart (t.drop signLength) with
  | [] => none
  | whole =>
    let behind := t.drop (signLength + whole.length)
    let fraction := fractionPart behind
    let fractionLength := if fraction.isEmpty then 0 else fraction.length + 1
    let exponent := exponentPart? (behind.drop fractionLength)
    let exponentLength := (exponent.map Prod.snd).getD 0
    some {
      negative := negative
      whole := runDigits whole
      fraction := if fraction.isEmpty then none else some (runDigits fraction)
      exponent := exponent.map Prod.fst
      length := signLength + whole.length + fractionLength + exponentLength }

/-- The most digits of a decimal integer that are converted. -/
def maxDigits : Nat := 4300

/-- The value of a decimal numeral: an integer unless it has a fraction or an exponent. -/
def DecimalForm.value (f : DecimalForm) : Except Error Value :=
  match f.fraction, f.exponent with
  | none, none =>
    if maxDigits < f.whole.length then .error (.tooManyDigits f.whole.length)
    else
      let size : Int := basedNumber 10 0 f.whole
      .ok (.integer (if f.negative then -size else size))
  | fraction, exponent =>
    let places := fraction.getD []
    .ok (.float (Binary64.ofDecimal f.negative (basedNumber 10 0 (f.whole ++ places))
      (exponent.getD 0 - places.length)))

/-! ### Dates and times -/

/-- Two digits whose value lies between two bounds. -/
def twoDigits? (low high : Nat) : Text → Option (Nat × Text)
  | a :: b :: cs =>
    if isDigit a && isDigit b then
      let n := basedNumber 10 0 [a, b]
      if low ≤ n ∧ n ≤ high then some (n, cs) else none
    else none
  | _ => none

/-- A character that must follow. -/
def mark? (p : Char → Bool) : Text → Option Text
  | c :: cs => if p c then some cs else none
  | [] => none

/-- What is left behind a fraction of a second. -/
def afterFraction (t : Text) : Text :=
  match t with
  | '.' :: cs =>
    match cs.takeWhile isDigit with
    | [] => t
    | digits => cs.drop digits.length
  | _ => t

/-- What is left behind a time of day. -/
def afterTime? (t : Text) : Option Text := do
  let (_, t) ← twoDigits? 0 23 t
  let t ← mark? (· == ':') t
  let (_, t) ← twoDigits? 0 59 t
  let t ← mark? (· == ':') t
  let (_, t) ← twoDigits? 0 59 t
  return afterFraction t

/-- What is left behind a time zone, which need not be there. -/
def afterZone (t : Text) : Text :=
  let offset? : Option Text := do
    let t ← mark? (fun c => c == '+' || c == '-') t
    let (_, t) ← twoDigits? 0 23 t
    let t ← mark? (· == ':') t
    let (_, t) ← twoDigits? 0 59 t
    return t
  ((mark? (fun c => c == 'Z' || c == 'z') t) <|> offset?).getD t

/-- The number of days of a month. -/
def daysInMonth (year month : Nat) : Nat :=
  if month = 2 then
    if year % 4 = 0 ∧ (year % 100 ≠ 0 ∨ year % 400 = 0) then 29 else 28
  else if month = 4 ∨ month = 6 ∨ month = 9 ∨ month = 11 then 30
  else 31

/-- The date at the start of a text, with the time behind it if there is one: whether the calendar
has it, and what is left behind it. -/
def afterDate? (t : Text) : Option (Bool × Text) := do
  let (century, t) ← twoDigits? 0 99 t
  let (years, t) ← twoDigits? 0 99 t
  let t ← mark? (· == '-') t
  let (month, t) ← twoDigits? 1 12 t
  let t ← mark? (· == '-') t
  let (day, t) ← twoDigits? 1 31 t
  let year := 100 * century + years
  let exists? := year ≠ 0 ∧ day ≤ daysInMonth year month
  let time? : Option Text := do
    let t ← mark? (fun c => c == 'T' || c == 't' || c == ' ') t
    let t ← afterTime? t
    return afterZone t
  return (exists?, time?.getD t)

/-- The date or time at a place, if there is one. -/
def moment? (s : Site) : Except Error (Option (Value × Site)) :=
  let upTo (left : Text) : Value × Site :=
    let stop := s.advance (s.rest.length - left.length)
    (.moment (s.textTo stop), stop)
  match afterDate? s.rest with
  | some (true, left) => .ok (some (upTo left))
  | some (false, _) => fail .date s.offset
  | none => .ok ((afterTime? s.rest).map upTo)

/-- The number at a place, if there is one. -/
def number? (s : Site) : Except Error (Option (Value × Site)) :=
  match basedInteger? s.rest with
  | some (base, digits, length) =>
    .ok (some (.integer (basedNumber base 0 digits), s.advance length))
  | none =>
    match decimalForm? s.rest with
    | none => .ok none
    | some f => f.value.map fun v => some (v, s.advance f.length)

/-- The infinite number or not-a-number at a place. -/
def specialFloat? (s : Site) : Option (Value × Site) :=
  let (negative, signLength) := leadingSign s.rest
  let stop := s.advance (signLength + 3)
  let word := (s.rest.drop signLength).take 3
  if word = ['i', 'n', 'f'] then some (.float (.infinite negative), stop)
  else if word = ['n', 'a', 'n'] then some (.float .notANumber, stop)
  else none

/-- The number, date or time at a place. -/
def quantity (s : Site) : Except Error (Value × Site) := do
  match ← moment? s with
  | some found => return found
  | none =>
    match ← number? s with
    | some found => return found
    | none =>
      match specialFloat? s with
      | some found => return found
      | none => fail .value s.offset

end LazeEdit.Toml
