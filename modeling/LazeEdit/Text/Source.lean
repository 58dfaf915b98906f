import LazeEdit.Text.Units

/-!
# Source texts

A document's text with the offsets at which its lines begin, and the maps between offsets and the
positions that editors use: a row and a column in UTF-16 units, both counted from zero. A line ends
at a line feed and nowhere else.
-/

namespace LazeEdit

/-- An editor position: a row, and a column in UTF-16 units. -/
structure Position where
  row : Nat
  column : Nat
  deriving DecidableEq, Repr

/-- The offsets just after the line feeds of a text that begins at offset `n`. -/
def lineStartsFrom (n : Nat) : Text → List Nat
  | [] => []
  | c :: cs => if c = '\n' then (n + 1) :: lineStartsFrom (n + 1) cs else lineStartsFrom (n + 1) cs

/-- A document's text together with the table of its line starts. -/
structure Source where
  text : Text
  lineStarts : List Nat
  deriving DecidableEq, Repr

/-- Asking for a line that the document does not have. -/
inductive LineError where
  | noSuchLine
  deriving DecidableEq, Repr

/-- The text of a line error. -/
def LineError.message : LineError → String
  | .noSuchLine => "list index out of range"

namespace Source

/-- The source of a text. -/
def ofText (t : Text) : Source :=
  ⟨t, 0 :: lineStartsFrom 0 t⟩

/-- The number of characters. -/
def length (s : Source) : Nat :=
  s.text.length

/-- The number of lines, one more than the number of line feeds. -/
def lineCount (s : Source) : Nat :=
  s.lineStarts.length

/-- The offset at which a row begins; a negative row counts from the last one. -/
def lineStart (s : Source) (row : Int) : Except LineError Nat :=
  match elementAt? s.lineStarts row with
  | some n => .ok n
  | none => .error .noSuchLine

/-- The offset of the line feed that ends a row, or the end of the text. -/
def lineEnd (s : Source) (row : Int) : Except LineError Int :=
  if row + 1 < s.lineCount then (s.lineStart (row + 1)).map (fun n => (n : Int) - 1)
  else .ok s.length

/-- The text of a row, without its line feed. -/
def line (s : Source) (row : Int) : Except LineError Text := do
  let a ← s.lineStart row
  let b ← s.lineEnd row
  return slice s.text a b

/-- An offset moved to the nearest end of the text when it lies outside. -/
def clamp (s : Source) (offset : Int) : Nat :=
  min offset.toNat s.length

/-- The position of an offset, which is first moved into the text. -/
def position (s : Source) (offset : Int) : Position :=
  let c := s.clamp offset
  let row := (s.lineStarts.takeWhile (· ≤ c)).length - 1
  let start := s.lineStarts.getD row 0
  ⟨row, units ((s.text.drop start).take (c - start))⟩

/-- The offset of a position: a row outside the document is moved to the nearest end of the text,
and a column beyond its line to the end of that line. -/
def offset (s : Source) (row column : Int) : Nat :=
  if row < 0 then 0
  else
    match s.lineStarts.drop row.toNat with
    | [] => s.length
    | start :: later =>
      let stop := match later with
        | [] => s.length
        | next :: _ => next - 1
      start + fitting column ((s.text.drop start).take (stop - start))

/-- The width in UTF-16 units of the text between two signed bounds. -/
def spanUnits (s : Source) (start stop : Int) : Nat :=
  units (slice s.text start stop)

end Source

end LazeEdit
