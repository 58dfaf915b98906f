import LazeEdit.Text.Source
import LazeEdit.Token.Basic

/-!
# The wire form of spans

Editors take spans as groups of five numbers: the rows since the last span, the column (since the
last span when both are on one row), the width, the kind and the modifiers, with columns and widths
in UTF-16 units. `decode` reads such groups back through the line table.
-/

namespace LazeEdit.Wire

/-- The groups of a list of spans, where the last span before them stood at `last`. -/
def encodeFrom (src : Source) (last : Position) : List TokenSpan → List Int
  | [] => []
  | s :: ss =>
    let p := src.position s.start
    [(p.row : Int) - last.row,
      if p.row = last.row then (p.column : Int) - last.column else p.column,
      src.spanUnits s.start s.stop, s.type.index, s.modifiers.bits]
      ++ encodeFrom src p ss

/-- The spans of a document as groups of five numbers. -/
def encode (src : Source) (ss : List TokenSpan) : List Int :=
  encodeFrom src ⟨0, 0⟩ ss

/-- The spans of a list of groups, where the last span before them stood at a row and column. The
result is undefined for a list that is not made of whole groups or names no kind. -/
def decodeFrom (src : Source) (row column : Int) : List Int → Option (List TokenSpan)
  | [] => some []
  | rows :: columns :: width :: kind :: mods :: rest => do
    let row' := row + rows
    let column' := if rows = 0 then column + columns else columns
    let type ← TokenType.ofIndex? kind
    let later ← decodeFrom src row' column' rest
    let start := src.offset row' column'
    let stop := src.offset row' (column' + width)
    return ⟨start, (stop : Int) - start, type, ⟨mods.toNat⟩⟩ :: later
  | _ => none

/-- The spans that a list of groups stands for in a document. -/
def decode (src : Source) (data : List Int) : Option (List TokenSpan) :=
  decodeFrom src 0 0 data

end LazeEdit.Wire
