import LazeEdit.Lexicon.Name
import LazeEdit.Lexicon.Width

/-!
# Receivers

When the text before a cursor ends in a name and a period, with blanks around the period, the name
is the receiver whose members are asked for.
-/

namespace LazeEdit

/-- The receiver at the end of a text that is given backwards. -/
def receiverReversed? (back : Text) : Option Text :=
  match back.dropWhile isBlank with
  | [] => none
  | c :: before =>
    if periods.contains c then
      match (before.dropWhile isBlank).takeWhile isNameChar with
      | [] => none
      | name => some name.reverse
    else none

/-- Reading before a cursor that lies beyond the end of the text. -/
inductive ReceiverError where
  | cursorBeyondText
  deriving DecidableEq, Repr

/-- The text of the error about a cursor beyond the text. -/
def ReceiverError.message : ReceiverError → String
  | .cursorBeyondText => "string index out of range"

/-- The receiver before a cursor; none when the cursor does not follow a name and a period. -/
def receiver? (t : Text) (cursor : Int) : Except ReceiverError (Option Text) :=
  if t.length < cursor then .error .cursorBeyondText
  else .ok (receiverReversed? (t.take cursor.toNat).reverse)

end LazeEdit
