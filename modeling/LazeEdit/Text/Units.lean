import LazeEdit.Text.Basic

/-!
# UTF-16 units

Editors count columns in UTF-16 code units: a character of the basic plane is one unit wide and any
other character two.
-/

namespace LazeEdit

/-- The number of UTF-16 units of a character. -/
def charUnits (c : Char) : Nat :=
  if 0xFFFF < c.toNat then 2 else 1

/-- The number of UTF-16 units of a text. -/
def units : Text → Nat
  | [] => 0
  | c :: cs => charUnits c + units cs

@[simp] theorem units_nil : units [] = 0 := rfl

@[simp] theorem units_cons (c : Char) (t : Text) : units (c :: t) = charUnits c + units t := rfl

@[simp] theorem units_append (s t : Text) : units (s ++ t) = units s + units t := by
  induction s with
  | nil => simp
  | cons c s ih => simp [ih, Nat.add_assoc]

/-- A character is at least one unit wide. -/
theorem charUnits_pos (c : Char) : 0 < charUnits c := by
  unfold charUnits
  split <;> decide

/-- The length in characters of the longest beginning of a text that fits in a width. -/
def fitting (width : Int) : Text → Nat
  | [] => 0
  | c :: cs => if (charUnits c : Int) ≤ width then fitting (width - charUnits c) cs + 1 else 0

end LazeEdit
