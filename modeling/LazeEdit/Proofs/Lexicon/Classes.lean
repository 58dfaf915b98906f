import LazeEdit.Classification.Recognize
import LazeEdit.Proofs.Text.Characters

/-!
# Classes of characters

The recognisers tell four kinds of characters apart: blanks, brackets, the characters of operators,
and all others, of which names and numbers are made (`charKind`). What a recogniser finds has
characters of one kind only. Large classes are compared by code point (`isNameStart_iff`), small
ones are lists, and a fact about such a class is checked for each of its characters.
-/

namespace LazeEdit

/-! ### Classes that the analysis takes as one -/

/-- Whether a character is a bracket. -/
def isBracket (c : Char) : Bool :=
  isOpenBracket c || isCloseBracket c

/-- The characters of operators. -/
def operatorChars : Text :=
  withFullWidth ['=', '!', '>', '<', '+', '-', '*', '/', '&', '|']

/-- Whether a character is part of an operator. -/
def isOperatorChar (c : Char) : Bool :=
  operatorChars.contains c

/-- Whether a character is part of a number with a base mark. -/
def isMarkedDigit (c : Char) : Bool :=
  isHexDigit c || c == 'x' || c == 'X'

/-- Whether a character is part of a number without a base mark. -/
def isPlainDigit (c : Char) : Bool :=
  isDigit c || c == '.'

/-- The kinds of characters that the recognisers tell apart. -/
inductive CharKind where
  | blank
  | bracket
  | operator
  | solid
  deriving DecidableEq, Repr

/-- The kind of a character. -/
def charKind (c : Char) : CharKind :=
  if isBlank c then .blank
  else if isBracket c then .bracket
  else if isOperatorChar c then .operator
  else .solid

/-! ### Code points -/

/-- The order of characters is that of their code points. -/
lemma char_le_iff {a b : Char} : a ≤ b ↔ a.toNat ≤ b.toNat := by
  rw [Char.le_def, UInt32.le_iff_toNat_le]
  rfl

/-- The digits by code point. -/
lemma isDigit_iff {c : Char} : isDigit c ↔ 48 ≤ c.toNat ∧ c.toNat ≤ 57 := by
  rw [isDigit, Bool.and_eq_true, decide_eq_true_iff, decide_eq_true_iff, char_le_iff, char_le_iff]
  rfl

/-- The characters that begin a name by code point. -/
lemma isNameStart_iff {c : Char} :
    isNameStart c ↔ (0x3400 ≤ c.toNat ∧ c.toNat ≤ 0x9FAF) ∨ (0x3041 ≤ c.toNat ∧ c.toNat ≤ 0x3093) ∨
      (0x30A1 ≤ c.toNat ∧ c.toNat ≤ 0x30F6) ∨ (97 ≤ c.toNat ∧ c.toNat ≤ 122) ∨
      (65 ≤ c.toNat ∧ c.toNat ≤ 90) ∨ c.toNat = 0x30FC ∨ c.toNat = 35 ∨ c.toNat = 0xFF03 ∨
      c.toNat = 95 ∨ c.toNat = 0xFF3F := by
  simp only [isNameStart, Bool.or_eq_true, Bool.and_eq_true, decide_eq_true_iff, char_le_iff,
    beq_iff_eq, ← Char.toNat_inj, Char.reduceToNat, or_assoc]

/-- The characters of names. -/
lemma isNameChar_iff {c : Char} : isNameChar c ↔ isNameStart c ∨ isDigit c := by
  rw [isNameChar, Bool.or_eq_true]

/-- The characters of marked numbers by code point. -/
lemma isMarkedDigit_iff {c : Char} :
    isMarkedDigit c ↔ (48 ≤ c.toNat ∧ c.toNat ≤ 57) ∨ (97 ≤ c.toNat ∧ c.toNat ≤ 102) ∨
      (65 ≤ c.toNat ∧ c.toNat ≤ 70) ∨ c.toNat = 120 ∨ c.toNat = 88 := by
  simp only [isMarkedDigit, isHexDigit, Bool.or_eq_true, Bool.and_eq_true, decide_eq_true_iff,
    char_le_iff, beq_iff_eq, ← Char.toNat_inj, Char.reduceToNat, or_assoc, isDigit_iff]

/-- The characters of numbers without a base mark by code point. -/
lemma isPlainDigit_iff {c : Char} :
    isPlainDigit c ↔ (48 ≤ c.toNat ∧ c.toNat ≤ 57) ∨ c.toNat = 46 := by
  simp only [isPlainDigit, Bool.or_eq_true, beq_iff_eq, ← Char.toNat_inj, Char.reduceToNat,
    isDigit_iff]

/-- The blanks by code point. -/
lemma isBlank_iff {c : Char} :
    isBlank c ↔ (9 ≤ c.toNat ∧ c.toNat ≤ 13) ∨ (28 ≤ c.toNat ∧ c.toNat ≤ 32) ∨ c.toNat = 0x85 ∨
      c.toNat = 0xA0 ∨ c.toNat = 0x1680 ∨ (0x2000 ≤ c.toNat ∧ c.toNat ≤ 0x200A) ∨
      c.toNat = 0x2028 ∨ c.toNat = 0x2029 ∨ c.toNat = 0x202F ∨ c.toNat = 0x205F ∨
      c.toNat = 0x3000 := by
  simp only [isBlank, Bool.or_eq_true, Bool.and_eq_true, decide_eq_true_iff, beq_iff_eq, or_assoc]

/-! ### Kinds -/

/-- The brackets as a list. -/
lemma isBracket_iff {c : Char} : isBracket c ↔ c ∈ openBrackets ++ closeBrackets := by
  rw [isBracket, isOpenBracket, isCloseBracket, Bool.or_eq_true, List.contains_iff_mem,
    List.contains_iff_mem, List.mem_append]

/-- The characters of operators as a list. -/
lemma isOperatorChar_iff {c : Char} : isOperatorChar c ↔ c ∈ operatorChars :=
  List.contains_iff_mem

/-- The kind of a blank. -/
lemma charKind_of_isBlank {c : Char} (h : isBlank c) : charKind c = .blank := by
  rw [charKind, if_pos h]

/-- The kind of a bracket. -/
lemma charKind_of_isBracket {c : Char} (h : isBracket c) : charKind c = .bracket := by
  have hall : (openBrackets ++ closeBrackets).all (charKind · = .bracket) := by decide
  exact of_decide_eq_true (List.all_eq_true.mp hall c (isBracket_iff.mp h))

/-- The kind of a character of an operator. -/
lemma charKind_of_isOperatorChar {c : Char} (h : isOperatorChar c) : charKind c = .operator := by
  have hall : operatorChars.all (charKind · = .operator) := by decide
  exact of_decide_eq_true (List.all_eq_true.mp hall c (isOperatorChar_iff.mp h))

/-- A character that is neither blank nor a bracket nor part of an operator is solid. -/
lemma charKind_eq_solid {c : Char} (hblank : ¬ isBlank c) (hbracket : ¬ isBracket c)
    (hoperator : ¬ isOperatorChar c) : charKind c = .solid := by
  rw [charKind, if_neg hblank, if_neg hbracket, if_neg hoperator]

/-- The kind of a character of a name. -/
lemma charKind_of_isNameChar {c : Char} (h : isNameChar c) : charKind c = .solid := by
  have hall : (openBrackets ++ closeBrackets ++ operatorChars).all (! isNameChar ·) := by decide
  have hmarks : ∀ d ∈ openBrackets ++ closeBrackets ++ operatorChars, ¬ isNameChar d := by
    intro d hd
    have hname := List.all_eq_true.mp hall d hd
    rwa [Bool.not_eq_true', ← Bool.not_eq_true] at hname
  apply charKind_eq_solid
  · rw [isNameChar_iff, isNameStart_iff, isDigit_iff] at h
    rw [isBlank_iff]
    omega
  · rw [isBracket_iff]
    intro hmem
    exact hmarks c (List.mem_append_left _ hmem) h
  · rw [isOperatorChar_iff]
    intro hmem
    exact hmarks c (List.mem_append_right _ hmem) h

/-- The kind of a character of a number without a base mark. -/
lemma charKind_of_isPlainDigit {c : Char} (h : isPlainDigit c) : charKind c = .solid := by
  rw [isPlainDigit, Bool.or_eq_true, beq_iff_eq] at h
  obtain h | rfl := h
  · exact charKind_of_isNameChar (isNameChar_iff.mpr (.inr h))
  · decide

/-! ### Names and their surroundings -/

/-- A blank is no part of a name. -/
lemma not_isNameChar_of_isBlank {c : Char} (h : isBlank c) : ¬ isNameChar c := by
  intro hname
  have e := (charKind_of_isBlank h).symm.trans (charKind_of_isNameChar hname)
  cases e

/-- A colon is no part of a name. -/
lemma not_isNameChar_of_isColon {c : Char} (h : isColon c) : ¬ isNameChar c := by
  rw [isColon, Bool.or_eq_true, beq_iff_eq, beq_iff_eq] at h
  obtain rfl | rfl := h <;> decide

/-- A separator is no part of a name. -/
lemma not_isNameChar_of_isSeparator {c : Char} (h : isSeparator c) : ¬ isNameChar c := by
  rw [isSeparator, List.contains_iff_mem] at h
  have hall : separators.all (! isNameChar ·) := by decide
  have hname := List.all_eq_true.mp hall c h
  rwa [Bool.not_eq_true', ← Bool.not_eq_true] at hname

/-- A name begins with no character of a number without a base mark. -/
lemma not_isPlainDigit_of_isNameStart {c : Char} (h : isNameStart c) : ¬ isPlainDigit c := by
  rw [isNameStart_iff] at h
  rw [isPlainDigit_iff]
  omega

/-- The characters of a marked number may stand in a name. -/
lemma isNameChar_of_isMarkedDigit {c : Char} (h : isMarkedDigit c) : isNameChar c := by
  rw [isMarkedDigit_iff] at h
  rw [isNameChar_iff, isNameStart_iff, isDigit_iff]
  omega

/-- What begins a name may stand in a name. -/
lemma isNameChar_of_isNameStart {c : Char} (h : isNameStart c) : isNameChar c :=
  isNameChar_iff.mpr (.inl h)

/-! ### Words -/

/-- A name is the longest name that begins it. -/
lemma isName_iff {w : Text} : isName w ↔ leadingName? w = some w := by
  rw [isName, beq_iff_eq]

/-- The types of the language are names. -/
lemma isName_of_mem_builtinTypeForms {w : Text} (h : w ∈ builtinTypeForms) : isName w := by
  revert w
  decide

/-- No control word or keyword begins with a character of a marked number. -/
lemma head_of_mem_forms {c : Char} {w : Text} (h : c :: w ∈ controlForms ++ keywordForms) :
    ¬ isMarkedDigit c := by
  have hall : ∀ v ∈ controlForms ++ keywordForms, ¬ v.head?.any isMarkedDigit := by decide
  exact hall (c :: w) h

/-- An operator is not empty and made of the characters of operators. -/
lemma of_mem_operators {w : Text} (h : w ∈ operators) : w ≠ [] ∧ ∀ c ∈ w, isOperatorChar c := by
  rw [operators, sortLongerFirst, List.mem_mergeSort, List.mem_eraseDups] at h
  have hall : (baseOperators.flatMap spellings).all fun v =>
      ! v.isEmpty && v.all isOperatorChar := by decide
  have hw := List.all_eq_true.mp hall w h
  rw [Bool.and_eq_true, Bool.not_eq_true', List.isEmpty_eq_false_iff, List.all_eq_true] at hw
  exact hw

end LazeEdit
