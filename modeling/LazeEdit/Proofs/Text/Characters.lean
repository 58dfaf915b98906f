import LazeEdit.Text.Basic
import Mathlib.Tactic.Lemma

/-!
# Characters of a text

`CharAt` speaks of the character at an offset of a text by its class. A text is in one way a run of
a class and a rest that does not go on with the run (`append_stop_inj`). Slices between bounds inside a
text are read off by offset (`getElem?_slice`), so two texts that agree at the offsets of a slice
have the same slice. The pieces of a text between the occurrences of a character hold it nowhere and
give the text back when they are joined with it (`joinWith_splitAtChar`); texts that do not hold the
character are the pieces of what they are joined to (`splitAtChar_joinWith`).
-/

namespace LazeEdit

/-! ### Characters at offsets -/

/-- The character at an offset is there and of a class. -/
def CharAt (t : Text) (p : Char → Bool) (i : Nat) : Prop :=
  ∃ c, t[i]? = some c ∧ p c

instance (t : Text) (p : Char → Bool) (i : Nat) : Decidable (CharAt t p i) :=
  decidable_of_iff (t[i]?.any p) (Option.any_eq_true p t[i]?)

/-- A character stands at an offset inside its text. -/
lemma CharAt.lt_length {t : Text} {p : Char → Bool} {i : Nat} (h : CharAt t p i) :
    i < t.length := by
  obtain ⟨c, hc, _⟩ := h
  exact (List.getElem?_eq_some_iff.mp hc).1

/-- A class that contains another one holds wherever that one does. -/
lemma CharAt.imp {t : Text} {p q : Char → Bool} {i : Nat} (h : CharAt t p i)
    (hpq : ∀ c, p c → q c) : CharAt t q i := by
  obtain ⟨c, hc, hp⟩ := h
  exact ⟨c, hc, hpq c hp⟩

/-- The character at an offset that is of two classes. -/
lemma CharAt.both {t : Text} {p q : Char → Bool} {i : Nat} (hp : CharAt t p i)
    (hq : CharAt t q i) : ∃ c, p c ∧ q c := by
  obtain ⟨c, hc, hpc⟩ := hp
  obtain ⟨d, hd, hqd⟩ := hq
  rw [hc] at hd
  cases hd
  exact ⟨c, hpc, hqd⟩

/-- The characters of a text behind an offset. -/
lemma charAt_drop {t : Text} {p : Char → Bool} {n i : Nat} :
    CharAt (t.drop n) p i ↔ CharAt t p (n + i) := by
  rw [CharAt, CharAt, List.getElem?_drop]

/-- Every character of a beginning of a text is of a class when the beginning is made of it. -/
lemma charAt_of_beginning {w t : Text} {p : Char → Bool} {i : Nat} (hw : w <+: t)
    (hp : ∀ c ∈ w, p c) (hi : i < w.length) : CharAt t p i :=
  ⟨w[i], List.prefix_iff_getElem?.mp hw i hi, hp _ (List.getElem_mem hi)⟩

/-- Behind the longest run of a class stands no character of the class. -/
lemma not_charAt_takeWhile_length (t : Text) (p : Char → Bool) :
    ¬ CharAt t p (t.takeWhile p).length := by
  induction t with
  | nil =>
    rintro ⟨c, hc, _⟩
    cases hc
  | cons c t ih =>
    by_cases hc : p c
    · rw [List.takeWhile_cons_of_pos hc]
      exact ih
    · rw [List.takeWhile_cons_of_neg hc]
      rintro ⟨d, hd, hp⟩
      cases hd
      exact hc hp

/-! ### Runs of a class -/

section Runs

variable {w rest : Text} {p : Char → Bool}

/-- A run ends where a character of another class follows. -/
lemma takeWhile_append_stop (hw : ∀ c ∈ w, p c) (hrest : ∀ c ∈ rest.head?, p c = false) :
    (w ++ rest).takeWhile p = w := by
  have hstop : rest.takeWhile p = [] := by
    cases rest with
    | nil => rfl
    | cons c cs => exact List.takeWhile_cons_of_neg (Bool.not_eq_true _ ▸ hrest c rfl)
  rw [List.takeWhile_append_of_pos hw, hstop, List.append_nil]

lemma dropWhile_append_stop (hw : ∀ c ∈ w, p c) (hrest : ∀ c ∈ rest.head?, p c = false) :
    (w ++ rest).dropWhile p = rest := by
  have hsplit := (w ++ rest).takeWhile_append_dropWhile (p := p)
  rw [takeWhile_append_stop hw hrest] at hsplit
  exact List.append_cancel_left hsplit

/-- A text is in one way a run and a rest that does not go on with the run. -/
lemma append_stop_inj {w' rest' : Text} (h : w ++ rest = w' ++ rest') (hw : ∀ c ∈ w, p c)
    (hrest : ∀ c ∈ rest.head?, p c = false) (hw' : ∀ c ∈ w', p c)
    (hrest' : ∀ c ∈ rest'.head?, p c = false) : w = w' ∧ rest = rest' := by
  have hrun : w = w' := by
    rw [← takeWhile_append_stop hw hrest, h, takeWhile_append_stop hw' hrest']
  subst hrun
  exact ⟨rfl, List.append_cancel_left h⟩

/-- A text is the longest run of a class that begins it and the rest, which begins with no character
of the class. -/
lemma exists_takeWhile_append (p : Char → Bool) (t : Text) :
    ∃ rest, t = t.takeWhile p ++ rest ∧ ∀ c ∈ rest.head?, p c = false := by
  refine ⟨t.dropWhile p, List.takeWhile_append_dropWhile.symm, ?_⟩
  intro c hc
  have hhead := List.head?_dropWhile_not p t
  rwa [hc] at hhead

end Runs

/-! ### Slices -/

/-- A slice between bounds inside a text. -/
lemma slice_eq {α : Type} {xs : List α} {a b : Nat} (h : b ≤ xs.length) :
    slice xs a b = (xs.drop a).take (b - a) := by
  have hclamp : ∀ n : Nat, clampBound xs.length n = min n xs.length := by
    intro n
    rw [clampBound, if_neg (by omega)]
    rfl
  rw [slice, hclamp, hclamp, Nat.min_eq_left h]
  by_cases hab : a ≤ xs.length
  · rw [Nat.min_eq_left hab]
  · rw [show b - min a xs.length = 0 by omega, show b - a = 0 by omega]
    rfl

/-- The length of a slice between bounds inside a text. -/
lemma length_slice {α : Type} {xs : List α} {a b : Nat} (h : b ≤ xs.length) :
    (slice xs a b).length = b - a := by
  rw [slice_eq h, List.length_take, List.length_drop]
  omega

/-- The elements of a slice between bounds inside a text. -/
lemma getElem?_slice {α : Type} {xs : List α} {a b i : Nat} (h : b ≤ xs.length) (hi : i < b - a) :
    (slice xs a b)[i]? = xs[a + i]? := by
  rw [slice_eq h, List.getElem?_take_of_lt hi, List.getElem?_drop]

/-- Texts that agree at the offsets of a slice have the same slice. -/
lemma slice_congr {α : Type} {xs ys : List α} {a b : Nat} (hx : b ≤ xs.length)
    (hy : b ≤ ys.length) (h : ∀ i, a ≤ i → i < b → xs[i]? = ys[i]?) :
    slice xs a b = slice ys a b := by
  apply List.ext_getElem?
  intro i
  by_cases hi : i < b - a
  · rw [getElem?_slice hx hi, getElem?_slice hy hi]
    exact h (a + i) (by omega) (by omega)
  · rw [List.getElem?_eq_none (by rw [length_slice hx]; omega),
      List.getElem?_eq_none (by rw [length_slice hy]; omega)]

/-! ### Pieces -/

/-- A text has at least one piece. -/
lemma splitAtChar_ne_nil (sep : Char) (t : Text) : splitAtChar sep t ≠ [] := by
  cases t with
  | nil => exact List.cons_ne_nil _ _
  | cons c cs =>
    rw [splitAtChar]
    split
    · exact List.cons_ne_nil _ _
    · split <;> exact List.cons_ne_nil _ _

/-- No piece holds the character at which the text is split. -/
lemma not_mem_of_mem_splitAtChar {sep : Char} {t p : Text} (h : p ∈ splitAtChar sep t) :
    sep ∉ p := by
  induction t generalizing p with
  | nil =>
    rw [splitAtChar, List.mem_singleton] at h
    subst h
    exact List.not_mem_nil
  | cons c cs ih =>
    rw [splitAtChar] at h
    split at h
    case h_1 hnil => exact absurd hnil (splitAtChar_ne_nil sep cs)
    case h_2 piece pieces hsplit =>
      rw [hsplit] at ih
      split at h
      case isTrue =>
        obtain rfl | h := List.mem_cons.mp h
        · exact List.not_mem_nil
        · exact ih h
      case isFalse hne =>
        obtain rfl | h := List.mem_cons.mp h
        · intro hmem
          obtain rfl | hmem := List.mem_cons.mp hmem
          · exact hne rfl
          · exact ih List.mem_cons_self hmem
        · exact ih (List.mem_cons_of_mem piece h)

/-- Joining the pieces of a text gives it back. -/
lemma joinWith_splitAtChar (sep : Char) (t : Text) : joinWith [sep] (splitAtChar sep t) = t := by
  induction t with
  | nil => rfl
  | cons c cs ih =>
    rw [splitAtChar]
    split
    case h_1 hnil => exact absurd hnil (splitAtChar_ne_nil sep cs)
    case h_2 piece pieces hsplit =>
      rw [hsplit] at ih
      split
      case isTrue he =>
        subst he
        rw [joinWith, ih]
        rfl
      case isFalse =>
        cases pieces with
        | nil =>
          rw [joinWith] at ih ⊢
          rw [ih]
        | cons q qs =>
          rw [joinWith] at ih ⊢
          rw [← ih]
          rfl

/-- A text without the character is one piece. -/
lemma splitAtChar_of_not_mem {sep : Char} {t : Text} (h : sep ∉ t) : splitAtChar sep t = [t] := by
  induction t with
  | nil => rfl
  | cons c cs ih =>
    rw [List.mem_cons, not_or] at h
    rw [splitAtChar, ih h.2]
    exact if_neg (Ne.symm h.1)

/-- The first piece of a text ends at the first occurrence of the character. -/
lemma splitAtChar_append_cons {sep : Char} {p : Text} (h : sep ∉ p) (t : Text) :
    splitAtChar sep (p ++ sep :: t) = p :: splitAtChar sep t := by
  obtain ⟨piece, pieces, hsplit⟩ := List.exists_cons_of_ne_nil (splitAtChar_ne_nil sep t)
  induction p with
  | nil =>
    rw [List.nil_append, splitAtChar, hsplit]
    exact if_pos rfl
  | cons c cs ih =>
    rw [List.mem_cons, not_or] at h
    rw [List.cons_append, splitAtChar, ih h.2]
    exact if_neg (Ne.symm h.1)

/-- Splitting texts that are joined with a character they do not hold gives them back. -/
lemma splitAtChar_joinWith {sep : Char} {ts : List Text} (hne : ts ≠ []) (h : ∀ t ∈ ts, sep ∉ t) :
    splitAtChar sep (joinWith [sep] ts) = ts := by
  induction ts with
  | nil => exact absurd rfl hne
  | cons t ts ih =>
    have ht : sep ∉ t := h t List.mem_cons_self
    cases ts with
    | nil => exact splitAtChar_of_not_mem ht
    | cons u us =>
      rw [joinWith, List.append_assoc, List.singleton_append, splitAtChar_append_cons ht,
        ih (List.cons_ne_nil u us) fun v hv => h v (List.mem_cons_of_mem t hv)]

end LazeEdit
