import LazeEdit.Lexicon.Operator
import Mathlib.Data.List.Forall2
import Mathlib.Data.List.Infix
import Mathlib.Tactic.Lemma

/-!
# Reading operators

The operators are sorted longer ones first, so the first one that begins a text is a longest one
(`length_le_of_leadingOperator?`). A text is an operator exactly when it is one in ASCII
(`mem_operators_iff`): the spellings of a word are the texts whose characters are each one of the
ways to write the character of the word. So the length of the operator that begins a text does not
depend on the widths of its characters (`length_leadingOperator?`).
-/

namespace LazeEdit

/-! ### Longer texts first -/

/-- The order of texts by code point is transitive. -/
lemma textLE_trans {a b c : Text} (hab : textLE a b) (hbc : textLE b c) : textLE a c := by
  induction a generalizing b c with
  | nil => exact textLE.eq_1 c
  | cons x as ih =>
    cases b with
    | nil => cases hab
    | cons y bs =>
      cases c with
      | nil => cases hbc
      | cons z cs =>
        rw [textLE] at hab hbc ⊢
        split at hab
        case isTrue hxy =>
          subst hxy
          split at hbc
          case isTrue hxz => rw [if_pos hxz, ih hab hbc]
          case isFalse hxz => rwa [if_neg hxz]
        case isFalse hxy =>
          have hlt := of_decide_eq_true hab
          split at hbc
          case isTrue hyz =>
            subst hyz
            rwa [if_neg hxy]
          case isFalse hyz =>
            have hlt' := of_decide_eq_true hbc
            rw [if_neg fun e => by subst e; omega, decide_eq_true_iff]
            omega

/-- Of two texts one comes first by code point. -/
lemma textLE_total (a b : Text) : textLE a b || textLE b a := by
  induction a generalizing b with
  | nil => rw [textLE.eq_1]; rfl
  | cons x as ih =>
    cases b with
    | nil => rfl
    | cons y bs =>
      rw [textLE, textLE]
      by_cases hxy : x = y
      · rw [if_pos hxy, if_pos hxy.symm]
        exact ih bs
      · rw [if_neg hxy, if_neg (Ne.symm hxy), Bool.or_eq_true, decide_eq_true_iff,
          decide_eq_true_iff]
        have hne : x.toNat ≠ y.toNat := fun e => hxy (Char.toNat_inj.mp e)
        omega

/-- The order that puts longer texts first, read out. -/
lemma longerFirst_iff {a b : Text} :
    longerFirst a b ↔ b.length < a.length ∨ a.length = b.length ∧ textLE a b := by
  rw [longerFirst, Bool.or_eq_true, Bool.and_eq_true, decide_eq_true_iff, beq_iff_eq]

lemma longerFirst_trans (a b c : Text) (hab : longerFirst a b) (hbc : longerFirst b c) :
    longerFirst a c := by
  rw [longerFirst_iff] at hab hbc ⊢
  obtain hab | ⟨hab, hle⟩ := hab
  · omega
  · obtain hbc | ⟨hbc, hle'⟩ := hbc
    · omega
    · exact .inr ⟨hab.trans hbc, textLE_trans hle hle'⟩

lemma longerFirst_total (a b : Text) : longerFirst a b || longerFirst b a := by
  rw [Bool.or_eq_true, longerFirst_iff, longerFirst_iff]
  obtain hlt | hlen | hlt := Nat.lt_trichotomy a.length b.length
  · exact .inr (.inl hlt)
  · obtain hle | hle := Bool.or_eq_true _ _ ▸ textLE_total a b
    · exact .inl (.inr ⟨hlen, hle⟩)
    · exact .inr (.inr ⟨hlen.symm, hle⟩)
  · exact .inl (.inl hlt)

/-- The texts of a sorted list do not get longer. -/
lemma sortLongerFirst_pairwise (ws : List Text) :
    (sortLongerFirst ws).Pairwise (fun a b => b.length ≤ a.length) := by
  have hsorted : (sortLongerFirst ws).Pairwise (fun a b => longerFirst a b) :=
    List.pairwise_mergeSort longerFirst_trans longerFirst_total _
  apply hsorted.imp
  intro a b hab
  rw [longerFirst_iff] at hab
  omega

/-! ### Spellings -/

/-- The spellings of a word have at each place a way to write its character. -/
lemma mem_spellings {v w : Text} :
    v ∈ spellings w ↔ List.Forall₂ (fun c d => d ∈ charSpellings c) w v := by
  induction w generalizing v with
  | nil => rw [spellings, List.mem_singleton, List.forall₂_nil_left_iff]
  | cons c cs ih =>
    rw [spellings, List.mem_flatMap, List.forall₂_cons_left_iff]
    constructor
    · rintro ⟨d, hd, hv⟩
      obtain ⟨u, hu, rfl⟩ := List.mem_map.mp hv
      exact ⟨d, u, hd, ih.mp hu, rfl⟩
    · rintro ⟨d, u, hd, hu, rfl⟩
      exact ⟨d, hd, List.mem_map.mpr ⟨u, ih.mpr hu, rfl⟩⟩

/-- A character in ASCII, when it is the full-width counterpart of a structural character. -/
def narrow (c : Char) : Char :=
  ((fullWidthTable.find? (·.2 == c)).map Prod.fst).getD c

/-- A character is a way to write what it is in ASCII. -/
lemma mem_charSpellings_narrow (c : Char) : c ∈ charSpellings (narrow c) := by
  rw [narrow]
  cases h : fullWidthTable.find? (·.2 == c) with
  | none =>
    rw [Option.map_none, Option.getD_none, charSpellings]
    split <;> exact List.mem_cons_self
  | some p =>
    have htable : ∀ q ∈ fullWidthTable, q.2 ∈ charSpellings q.1 := by decide
    have hsecond := List.find?_some h
    rw [beq_iff_eq] at hsecond
    rw [Option.map_some, Option.getD_some, ← hsecond]
    exact htable p (List.mem_of_find?_eq_some h)

/-- A text is an operator when it becomes one in ASCII by a map that gives for each character one of
which it is a spelling. -/
lemma mem_operators_iff_map {f : Char → Char} (hspelling : ∀ c, c ∈ charSpellings (f c))
    (hbase : ∀ w ∈ baseOperators.flatMap spellings, w.map f ∈ baseOperators) {v : Text} :
    v ∈ operators ↔ v.map f ∈ baseOperators := by
  rw [operators, sortLongerFirst, List.mem_mergeSort, List.mem_eraseDups]
  constructor
  · exact hbase v
  · intro h
    refine List.mem_flatMap.mpr ⟨v.map f, h, mem_spellings.mpr ?_⟩
    rw [List.forall₂_map_left_iff, List.forall₂_same]
    exact fun c _ => hspelling c

/-- A text is an operator when it is one in ASCII. -/
lemma mem_operators_iff {v : Text} : v ∈ operators ↔ v.map narrow ∈ baseOperators :=
  mem_operators_iff_map mem_charSpellings_narrow (by decide)

/-! ### The operator that begins a text -/

/-- The operator that is read begins the text. -/
lemma leadingOperator?_spec {t w : Text} (h : leadingOperator? t = some w) :
    w ∈ operators ∧ w <+: t := by
  have hbegin := List.find?_some h
  exact ⟨List.mem_of_find?_eq_some h, List.isPrefixOf_iff_prefix.mp hbegin⟩

/-- An operator that begins a text is not longer than the one that is read. -/
lemma length_le_of_leadingOperator? {t v w : Text} (h : leadingOperator? t = some w)
    (hv : v ∈ operators) (hp : v <+: t) : v.length ≤ w.length := by
  obtain ⟨_, before, after, hsplit, hbefore⟩ := List.find?_eq_some_iff_append.mp h
  have hsorted := sortLongerFirst_pairwise (baseOperators.flatMap spellings)
  change operators.Pairwise _ at hsorted
  rw [hsplit, List.pairwise_append, List.pairwise_cons] at hsorted
  rw [hsplit, List.mem_append, List.mem_cons] at hv
  obtain hv | rfl | hv := hv
  · have hnot := hbefore v hv
    rw [List.isPrefixOf_iff_prefix.mpr hp] at hnot
    cases hnot
  · exact Nat.le_refl _
  · exact hsorted.2.1.1 v hv

/-- A text that is the same in ASCII begins with an operator that is as long. -/
lemma exists_leadingOperator? {t u v : Text} (h : t.map narrow = u.map narrow)
    (hv : leadingOperator? t = some v) :
    ∃ w, leadingOperator? u = some w ∧ v.length ≤ w.length := by
  obtain ⟨hmem, hbegin⟩ := leadingOperator?_spec hv
  have hlen : v.length ≤ u.length := by
    have hsame := congrArg List.length h
    rw [List.length_map, List.length_map] at hsame
    exact hsame ▸ hbegin.length_le
  -- the beginning of `u` of this length is an operator
  have htake : u.take v.length ∈ operators := by
    rw [mem_operators_iff, List.map_take, ← h, ← List.map_take, ← List.prefix_iff_eq_take.mp hbegin]
    exact mem_operators_iff.mp hmem
  cases hu : leadingOperator? u with
  | none =>
    have hnot := List.find?_eq_none.mp hu _ htake
    exact (hnot (List.isPrefixOf_iff_prefix.mpr (List.take_prefix _ _))).elim
  | some w =>
    have hle := length_le_of_leadingOperator? hu htake (List.take_prefix _ _)
    rw [List.length_take, Nat.min_eq_left hlen] at hle
    exact ⟨w, rfl, hle⟩

/-- The length of the operator that begins a text does not depend on widths. -/
lemma length_leadingOperator? {t u : Text} (h : t.map narrow = u.map narrow) :
    (leadingOperator? t).map List.length = (leadingOperator? u).map List.length := by
  cases ht : leadingOperator? t with
  | none =>
    cases hu : leadingOperator? u with
    | none => rfl
    | some w =>
      obtain ⟨v, hv, _⟩ := exists_leadingOperator? h.symm hu
      rw [ht] at hv
      cases hv
  | some v =>
    obtain ⟨w, hw, hle⟩ := exists_leadingOperator? h ht
    obtain ⟨v', hv', hle'⟩ := exists_leadingOperator? h.symm hw
    rw [ht] at hv'
    cases hv'
    rw [hw, Option.map_some, Option.map_some, Nat.le_antisymm hle hle']

end LazeEdit
