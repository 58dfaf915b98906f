import LazeEdit.Proofs.Lexicon.Operators
import Mathlib.Algebra.Group.Nat.Defs
import Mathlib.Data.List.Nodup

/-!
# The spellings of a word

One character has one or two spellings, which differ (`nodup_charSpellings`), and a word has those
of its first character in front of those of the others. So every fact about the spellings of a word
is an induction over the word: they differ, they double with each structural character, the word
itself comes first, and the spellings of two words in a row are the pairs of their spellings, those
of the second word running through for each of the first.
-/

namespace LazeEdit

/-! ### One character -/

/-- No character is its own full-width counterpart. -/
lemma fullWidth?_ne {c d : Char} (h : fullWidth? c = some d) : d ≠ c := by
  have htable : ∀ p ∈ fullWidthTable, p.2 ≠ p.1 := by decide
  rintro rfl
  obtain ⟨before, after, hsplit, -⟩ := List.lookup_eq_some_iff.mp h
  exact htable (d, d) (hsplit ▸ List.mem_append_right before List.mem_cons_self) rfl

/-- A character is written as itself or as its full-width counterpart. -/
lemma mem_charSpellings {c d : Char} : d ∈ charSpellings c ↔ d = c ∨ fullWidth? c = some d := by
  rw [charSpellings]
  cases h : fullWidth? c with
  | none => simp
  | some w => simp [eq_comm]

/-- The ways to write a character differ. -/
lemma nodup_charSpellings (c : Char) : (charSpellings c).Nodup := by
  rw [charSpellings]
  cases h : fullWidth? c with
  | none => exact List.nodup_singleton c
  | some w =>
    rw [List.nodup_cons, List.mem_singleton]
    exact ⟨(fullWidth?_ne h).symm, List.nodup_singleton w⟩

/-! ### Words -/

/-- The spellings of a word differ. -/
lemma nodup_spellings (w : Text) : (spellings w).Nodup := by
  induction w with
  | nil => exact List.nodup_singleton []
  | cons c cs ih =>
    rw [spellings, List.nodup_flatMap]
    constructor
    · exact fun d _ => ih.map List.cons_injective
    · -- spellings with different first characters differ
      apply (nodup_charSpellings c).imp
      intro d e hne v hd he
      obtain ⟨x, _, rfl⟩ := List.mem_map.mp hd
      obtain ⟨y, _, hy⟩ := List.mem_map.mp he
      exact hne (List.cons.inj hy).1.symm

/-- Each structural character of a word doubles the number of its spellings. -/
lemma length_spellings (w : Text) :
    (spellings w).length = 2 ^ w.countP fun c => (fullWidth? c).isSome := by
  induction w with
  | nil => rfl
  | cons c cs ih =>
    have hlength : (spellings (c :: cs)).length
        = (charSpellings c).length * (spellings cs).length := by
      rw [spellings, List.length_flatMap]
      simp only [List.length_map, List.map_const', List.sum_replicate_nat]
    rw [hlength, ih, charSpellings]
    cases h : fullWidth? c with
    | none => rw [List.countP_cons_of_neg (by simp [h]), List.length_singleton, Nat.one_mul]
    | some w =>
      rw [List.countP_cons_of_pos (by simp [h]), Nat.pow_succ', List.length_cons,
        List.length_singleton]

/-- The first spelling of a word is the word itself. -/
lemma head?_spellings (w : Text) : (spellings w).head? = some w := by
  induction w with
  | nil => rfl
  | cons c cs ih =>
    obtain ⟨vs, hvs⟩ := List.head?_eq_some_iff.mp ih
    have hfirst : ∃ ds, charSpellings c = c :: ds := by
      rw [charSpellings]
      split
      · exact ⟨_, rfl⟩
      · exact ⟨_, rfl⟩
    obtain ⟨ds, hds⟩ := hfirst
    rw [spellings, hds, hvs]
    rfl

/-- The spellings of two words in a row: for each of the first word all of the second. -/
lemma spellings_append (u w : Text) :
    spellings (u ++ w) = (spellings u).flatMap fun x => (spellings w).map (x ++ ·) := by
  induction u with
  | nil => simp [spellings]
  | cons c cs ih =>
    rw [List.cons_append, spellings, spellings, ih, List.flatMap_assoc]
    congr 1
    funext d
    rw [List.map_flatMap, List.flatMap_map]
    congr 1
    funext x
    rw [List.map_map]
    rfl

/-- The spellings of a word are, each once and the word itself first, the texts of its length that
have at each place the character of the word or its full-width counterpart; there are twice as many
for each structural character, and those of words in a row are the pairs of their spellings, the
last varying fastest. -/
theorem spellings_exact (w : Text) :
    (spellings w).Nodup ∧
    (∀ v, v ∈ spellings w ↔ v.length = w.length ∧
      ∀ i (hv : i < v.length) (hw : i < w.length), v[i] = w[i] ∨ fullWidth? w[i] = some v[i]) ∧
    (spellings w).length = 2 ^ w.countP (fun c => (fullWidth? c).isSome) ∧
    (spellings w).head? = some w ∧
    ∀ u, spellings (u ++ w) = (spellings u).flatMap fun x => (spellings w).map (x ++ ·) := by
  refine ⟨nodup_spellings w, ?_, length_spellings w, head?_spellings w,
    fun u => spellings_append u w⟩
  intro v
  rw [mem_spellings, List.forall₂_iff_get, eq_comm]
  refine and_congr_right fun _ => ?_
  constructor
  · exact fun h i hv hw => mem_charSpellings.mp (h i hw hv)
  · exact fun h i hw hv => mem_charSpellings.mpr (h i hv hw)

end LazeEdit
