import LazeEdit.Token.Merge
import Mathlib.Data.List.Pairwise
import Mathlib.Data.List.Sort
import Mathlib.Data.Prod.Lex
import Mathlib.Tactic.Lemma

/-!
# What merging keeps

Merging sorts the spans by `TokenSpan.precedes` and keeps, from left to right, those that begin at
or behind the end of the last one kept. The kept spans are spans of the input, are not empty and
follow one another without overlap. `keepDisjoint_place` says for each place of the order what is
kept before and behind it, and why the span at the place is missing: it is empty, begins before the
text, or begins inside a kept span that is considered before it. Sorting is stable, so that of spans
that tie the one given first is considered first (`pair_sublist_of_mergeSort`, `stablySorted`).
`mergeSpans_keeps` says all this of a merge.

In an aligned list, where spans that share an offset have the same range, nothing else is lost: each
span has a kept span of its own range and of no higher rank (`Aligned.exists_kept`), so the kept
spans cover the offsets that the list covers.
-/

namespace LazeEdit

/-- Two members of a list in order are the same, or one stands before the other. -/
lemma eq_or_of_pairwise {α : Type} {R : α → α → Prop} {l : List α} (h : l.Pairwise R) {a b : α}
    (ha : a ∈ l) (hb : b ∈ l) : a = b ∨ R a b ∨ R b a := by
  have : Std.Symm fun x y => R x y ∨ R y x := ⟨fun _ _ => Or.symm⟩
  have hone : l.Pairwise fun x y => R x y ∨ R y x := h.imp .inl
  by_cases hab : a = b
  · exact .inl hab
  · exact .inr (hone.forall ha hb hab)

namespace TokenSpan

/-- An offset lies in a span. -/
def Covers (s : TokenSpan) (i : Int) : Prop :=
  s.start ≤ i ∧ i < s.stop

/-- Two spans have the same offset and length. -/
def SameRange (a b : TokenSpan) : Prop :=
  a.start = b.start ∧ a.length = b.length

/-- A span that stands in the text and is not empty. -/
def Proper (s : TokenSpan) : Prop :=
  0 ≤ s.start ∧ 0 < s.length

/-- A span stands between two offsets of a text. -/
def At (s : TokenSpan) (a b : Nat) : Prop :=
  s.start = a ∧ s.stop = b

/-- A span that is not empty and stands between two offsets of a text. -/
lemma At.proper {s : TokenSpan} {a b : Nat} (h : s.At a b) (hab : a < b) : s.Proper := by
  obtain ⟨hstart, hstop⟩ := h
  rw [stop] at hstop
  rw [Proper]
  omega

/-- A span between two offsets covers the offsets between them. -/
lemma At.covers_iff {s : TokenSpan} {a b : Nat} (h : s.At a b) {i : Int} :
    s.Covers i ↔ ∃ j : Nat, i = j ∧ a ≤ j ∧ j < b := by
  rw [Covers, h.1, h.2]
  constructor
  · rintro ⟨hle, hlt⟩
    exact ⟨i.toNat, by omega, by omega, by omega⟩
  · rintro ⟨j, rfl, hle, hlt⟩
    omega

/-- A span stands between two offsets only. -/
lemma At.unique {s : TokenSpan} {a b a' b' : Nat} (h : s.At a b) (h' : s.At a' b') :
    a = a' ∧ b = b' :=
  ⟨Int.ofNat.inj (h.1.symm.trans h'.1), Int.ofNat.inj (h.2.symm.trans h'.2)⟩

/-- Spans between the same two offsets have the same range. -/
lemma At.sameRange {s s' : TokenSpan} {a b : Nat} (h : s.At a b) (h' : s'.At a b) :
    s.SameRange s' := by
  obtain ⟨hstart, hstop⟩ := h
  obtain ⟨hstart', hstop'⟩ := h'
  rw [stop] at hstop hstop'
  rw [SameRange]
  omega

/-- A span that is not empty covers its first offset. -/
lemma covers_start {s : TokenSpan} (h : 0 < s.length) : s.Covers s.start := by
  refine ⟨Int.le_refl _, ?_⟩
  rw [stop]
  omega

/-- Spans of the same range cover the same offsets. -/
lemma SameRange.covers_iff {a b : TokenSpan} (h : a.SameRange b) (i : Int) :
    a.Covers i ↔ b.Covers i := by
  rw [Covers, Covers, stop, stop, h.1, h.2]

/-- Of spans that stand one behind the other only one covers an offset. -/
lemma eq_of_covers {ss : List TokenSpan} (h : ss.Pairwise (fun a b => a.stop ≤ b.start))
    {a b : TokenSpan} (ha : a ∈ ss) (hb : b ∈ ss) {i : Int} (hai : a.Covers i) (hbi : b.Covers i) :
    a = b := by
  obtain ⟨hale, halt⟩ := hai
  obtain ⟨hble, hblt⟩ := hbi
  obtain rfl | hle | hle := eq_or_of_pairwise h ha hb
  · rfl
  · omega
  · omega

/-- Spans that are not empty and stand one behind the other are determined by which they are. -/
lemma eq_of_mem_iff {ss us : List TokenSpan} (hss : ss.Pairwise (fun a b => a.stop ≤ b.start))
    (hus : us.Pairwise (fun a b => a.stop ≤ b.start)) (hpos : ∀ s ∈ ss, 0 < s.length)
    (h : ∀ s, s ∈ ss ↔ s ∈ us) : ss = us := by
  let before (a b : TokenSpan) : Prop := a.start < b.start
  have : Std.Irrefl before := ⟨fun a => Int.lt_irrefl a.start⟩
  have : Std.Antisymm before := ⟨fun a b hab hba => absurd hba (Int.lt_asymm hab)⟩
  have hbefore : ∀ {us : List TokenSpan}, us.Pairwise (fun a b => a.stop ≤ b.start) →
      (∀ s ∈ us, 0 < s.length) → us.Pairwise before := by
    intro us hus hpos
    apply hus.imp_of_mem
    intro a b ha _ hle
    have := hpos a ha
    rw [stop] at hle
    show a.start < b.start
    omega
  exact (hbefore hss hpos).eq_of_mem_iff (hbefore hus fun s hs => hpos s ((h s).mpr hs)) h

/-! ### The order of spans -/

/-- The order of spans, read out. -/
lemma precedes_iff {a b : TokenSpan} :
    a.precedes b ↔ a.start < b.start ∨ a.start = b.start ∧
      (a.type.rank < b.type.rank ∨ a.type.rank = b.type.rank ∧ b.length ≤ a.length) := by
  unfold precedes
  split
  case isTrue hs =>
    rw [decide_eq_true_iff]
    omega
  case isFalse hs =>
    split
    case isTrue hr =>
      rw [decide_eq_true_iff]
      omega
    case isFalse hr =>
      rw [decide_eq_true_iff]
      omega

/-- The order of spans is transitive. -/
lemma precedes_trans (a b c : TokenSpan) (hab : a.precedes b) (hbc : b.precedes c) :
    a.precedes c := by
  rw [precedes_iff] at hab hbc ⊢
  omega

/-- Of two spans one precedes the other. -/
lemma precedes_total (a b : TokenSpan) : a.precedes b || b.precedes a := by
  rw [Bool.or_eq_true, precedes_iff, precedes_iff]
  omega

/-- A span begins at or behind a span that precedes it. -/
lemma start_le_of_precedes {a b : TokenSpan} (h : a.precedes b) : a.start ≤ b.start := by
  rw [precedes_iff] at h
  omega

/-- Of spans that begin together, the one that precedes has no higher rank. -/
lemma rank_le_of_precedes {a b : TokenSpan} (h : a.precedes b) (e : a.start = b.start) :
    a.type.rank ≤ b.type.rank := by
  rw [precedes_iff] at h
  omega

/-- What decides between spans that begin at one offset: the rank, and then the length, where the
longer span comes first. -/
def weight (s : TokenSpan) : Nat ×ₗ Int :=
  toLex (s.type.rank, -s.length)

/-- What decides between spans: the offset, and then the weight. -/
def key (s : TokenSpan) : Int ×ₗ Nat ×ₗ Int :=
  toLex (s.start, s.weight)

/-- Spans are considered in the order of their keys. -/
lemma precedes_iff_key {a b : TokenSpan} : a.precedes b ↔ a.key ≤ b.key := by
  rw [precedes_iff, key, key, Prod.Lex.toLex_le_toLex, weight, weight, Prod.Lex.toLex_le_toLex]
  simp only
  omega

end TokenSpan

/-! ### Keeping from left to right -/

/-- The kept spans are among the given ones, in their order. -/
lemma keepDisjoint_sublist (ss : List TokenSpan) (stop : Int) :
    (keepDisjoint stop ss).Sublist ss := by
  induction ss generalizing stop with
  | nil => exact List.Sublist.refl _
  | cons s ss ih =>
    rw [keepDisjoint]
    split
    · exact (ih stop).cons s
    · exact (ih s.stop).cons_cons s

/-- A kept span is not empty and begins at or behind the bound. -/
lemma of_mem_keepDisjoint {ss : List TokenSpan} {stop : Int} {k : TokenSpan}
    (h : k ∈ keepDisjoint stop ss) : 0 < k.length ∧ stop ≤ k.start := by
  induction ss generalizing stop with
  | nil => cases h
  | cons s ss ih =>
    rw [keepDisjoint] at h
    split at h
    case isTrue => exact ih h
    case isFalse hs =>
      obtain rfl | h := List.mem_cons.mp h
      · omega
      · obtain ⟨hpos, hle⟩ := ih h
        rw [TokenSpan.stop] at hle
        omega

/-- Each kept span ends where the next one begins, or before. -/
lemma keepDisjoint_pairwise (ss : List TokenSpan) (stop : Int) :
    (keepDisjoint stop ss).Pairwise (fun a b => a.stop ≤ b.start) := by
  induction ss generalizing stop with
  | nil => exact List.Pairwise.nil
  | cons s ss ih =>
    rw [keepDisjoint]
    split
    · exact ih stop
    · exact List.Pairwise.cons (fun b hb => (of_mem_keepDisjoint hb).2) (ih s.stop)

/-- What is kept before and behind a place of an ordered list. The span at the place is kept as well,
unless it is empty, begins before the bound, or begins inside a span that is kept before it. -/
lemma keepDisjoint_place {before after : List TokenSpan} {s : TokenSpan}
    (hsorted : (before ++ s :: after).Pairwise (fun a b => a.precedes b)) (stop : Int) :
    ∃ kept later, kept.Sublist before ∧ later.Sublist after ∧
      (keepDisjoint stop (before ++ s :: after) = kept ++ s :: later ∨
        keepDisjoint stop (before ++ s :: after) = kept ++ later ∧
          (s.length ≤ 0 ∨ s.start < stop ∨ ∃ k ∈ kept, k.Covers s.start)) := by
  induction before generalizing stop with
  | nil =>
    rw [List.nil_append, keepDisjoint]
    split
    case isTrue hdrop =>
      exact ⟨[], keepDisjoint stop after, .slnil, keepDisjoint_sublist after stop,
        .inr ⟨rfl, hdrop.imp_right .inl⟩⟩
    case isFalse =>
      exact ⟨[], keepDisjoint s.stop after, .slnil, keepDisjoint_sublist after s.stop, .inl rfl⟩
  | cons b before ih =>
    obtain ⟨hb, hrest⟩ := List.pairwise_cons.mp hsorted
    rw [List.cons_append, keepDisjoint]
    split
    case isTrue =>
      obtain ⟨kept, later, hkept, hlater, hplace⟩ := ih hrest stop
      exact ⟨kept, later, hkept.cons b, hlater, hplace⟩
    case isFalse =>
      obtain ⟨kept, later, hkept, hlater, hplace⟩ := ih hrest b.stop
      refine ⟨b :: kept, later, hkept.cons_cons b, hlater, ?_⟩
      obtain hkeep | ⟨hdrop, hempty | hlt | ⟨k, hk, hcov⟩⟩ := hplace
      · exact .inl (congrArg (b :: ·) hkeep)
      · exact .inr ⟨congrArg (b :: ·) hdrop, .inl hempty⟩
      · -- it begins before the end of `b`, and not before `b` since `b` precedes it
        have hle := TokenSpan.start_le_of_precedes
          (hb s (List.mem_append_right _ List.mem_cons_self))
        have hcov : b.Covers s.start := ⟨hle, hlt⟩
        exact .inr ⟨congrArg (b :: ·) hdrop, .inr (.inr ⟨b, List.mem_cons_self, hcov⟩)⟩
      · exact .inr ⟨congrArg (b :: ·) hdrop,
          .inr (.inr ⟨k, List.mem_cons_of_mem b hk, hcov⟩)⟩

/-- A span of an ordered list that is not kept is empty, begins before the bound, or begins inside
a kept span that stands before it in the list. -/
lemma mem_keepDisjoint_or_covered {ss : List TokenSpan} {stop : Int} {s : TokenSpan}
    (hsorted : ss.Pairwise (fun a b => a.precedes b)) (hs : s ∈ ss) :
    s ∈ keepDisjoint stop ss ∨ s.length ≤ 0 ∨ s.start < stop ∨
      ∃ k ∈ keepDisjoint stop ss, [k, s].Sublist ss ∧ k.Covers s.start := by
  obtain ⟨before, after, rfl⟩ := List.append_of_mem hs
  obtain ⟨kept, later, hkept, _, hplace⟩ := keepDisjoint_place hsorted stop
  obtain hkeep | ⟨hdrop, hempty | hlt | ⟨k, hk, hcov⟩⟩ := hplace
  · left
    rw [hkeep]
    exact List.mem_append_right _ List.mem_cons_self
  · exact .inr (.inl hempty)
  · exact .inr (.inr (.inl hlt))
  · have hbefore : [k, s].Sublist (before ++ s :: after) :=
      (List.singleton_sublist.mpr (hkept.subset hk)).append
        (List.singleton_sublist.mpr List.mem_cons_self)
    have hmem : k ∈ keepDisjoint stop (before ++ s :: after) := by
      rw [hdrop]
      exact List.mem_append_left _ hk
    exact .inr (.inr (.inr ⟨k, hmem, hbefore, hcov⟩))

/-! ### Merging -/

/-- The spans of a merge come from its input. -/
lemma mem_of_mem_mergeSpans {ss : List TokenSpan} {k : TokenSpan} (h : k ∈ mergeSpans ss) :
    k ∈ ss :=
  List.mem_mergeSort.mp ((keepDisjoint_sublist _ 0).subset h)

/-- Each span of a merge ends where the next one begins, or before. -/
lemma mergeSpans_pairwise (ss : List TokenSpan) :
    (mergeSpans ss).Pairwise (fun a b => a.stop ≤ b.start) :=
  keepDisjoint_pairwise _ 0

/-- The spans of a merge are considered in their order. -/
lemma mergeSort_pairwise (ss : List TokenSpan) :
    (ss.mergeSort TokenSpan.precedes).Pairwise (fun a b => a.precedes b) :=
  List.pairwise_mergeSort TokenSpan.precedes_trans TokenSpan.precedes_total ss

/-- A span that a merge leaves out is empty, begins before the text, or begins inside a kept span
that is considered before it. -/
lemma mem_mergeSpans_or_covered {ss : List TokenSpan} {s : TokenSpan} (hs : s ∈ ss) :
    s ∈ mergeSpans ss ∨ s.length ≤ 0 ∨ s.start < 0 ∨
      ∃ k ∈ mergeSpans ss, [k, s].Sublist (ss.mergeSort TokenSpan.precedes) ∧ k.Covers s.start :=
  mem_keepDisjoint_or_covered (mergeSort_pairwise ss) (List.mem_mergeSort.mpr hs)

section Sorting

variable {α : Type} {le : α → α → Bool}

/-- An element is sorted in before the first one that it precedes or equals. -/
lemma mergeSort_cons_eq (htrans : ∀ a b c, le a b → le b c → le a c)
    (htotal : ∀ a b, le a b || le b a) (a : α) (l : List α) :
    (a :: l).mergeSort le
      = (l.mergeSort le).filter (fun b => !le a b) ++ a :: (l.mergeSort le).filter (le a) := by
  obtain ⟨before, behind, hcons, hsort, hbefore⟩ := List.mergeSort_cons htrans htotal a l
  have hsorted := List.pairwise_mergeSort htrans htotal (a :: l)
  rw [hcons, List.pairwise_append, List.pairwise_cons] at hsorted
  have hbehind := hsorted.2.1.1
  have hleft : before.filter (le a) = [] := by
    rw [List.filter_eq_nil_iff]
    intro b hb hle
    have hnot := hbefore b hb
    rw [hle] at hnot
    cases hnot
  have hright : behind.filter (fun b => !le a b) = [] := by
    rw [List.filter_eq_nil_iff]
    intro b hb hnot
    rw [hbehind b hb] at hnot
    cases hnot
  rw [hcons, hsort, List.filter_append, List.filter_append, hleft, hright, List.append_nil,
    List.nil_append, List.filter_eq_self.mpr hbefore, List.filter_eq_self.mpr hbehind]

/-- Sorting puts the elements in one after the other, from the last on. -/
lemma mergeSort_eq_foldr (htrans : ∀ a b c, le a b → le b c → le a c)
    (htotal : ∀ a b, le a b || le b a) (l : List α) :
    l.mergeSort le
      = l.foldr (fun a sorted => sorted.filter (fun b => !le a b) ++ a :: sorted.filter (le a)) [] := by
  induction l with
  | nil => exact List.mergeSort_nil
  | cons a l ih => rw [mergeSort_cons_eq htrans htotal, ih, List.foldr_cons]

/-- Sorting keeps the places of the elements of a class among each other, so that they can be taken
out before. -/
lemma mergeSort_filter (htrans : ∀ a b c, le a b → le b c → le a c)
    (htotal : ∀ a b, le a b || le b a) (p : α → Bool) (l : List α) :
    (l.filter p).mergeSort le = (l.mergeSort le).filter p := by
  induction l with
  | nil => simp
  | cons a l ih =>
    by_cases ha : p a
    · rw [List.filter_cons_of_pos ha, mergeSort_cons_eq htrans htotal, ih,
        mergeSort_cons_eq htrans htotal, List.filter_append, List.filter_cons_of_pos ha]
      simp only [List.filter_filter, Bool.and_comm]
    · obtain ⟨before, behind, hcons, hsort, _⟩ := List.mergeSort_cons htrans htotal a l
      rw [List.filter_cons_of_neg ha, ih, hcons, hsort, List.filter_append, List.filter_append,
        List.filter_cons_of_neg ha]

/-- Elements of a class that stand in order keep their places among each other when a list is
sorted. -/
lemma filter_mergeSort (htrans : ∀ a b c, le a b → le b c → le a c)
    (htotal : ∀ a b, le a b || le b a) {p : α → Bool} {l : List α}
    (h : (l.filter p).Pairwise (fun a b => le a b)) : (l.mergeSort le).filter p = l.filter p := by
  rw [← mergeSort_filter htrans htotal, List.mergeSort_of_pairwise h]

end Sorting

/-- Two spans that precede each other are considered in the order in which they are given. -/
lemma pair_sublist_of_mergeSort {ss : List TokenSpan} {a b : TokenSpan} (hab : a.precedes b)
    (hba : b.precedes a) (h : [a, b].Sublist (ss.mergeSort TokenSpan.precedes)) :
    [a, b].Sublist ss := by
  have hpair : (ss.filter fun u => u = a ∨ u = b).Pairwise (fun u v => u.precedes v) := by
    apply List.pairwise_of_forall_mem_list
    intro u hu v hv
    have hrefl : ∀ w : TokenSpan, w.precedes w := fun w => (Bool.or_self _).symm.trans
      (TokenSpan.precedes_total w w)
    obtain rfl | rfl := of_decide_eq_true (List.mem_filter.mp hu).2 <;>
      obtain rfl | rfl := of_decide_eq_true (List.mem_filter.mp hv).2
    · exact hrefl _
    · exact hab
    · exact hba
    · exact hrefl _
  have hfilter := h.filter fun u => u = a ∨ u = b
  rw [filter_mergeSort TokenSpan.precedes_trans TokenSpan.precedes_total hpair] at hfilter
  have hself : [a, b].filter (fun u => u = a ∨ u = b) = [a, b] := by simp
  rw [hself] at hfilter
  exact hfilter.trans List.filter_sublist

/-- A list in the order of the keys in which spans of one key stand as they do in another list. -/
structure StablySorted (ss ordered : List TokenSpan) : Prop where
  perm : ordered.Perm ss
  sorted : ordered.Pairwise (fun a b => a.key ≤ b.key)
  stable : ∀ key, ordered.filter (fun s => s.key = key) = ss.filter (fun s => s.key = key)

/-- The order in which a merge considers spans. -/
lemma stablySorted (ss : List TokenSpan) : StablySorted ss (ss.mergeSort TokenSpan.precedes) := by
  refine ⟨List.mergeSort_perm ss _, ?_, ?_⟩
  · exact (mergeSort_pairwise ss).imp TokenSpan.precedes_iff_key.mp
  · intro key
    apply filter_mergeSort TokenSpan.precedes_trans TokenSpan.precedes_total
    apply List.pairwise_of_forall_mem_list
    intro a ha b hb
    rw [TokenSpan.precedes_iff_key, of_decide_eq_true (List.mem_filter.mp ha).2,
      of_decide_eq_true (List.mem_filter.mp hb).2]

/-- A kept span has the least weight of the spans that begin where it begins and are not empty. -/
lemma weight_le_of_mem_mergeSpans {ss : List TokenSpan} {k s : TokenSpan} (hk : k ∈ mergeSpans ss)
    (hs : s ∈ ss) (hstart : s.start = k.start) (hpos : 0 < s.length) : k.weight ≤ s.weight := by
  have hproper := of_mem_keepDisjoint hk
  have hcov : k.Covers s.start := hstart ▸ TokenSpan.covers_start hproper.1
  obtain hmem | hempty | hneg | ⟨k', hk', hbefore, hcov'⟩ := mem_mergeSpans_or_covered hs
  · obtain rfl := TokenSpan.eq_of_covers (mergeSpans_pairwise ss) hk hmem hcov
      (TokenSpan.covers_start hpos)
    exact le_refl _
  · exact absurd hpos (Int.not_lt.mpr hempty)
  · exact absurd hproper.2 (by omega)
  · obtain rfl := TokenSpan.eq_of_covers (mergeSpans_pairwise ss) hk hk' hcov hcov'
    have hprec := List.pairwise_pair.mp ((mergeSort_pairwise ss).sublist hbefore)
    rw [TokenSpan.precedes_iff_key, TokenSpan.key, TokenSpan.key, Prod.Lex.toLex_le_toLex] at hprec
    obtain hlt | ⟨_, hle⟩ := hprec
    · exact absurd hlt (by omega)
    · exact hle

/-- A merge of any spans keeps spans of the input that are not empty and do not begin before the text,
by growing offsets and without overlap. It goes through the spans by offset, rank and length, with
ties as they are given, and at each place the span is kept, or it is empty, begins before the text, or
begins inside a span that is kept before it. So a kept span has the least rank, and of that rank the
greatest length, of the spans that begin where it begins and are not empty. -/
theorem mergeSpans_keeps (ss : List TokenSpan) :
    (∀ k ∈ mergeSpans ss, k ∈ ss ∧ 0 < k.length ∧ 0 ≤ k.start) ∧
    (mergeSpans ss).Pairwise (fun a b => a.start < b.start ∧ a.stop ≤ b.start) ∧
    (∃ ordered, StablySorted ss ordered ∧
      ∀ before s after, ordered = before ++ s :: after →
        ∃ kept later, kept.Sublist before ∧ later.Sublist after ∧
          (mergeSpans ss = kept ++ s :: later ∨
            mergeSpans ss = kept ++ later ∧ (s.length ≤ 0 ∨ s.start < 0 ∨
              ∃ k ∈ kept, k.start ≤ s.start ∧ s.start < k.stop))) ∧
    ∀ k ∈ mergeSpans ss, ∀ s ∈ ss, s.start = k.start → 0 < s.length → k.weight ≤ s.weight := by
  refine ⟨?_, ?_, ⟨_, stablySorted ss, ?_⟩, fun k hk s => weight_le_of_mem_mergeSpans hk⟩
  · intro k hk
    exact ⟨mem_of_mem_mergeSpans hk, of_mem_keepDisjoint hk⟩
  · refine (mergeSpans_pairwise ss).imp_of_mem ?_
    intro a b ha _ hle
    have hpos := (of_mem_keepDisjoint ha).1
    refine ⟨?_, hle⟩
    rw [TokenSpan.stop] at hle
    omega
  · intro before s after hordered
    have hsorted := mergeSort_pairwise ss
    rw [hordered] at hsorted
    rw [mergeSpans, hordered]
    exact keepDisjoint_place hsorted 0

/-! ### Aligned spans -/

/-- Spans that share an offset have the same range. -/
def Aligned (ss : List TokenSpan) : Prop :=
  ∀ a ∈ ss, ∀ b ∈ ss, ∀ i, a.Covers i → b.Covers i → a.SameRange b

/-- Of aligned spans a merge leaves one out for a kept span of its range that is considered before
it. -/
lemma Aligned.kept_or_earlier {ss : List TokenSpan} (h : Aligned ss) {s : TokenSpan} (hs : s ∈ ss)
    (hproper : s.Proper) :
    s ∈ mergeSpans ss ∨ ∃ k ∈ mergeSpans ss, k.SameRange s ∧
      [k, s].Sublist (ss.mergeSort TokenSpan.precedes) := by
  obtain hmem | hempty | hneg | ⟨k, hk, hbefore, hcov⟩ := mem_mergeSpans_or_covered hs
  · exact .inl hmem
  · exact absurd hproper.2 (by omega)
  · exact absurd hproper.1 (by omega)
  · have hsame := h k (mem_of_mem_mergeSpans hk) s hs s.start hcov
      (TokenSpan.covers_start hproper.2)
    exact .inr ⟨k, hk, hsame, hbefore⟩

/-- Of aligned spans a merge loses no range: each one has a kept span of its range whose rank is no
higher. -/
lemma Aligned.exists_kept {ss : List TokenSpan} (h : Aligned ss) {s : TokenSpan} (hs : s ∈ ss)
    (hproper : s.Proper) :
    ∃ k ∈ mergeSpans ss, k.SameRange s ∧ k.type.rank ≤ s.type.rank := by
  obtain hmem | ⟨k, hk, hsame, hbefore⟩ := h.kept_or_earlier hs hproper
  · exact ⟨s, hmem, ⟨rfl, rfl⟩, Nat.le_refl _⟩
  · have hprec := List.pairwise_pair.mp ((mergeSort_pairwise ss).sublist hbefore)
    exact ⟨k, hk, hsame, TokenSpan.rank_le_of_precedes hprec hsame.1⟩

/-- A merge of aligned spans covers the offsets that the spans cover. -/
lemma Aligned.covers_iff {ss : List TokenSpan} (h : Aligned ss) (hproper : ∀ s ∈ ss, s.Proper)
    (i : Int) : (∃ k ∈ mergeSpans ss, k.Covers i) ↔ ∃ s ∈ ss, s.Covers i := by
  constructor
  · rintro ⟨k, hk, hcov⟩
    exact ⟨k, mem_of_mem_mergeSpans hk, hcov⟩
  · rintro ⟨s, hs, hcov⟩
    obtain ⟨k, hk, hsame, _⟩ := h.exists_kept hs (hproper s hs)
    exact ⟨k, hk, (hsame.covers_iff i).mpr hcov⟩

end LazeEdit
