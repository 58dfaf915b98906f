import LazeEdit.Proofs.Token.Merge

/-!
# Merging merged and rearranged spans

A merge decides by the keys of spans alone, that is by where they stand and by their ranks.
Rearranged spans are considered with the same keys in the same order, since keys are compared by a
linear order (`map_key_mergeSort`), and where the kept spans stand depends on nothing else
(`map_standing_keepDisjoint`). So of spans that tie two arrangements may keep different ones, but
behind the tie both go on from the same offset. A merge of a merge changes nothing: the kept spans
are in order, and each begins at or behind the end of the one before.
-/

namespace LazeEdit

variable {ss us : List TokenSpan}

/-! ### Where spans stand -/

namespace TokenSpan

/-- Where a span stands, and the rank of its kind. -/
def standing (s : TokenSpan) : Int × Int × Nat :=
  (s.start, s.length, s.type.rank)

/-- Where a span with a given key stands. -/
def standingOfKey (key : Int ×ₗ Nat ×ₗ Int) : Int × Int × Nat :=
  ((ofLex key).1, -(ofLex (ofLex key).2).2, (ofLex (ofLex key).2).1)

lemma standingOfKey_key (s : TokenSpan) : standingOfKey s.key = s.standing := by
  show (s.start, - -s.length, s.type.rank) = s.standing
  rw [Int.neg_neg]
  rfl

/-- Spans with the same keys stand in the same places. -/
lemma map_standing_of_map_key (h : ss.map key = us.map key) :
    ss.map standing = us.map standing := by
  have hstanding : ∀ vs : List TokenSpan, (vs.map key).map standingOfKey = vs.map standing := by
    intro vs
    rw [List.map_map]
    exact List.map_congr_left fun s _ => standingOfKey_key s
  rw [← hstanding ss, h, hstanding us]

end TokenSpan

/-! ### Rearranged spans -/

/-- Rearranged spans are considered with the same keys in the same order. -/
lemma map_key_mergeSort (h : ss.Perm us) :
    (ss.mergeSort TokenSpan.precedes).map TokenSpan.key
      = (us.mergeSort TokenSpan.precedes).map TokenSpan.key := by
  have hperm : (ss.mergeSort TokenSpan.precedes).Perm (us.mergeSort TokenSpan.precedes) :=
    ((stablySorted ss).perm.trans h).trans (stablySorted us).perm.symm
  have hsorted : ∀ vs : List TokenSpan,
      ((vs.mergeSort TokenSpan.precedes).map TokenSpan.key).Pairwise (· ≤ ·) := fun vs =>
    List.pairwise_map.mpr (stablySorted vs).sorted
  exact (hperm.map TokenSpan.key).eq_of_pairwise (fun _ _ _ _ => le_antisymm) (hsorted ss)
    (hsorted us)

/-- Where the kept spans stand depends on where the considered ones stand alone. -/
lemma map_standing_keepDisjoint (stop : Int)
    (h : ss.map TokenSpan.standing = us.map TokenSpan.standing) :
    (keepDisjoint stop ss).map TokenSpan.standing
      = (keepDisjoint stop us).map TokenSpan.standing := by
  induction ss generalizing stop us with
  | nil =>
    rw [List.map_nil, eq_comm, List.map_eq_nil_iff] at h
    rw [h]
  | cons s ss ih =>
    cases us with
    | nil => cases h
    | cons u us =>
      obtain ⟨hstanding, hrest⟩ := List.cons.inj h
      have hstart : s.start = u.start := congrArg Prod.fst hstanding
      have hlength : s.length = u.length := congrArg (fun p => p.2.1) hstanding
      rw [keepDisjoint, keepDisjoint, TokenSpan.stop, TokenSpan.stop, hstart, hlength]
      split
      · exact ih stop hrest
      · rw [List.map_cons, List.map_cons, hstanding, ih _ hrest]

/-- Where the spans of a merge stand does not depend on how the spans are arranged. -/
lemma map_standing_mergeSpans (h : ss.Perm us) :
    (mergeSpans ss).map TokenSpan.standing = (mergeSpans us).map TokenSpan.standing :=
  map_standing_keepDisjoint 0 (TokenSpan.map_standing_of_map_key (map_key_mergeSort h))

/-! ### Merged spans -/

/-- Of spans that are not empty and stand one behind the other, all are kept. -/
lemma keepDisjoint_eq_self {stop : Int} (hpos : ∀ s ∈ ss, 0 < s.length ∧ stop ≤ s.start)
    (hss : ss.Pairwise (fun a b => a.stop ≤ b.start)) : keepDisjoint stop ss = ss := by
  induction ss generalizing stop with
  | nil => rfl
  | cons s ss ih =>
    obtain ⟨hs, hrest⟩ := List.pairwise_cons.mp hss
    obtain ⟨hlength, hstart⟩ := hpos s List.mem_cons_self
    have hbehind : ∀ u ∈ ss, 0 < u.length ∧ s.stop ≤ u.start := fun u hu =>
      ⟨(hpos u (List.mem_cons_of_mem s hu)).1, hs u hu⟩
    rw [keepDisjoint, if_neg (by omega), ih hbehind hrest]

/-- A merge of a merge keeps all spans. -/
lemma mergeSpans_mergeSpans (ss : List TokenSpan) : mergeSpans (mergeSpans ss) = mergeSpans ss := by
  have hordered : (mergeSpans ss).Pairwise (fun a b => a.precedes b) :=
    (mergeSort_pairwise ss).sublist (keepDisjoint_sublist _ 0)
  rw [mergeSpans, List.mergeSort_of_pairwise hordered]
  exact keepDisjoint_eq_self (fun s => of_mem_keepDisjoint) (mergeSpans_pairwise ss)

/-- Merging is idempotent, and the kept offsets, lengths and ranks are the same for any two
arrangements of the same spans. -/
theorem mergeSpans_canonical (ss : List TokenSpan) :
    mergeSpans (mergeSpans ss) = mergeSpans ss ∧
    ∀ us, ss.Perm us →
      (mergeSpans ss).map (fun s => (s.start, s.length, s.type.rank))
        = (mergeSpans us).map (fun s => (s.start, s.length, s.type.rank)) :=
  ⟨mergeSpans_mergeSpans ss, fun _ => map_standing_mergeSpans⟩

/-- Two spans that tie before one that begins inside them and one that begins at their end. -/
def tiedSpans : List TokenSpan :=
  [⟨3, 2, .keyword, .none⟩, ⟨3, 2, .control, .none⟩, ⟨4, 3, .comment, .none⟩,
    ⟨5, 1, .number, .only .decimal⟩]

/-- Of spans that tie the one that is given first is kept, and the ranges are the same. -/
theorem tiedSpans_reversed :
    tiedSpans.Perm tiedSpans.reverse ∧ mergeSpans tiedSpans ≠ mergeSpans tiedSpans.reverse ∧
    (mergeSpans tiedSpans).map (fun s => (s.start, s.length, s.type.rank))
      = (mergeSpans tiedSpans.reverse).map (fun s => (s.start, s.length, s.type.rank)) := by
  have hperm : tiedSpans.Perm tiedSpans.reverse := (List.reverse_perm tiedSpans).symm
  refine ⟨hperm, ?_, (mergeSpans_canonical tiedSpans).2 _ hperm⟩
  rw [mergeSpans, mergeSpans,
    mergeSort_eq_foldr TokenSpan.precedes_trans TokenSpan.precedes_total,
    mergeSort_eq_foldr TokenSpan.precedes_trans TokenSpan.precedes_total]
  decide

end LazeEdit
