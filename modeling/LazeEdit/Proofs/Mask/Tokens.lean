import LazeEdit.Proofs.Mask.Regions

/-!
# Tokens of regions

A region gives one token for each of its lines on which it has a character. The tokens of one region
have a line feed between them (`pieceTokens_pairwise`) and leave out nothing but line feeds
(`MaskSpan.exists_covering`), so no token could be longer: the offsets beside it lie in no token of
the region, and are line feeds or outside the region (`MaskSpan.lineToken`).
-/

namespace LazeEdit

variable {t : Text} {ss : List MaskSpan} {s : MaskSpan} {k k' : TokenSpan} {lo hi : Nat}

/-! ### What the tokens of a region cover -/

/-- The tokens of pieces leave out only the line feeds between them. -/
lemma exists_covering_pieceTokens (kind : MaskKind) (pieces : List Text) (start : Int) {i : Nat}
    (hi : i < (joinWith ['\n'] pieces).length) (hfeed : (joinWith ['\n'] pieces)[i]? ≠ some '\n') :
    ∃ k ∈ pieceTokens kind start pieces, k.Covers (start + i) := by
  induction pieces generalizing start i with
  | nil => cases hi
  | cons p ps ih =>
    rw [pieceTokens]
    by_cases hp : i < p.length
    · have hne : ¬ p.isEmpty := by
        rw [List.isEmpty_iff_length_eq_zero]
        omega
      rw [if_neg hne]
      refine ⟨_, List.mem_cons_self, ?_, ?_⟩
      · show start ≤ start + i
        omega
      · show start + i < start + p.length
        omega
    · cases ps with
      | nil => exact absurd hi hp
      | cons q qs =>
        have hlen : (p ++ ['\n']).length = p.length + 1 := List.length_append
        have hjoin : joinWith ['\n'] (p :: q :: qs) = (p ++ ['\n']) ++ joinWith ['\n'] (q :: qs) :=
          rfl
        rw [hjoin] at hi hfeed
        -- the offset is not that of the line feed behind the first piece
        have hnext : p.length + 1 ≤ i := by
          by_contra hlt
          obtain rfl : i = p.length := by omega
          apply hfeed
          rw [List.getElem?_append_left (by omega), List.getElem?_append_right (Nat.le_refl _),
            Nat.sub_self]
          rfl
        rw [List.length_append, hlen] at hi
        rw [List.getElem?_append_right (by omega), hlen] at hfeed
        obtain ⟨k, hk, hcovers⟩ := ih (start + p.length + 1) (by omega) hfeed
        rw [show start + p.length + 1 + ((i - (p.length + 1) : Nat) : Int) = start + i by omega]
          at hcovers
        refine ⟨k, ?_, hcovers⟩
        split
        · exact hk
        · exact List.mem_cons_of_mem _ hk

/-- The names of the invalid kinds begin in the same way, and no other names do. -/
lemma MaskKind.invalid_eq (kind : MaskKind) :
    kind.invalid = "INVALID_".toList.isPrefixOf kind.name.toList := by
  cases kind with
  | lineComment => decide
  | blockComment => decide
  | literal quote closed => cases quote <;> cases closed <;> decide

namespace MaskSpan

/-- The tokens of a region leave out only its line feeds. -/
lemma exists_covering (hlo : s.start = lo) (hhi : s.stop = hi) (hle : hi ≤ t.length) {i : Int}
    (hcovers : s.Covers i) (hfeed : t[i.toNat]? ≠ some '\n') : ∃ k ∈ s.tokens t, k.Covers i := by
  obtain ⟨hstart, hstop⟩ := hcovers
  obtain ⟨j, rfl⟩ : ∃ j : Nat, i = lo + j := ⟨(i - lo).toNat, by omega⟩
  rw [show ((lo : Int) + j).toNat = lo + j by omega] at hfeed
  rw [tokens, hlo, hhi]
  apply exists_covering_pieceTokens
  · rw [joinWith_splitAtChar, length_slice hle]
    omega
  · rw [joinWith_splitAtChar, getElem?_slice hle (by omega)]
    exact hfeed

/-- No token of a region covers an offset just beside another one. -/
lemma not_covers_beside (hlo : s.start = lo) (hhi : s.stop = hi) (hle : hi ≤ t.length)
    (hk : k ∈ s.tokens t) (hk' : k' ∈ s.tokens t) :
    ¬ k'.Covers (k.start - 1) ∧ ¬ k'.Covers k.stop := by
  obtain ⟨a, b, ⟨hstart, hstop⟩, _, _, hpiece, _⟩ := s.exists_of_mem_tokens hlo hhi hle hk
  have hlt := hpiece.lt
  rw [TokenSpan.Covers, TokenSpan.Covers]
  obtain rfl | hapart | hapart := eq_or_of_pairwise (pieceTokens_pairwise _ _ _) hk hk'
  · omega
  · omega
  · omega

/-- A token on a line of a region: a stretch of the region that ends on both sides at a line feed or
with the region. It has the kind of the region, and is marked when that is an invalid one. -/
structure LineToken (t : Text) (s : MaskSpan) (k : TokenSpan) : Prop where
  start_le : s.start ≤ k.start
  le_stop : k.stop ≤ s.stop
  opens : k.start = s.start ∨ t[(k.start - 1).toNat]? = some '\n'
  closes : k.stop = s.stop ∨ t[k.stop.toNat]? = some '\n'
  type : k.type = s.kind.tokenType
  modifiers : k.modifiers =
    if "INVALID_".toList.isPrefixOf s.kind.name.toList then .only .invalid else .none

/-- The tokens of a region stand on its lines. -/
lemma lineToken (hlo : s.start = lo) (hhi : s.stop = hi) (hle : hi ≤ t.length)
    (hk : k ∈ s.tokens t) : s.LineToken t k := by
  obtain ⟨a, b, ⟨hstart, hstop⟩, hloa, hbhi, hpiece, htype, hmodifiers⟩ :=
    s.exists_of_mem_tokens hlo hhi hle hk
  have hlt := hpiece.lt
  -- an offset of the region beside the token is covered by no token, so that it is a line feed
  have hfeed : ∀ i, (∀ k' ∈ s.tokens t, ¬ k'.Covers i) → s.Covers i → t[i.toNat]? = some '\n' := by
    intro i hnone hcovers
    by_contra hne
    obtain ⟨k', hk', hcovers'⟩ := exists_covering hlo hhi hle hcovers hne
    exact hnone k' hk' hcovers'
  refine ⟨by omega, by omega, ?_, ?_, htype, ?_⟩
  · by_cases hfirst : k.start = s.start
    · exact .inl hfirst
    · right
      apply hfeed _ fun k' hk' => (not_covers_beside hlo hhi hle hk hk').1
      rw [Covers]
      omega
  · by_cases hlast : k.stop = s.stop
    · exact .inl hlast
    · right
      apply hfeed _ fun k' hk' => (not_covers_beside hlo hhi hle hk hk').2
      rw [Covers]
      omega
  · rw [hmodifiers, MaskKind.modifiers, MaskKind.invalid_eq]

end MaskSpan

/-! ### The tokens of regions in order -/

namespace SourceRegions

/-- An offset lies in one region at most. -/
lemma eq_of_covers {n : Nat} (h : SourceRegions n ss) {s' : MaskSpan} (hs : s ∈ ss) (hs' : s' ∈ ss)
    {i : Int} (hcovers : s.Covers i) (hcovers' : s'.Covers i) : s = s' := by
  obtain rfl | hdisjoint | hdisjoint := eq_or_of_pairwise h.disjoint hs hs'
  · rfl
  · exact absurd ⟨hcovers, hcovers'⟩ (hdisjoint i)
  · exact absurd ⟨hcovers', hcovers⟩ (hdisjoint i)

lemma pos_of_mem_maskTokens (h : SourceRegions t.length ss) (hk : k ∈ maskTokens t ss) :
    0 < k.length := by
  obtain ⟨_, _, a, b, hat, _, _, hpiece, _⟩ := h.exists_of_mem_maskTokens hk
  exact (hat.proper hpiece.lt).2

/-- No token holds a line feed. -/
lemma not_feed (h : SourceRegions t.length ss) (hk : k ∈ maskTokens t ss) {i : Int}
    (hcovers : k.Covers i) : t[i.toNat]? ≠ some '\n' := by
  obtain ⟨_, _, a, b, hat, _, _, hpiece, _⟩ := h.exists_of_mem_maskTokens hk
  obtain ⟨j, rfl, hle, hlt⟩ := hat.covers_iff.mp hcovers
  exact hpiece.line j hle hlt

/-- The tokens cover the offsets of the regions that are no line feeds. -/
lemma covers_iff (h : SourceRegions t.length ss) (i : Int) :
    (∃ k ∈ maskTokens t ss, k.Covers i) ↔
      (∃ s ∈ ss, s.Covers i) ∧ t[i.toNat]? ≠ some '\n' := by
  constructor
  · rintro ⟨k, hk, hcovers⟩
    refine ⟨?_, h.not_feed hk hcovers⟩
    obtain ⟨s, hs, a, b, ⟨hstart, hstop⟩, hle, hle', _⟩ := h.exists_of_mem_maskTokens hk
    rw [TokenSpan.Covers] at hcovers
    exact ⟨s, hs, by omega, by omega⟩
  · rintro ⟨⟨s, hs, hcovers⟩, hfeed⟩
    obtain ⟨lo, hi, hlo, hhi, hle⟩ := h.ends hs
    obtain ⟨k, hk, hcovers'⟩ := MaskSpan.exists_covering hlo hhi hle hcovers hfeed
    exact ⟨k, List.mem_flatMap.mpr ⟨s, hs, hk⟩, hcovers'⟩

/-- Each token stands on a line of one region. -/
lemma existsUnique_lineToken (h : SourceRegions t.length ss) (hk : k ∈ maskTokens t ss) :
    ∃! s, s ∈ ss ∧ s.LineToken t k := by
  have hpos := h.pos_of_mem_maskTokens hk
  obtain ⟨s, hs, hmem⟩ := List.mem_flatMap.mp hk
  obtain ⟨lo, hi, hlo, hhi, hle⟩ := h.ends hs
  have hcovers : ∀ s' : MaskSpan, s'.LineToken t k → s'.Covers k.start := by
    intro s' hline
    have hstop := hline.le_stop
    rw [TokenSpan.stop] at hstop
    exact ⟨hline.start_le, by omega⟩
  have hline := MaskSpan.lineToken hlo hhi hle hmem
  refine ⟨s, ⟨hs, hline⟩, ?_⟩
  rintro s' ⟨hs', hline'⟩
  exact h.eq_of_covers hs' hs (hcovers s' hline') (hcovers s hline)

end SourceRegions

/-- The tokens of regions that are in order stand in the order of their starts, do not overlap, are
not empty and hold no line feed. They cover just the offsets of the regions that are no line feeds,
and each of them is one whole line of one region, with the kind of the region. -/
theorem maskTokens_exact (t : Text) {ss : List MaskSpan} (h : SourceRegions t.length ss) :
    (maskTokens t ss).Pairwise (fun a b => a.start < b.start) ∧
    (maskTokens t ss).Pairwise (fun a b => ∀ i, ¬ (a.Covers i ∧ b.Covers i)) ∧
    (∀ k ∈ maskTokens t ss, 0 < k.length ∧ ∀ i, k.Covers i → t[i.toNat]? ≠ some '\n') ∧
    (∀ i, (∃ k ∈ maskTokens t ss, k.Covers i) ↔
      (∃ s ∈ ss, s.Covers i) ∧ t[i.toNat]? ≠ some '\n') ∧
    ∀ k ∈ maskTokens t ss, ∃! s, s ∈ ss ∧ s.LineToken t k := by
  have hpairwise := h.maskTokens_pairwise
  refine ⟨?_, ?_, fun k hk => ⟨h.pos_of_mem_maskTokens hk, fun i => h.not_feed hk⟩, h.covers_iff,
    fun k => h.existsUnique_lineToken⟩
  · apply hpairwise.imp_of_mem
    intro a b ha _ hle
    have hpos := h.pos_of_mem_maskTokens ha
    rw [TokenSpan.stop] at hle
    omega
  · apply hpairwise.imp
    rintro a b hle i ⟨⟨_, hlt⟩, hle', _⟩
    omega

/-- A comment over blank lines, and a literal that is not closed. -/
def blankLines : Text :=
  ['/', '*', '\n', '\n', 'a', '\n', '*', '/', '"', 'b', '\n']

/-- The regions of this text, with an empty one inside the comment. -/
def blankLineRegions : List MaskSpan :=
  [⟨0, 8, .blockComment⟩, ⟨4, 0, .lineComment⟩, ⟨8, 2, .literal .string false⟩]

/-- The tokens cover the letter of the comment and not the line feed before it, and the literal
gives a token that is marked as invalid. -/
theorem maskTokens_blankLines :
    SourceRegions blankLines.length blankLineRegions ∧
    (∃ k ∈ maskTokens blankLines blankLineRegions, k.Covers 4) ∧
    (¬ ∃ k ∈ maskTokens blankLines blankLineRegions, k.Covers 3) ∧
    ∃! s, s ∈ blankLineRegions ∧ s.LineToken blankLines ⟨8, 2, .string, .only .invalid⟩ := by
  have hsource : SourceRegions blankLines.length blankLineRegions := by
    refine ⟨by decide, by decide, ?_⟩
    simp only [blankLineRegions, List.pairwise_cons, List.mem_cons, List.not_mem_nil, or_false,
      forall_eq_or_imp, forall_eq, MaskSpan.Covers, MaskSpan.stop]
    refine ⟨⟨?_, ?_⟩, ?_, fun _ h => h.elim, .nil⟩ <;> omega
  obtain ⟨_, _, _, hcovers, hline⟩ := maskTokens_exact blankLines hsource
  refine ⟨hsource, (hcovers 4).mpr ⟨⟨⟨0, 8, .blockComment⟩, by decide, ?_⟩, by decide⟩, ?_,
    hline _ (by decide)⟩
  · exact ⟨by decide, by decide⟩
  · intro h
    exact ((hcovers 3).mp h).2 (by decide)

end LazeEdit
