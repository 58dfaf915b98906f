import LazeEdit.Analysis
import LazeEdit.Proofs.Classification.Lexemes
import LazeEdit.Proofs.Mask.Regions

/-!
# The spans of a document

The spans that an analysis merges are the tokens of the masked regions and the lexemes of the masked
text. A region is blank in the masked text and a lexeme is not, so the two never meet. Spans of one
sort that share an offset have the same range, so the spans are aligned and a merge loses none of
their ranges: `analyze_tokens_aligned` puts this together for every document.
-/

namespace LazeEdit

/-- The spans that the passes over a document give, before they are merged. -/
def passSpans (t : Text) : List TokenSpan :=
  maskTokens t (maskSpans t) ++ (classify (maskText t)).tokens

/-! ### Regions and lexemes -/

/-- The token of a region stands on one line, and the masked text is blank there. -/
lemma blank_of_mem_maskTokens {t : Text} {s : TokenSpan} (h : s ∈ maskTokens t (maskSpans t)) :
    ∃ a b, s.At a b ∧ LinePiece t a b ∧
      ∀ i, a ≤ i → i < b → CharAt (maskText t) isBlank i := by
  obtain ⟨m, hm, a, b, hat, hma, hbm, hpiece, _⟩ :=
    (maskSpans_ordered t).source.exists_of_mem_maskTokens h
  refine ⟨a, b, hat, hpiece, ?_⟩
  intro i hai hib
  have hlt : i < t.length := Nat.lt_of_lt_of_le hib hpiece.le
  have hmask := maskText_of_region hm (i := i) (by omega) (by omega)
  have hline := hpiece.line i hai hib
  rw [List.getElem?_eq_getElem hlt] at hmask hline
  rw [Option.map_some, if_neg (fun e => hline (by rw [e]))] at hmask
  exact ⟨' ', hmask, by decide⟩

/-- The token of a region and a span on a lexeme share no offset. -/
lemma not_covers_of_onLexeme {t : Text} {s u : TokenSpan} (hs : s ∈ maskTokens t (maskSpans t))
    (hu : u.OnLexeme (maskText t)) {i : Int} (hsi : s.Covers i) (hui : u.Covers i) : False := by
  obtain ⟨a, b, hat, _, hblank⟩ := blank_of_mem_maskTokens hs
  obtain ⟨k, a', b', hat', hlex⟩ := hu
  obtain ⟨j, rfl, haj, hjb⟩ := hat.covers_iff.mp hsi
  obtain ⟨j', e, haj', hjb'⟩ := hat'.covers_iff.mp hui
  obtain rfl : j = j' := by omega
  obtain ⟨c, hc, hkind⟩ := (hblank j haj hjb).both (hlex.charAt ⟨haj', hjb'⟩)
  exact hlex.ne_blank ((of_decide_eq_true hkind).symm.trans (charKind_of_isBlank hc))

/-- Spans on lexemes that share an offset have the same range. -/
lemma TokenSpan.OnLexeme.sameRange {t : Text} {s u : TokenSpan} (hs : s.OnLexeme t)
    (hu : u.OnLexeme t) {i : Int} (hsi : s.Covers i) (hui : u.Covers i) : s.SameRange u := by
  obtain ⟨k, a, b, hat, hlex⟩ := hs
  obtain ⟨k', a', b', hat', hlex'⟩ := hu
  obtain ⟨j, rfl, hj⟩ := hat.covers_iff.mp hsi
  obtain ⟨j', e, hj'⟩ := hat'.covers_iff.mp hui
  obtain rfl : j = j' := by omega
  obtain ⟨rfl, rfl⟩ := hlex.eq_of_overlap hlex' hj hj'
  exact hat.sameRange hat'

/-- The spans of the passes are aligned. -/
lemma passSpans_aligned (t : Text) : Aligned (passSpans t) := by
  intro s hs u hu i hsi hui
  -- a token of a region meets no lexeme, and two of one sort that meet are one
  obtain hs | hs := List.mem_append.mp hs
  · obtain hu | hu := List.mem_append.mp hu
    · have hpairwise := (maskSpans_ordered t).source.maskTokens_pairwise
      obtain rfl := TokenSpan.eq_of_covers hpairwise hs hu hsi hui
      exact ⟨rfl, rfl⟩
    · exact (not_covers_of_onLexeme hs (onLexeme_of_mem_tokens hu) hsi hui).elim
  · obtain hu | hu := List.mem_append.mp hu
    · exact (not_covers_of_onLexeme hu (onLexeme_of_mem_tokens hs) hui hsi).elim
    · exact (onLexeme_of_mem_tokens hs).sameRange (onLexeme_of_mem_tokens hu) hsi hui

/-- The spans of the passes stand in the text and are not empty. -/
lemma proper_of_mem_passSpans {t : Text} {s : TokenSpan} (h : s ∈ passSpans t) : s.Proper := by
  obtain h | h := List.mem_append.mp h
  · obtain ⟨a, b, hat, hpiece, _⟩ := blank_of_mem_maskTokens h
    exact hat.proper hpiece.lt
  · obtain ⟨k, a, b, hat, hlex⟩ := onLexeme_of_mem_tokens h
    exact hat.proper hlex.lt

/-! ### The spans of an analysis -/

/-- The tokens of masked regions are kept as they are. -/
lemma mem_tokens_of_mem_maskTokens {t : Text} {s : TokenSpan}
    (h : s ∈ maskTokens t (maskSpans t)) : s ∈ (analyze t).tokens := by
  have hmem : s ∈ passSpans t := List.mem_append_left _ h
  have hproper := proper_of_mem_passSpans hmem
  obtain ⟨k, hk, hsame, _⟩ := (passSpans_aligned t).exists_kept hmem hproper
  have hcov := TokenSpan.covers_start hproper.2
  have hkcov := (hsame.covers_iff s.start).mpr hcov
  obtain hmask | hlex := List.mem_append.mp (mem_of_mem_mergeSpans hk)
  · have hpairwise := (maskSpans_ordered t).source.maskTokens_pairwise
    obtain rfl := TokenSpan.eq_of_covers hpairwise hmask h hkcov hcov
    exact hk
  · exact (not_covers_of_onLexeme h (onLexeme_of_mem_tokens hlex) hcov hkcov).elim

/-- Where a span stands on a lexeme of the masked text, masking has changed nothing, and no
character is blank. -/
lemma spanText_of_onLexeme {t : Text} {s : TokenSpan} (h : s.OnLexeme (maskText t)) :
    slice t s.start s.stop = slice (maskText t) s.start s.stop ∧
      ∀ c ∈ slice t s.start s.stop, ¬ isBlank c := by
  obtain ⟨k, a, b, hat, hlex⟩ := h
  have hle := hlex.le_length
  have hle' := hle
  rw [length_maskText] at hle'
  have hsame : slice t a b = slice (maskText t) a b := by
    apply slice_congr hle' hle
    intro i hai hib
    obtain e | e := getElem?_maskText t i
    · exact e.symm
    · -- a character of a lexeme is not the space that masking puts
      obtain ⟨c, hc, hkind⟩ := hlex.charAt ⟨hai, hib⟩
      rw [e] at hc
      cases hc
      exact (hlex.ne_blank (of_decide_eq_true hkind).symm).elim
  rw [hat.1, hat.2]
  refine ⟨hsame, ?_⟩
  intro c hc hblank
  rw [hsame] at hc
  obtain ⟨i, hi, rfl⟩ := List.mem_iff_getElem.mp hc
  have hlen := hi
  rw [length_slice hle] at hlen
  have hget := getElem?_slice hle hlen
  rw [List.getElem?_eq_getElem hi] at hget
  obtain ⟨d, hd, hkind⟩ := hlex.charAt (i := a + i) (by omega)
  rw [← hget] at hd
  cases hd
  exact hlex.ne_blank ((of_decide_eq_true hkind).symm.trans (charKind_of_isBlank hblank))

/-- An analysis merges the spans of the passes, and those that share an offset have the same range.
Merging them drops a span only for one of the same range that ranks at least as high, so that it
covers the offsets that the passes cover; it keeps the tokens of comments and literals as they are,
and every other span stands where masking has changed nothing and holds no blank. -/
theorem analyze_tokens_aligned (t : Text) :
    (analyze t).tokens = mergeSpans (passSpans t) ∧
    (∀ s ∈ passSpans t, ∀ u ∈ passSpans t, ∀ i, s.Covers i → u.Covers i →
      s.start = u.start ∧ s.length = u.length) ∧
    (∀ s ∈ passSpans t, ∃ k ∈ (analyze t).tokens, k ∈ passSpans t ∧
      k.start = s.start ∧ k.length = s.length ∧ k.type.rank ≤ s.type.rank) ∧
    (∀ i, (∃ k ∈ (analyze t).tokens, k.Covers i) ↔ ∃ s ∈ passSpans t, s.Covers i) ∧
    (∀ s ∈ maskTokens t (analyze t).masks, s ∈ (analyze t).tokens) ∧
    (∀ k ∈ (analyze t).tokens, k ∉ maskTokens t (analyze t).masks →
      (analyze t).spanText k = slice (analyze t).masked k.start k.stop ∧
      ∀ c ∈ (analyze t).spanText k, ¬ isBlank c) := by
  have haligned := passSpans_aligned t
  refine ⟨rfl, haligned, ?_, ?_, ?_, ?_⟩
  · intro s hs
    obtain ⟨k, hk, hsame, hrank⟩ := haligned.exists_kept hs (proper_of_mem_passSpans hs)
    exact ⟨k, hk, mem_of_mem_mergeSpans hk, hsame.1, hsame.2, hrank⟩
  · exact haligned.covers_iff fun s => proper_of_mem_passSpans
  · exact fun s => mem_tokens_of_mem_maskTokens
  · intro k hk hmask
    obtain h | h := List.mem_append.mp (mem_of_mem_mergeSpans hk)
    · exact absurd h hmask
    · exact spanText_of_onLexeme (onLexeme_of_mem_tokens h)

end LazeEdit
