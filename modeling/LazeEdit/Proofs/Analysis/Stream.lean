import LazeEdit.Proofs.Analysis.Tokens
import LazeEdit.Proofs.Token.Wire

/-!
# The stream of a document

Every span of an analysis is encodable: the tokens of masked regions stand on one line by
construction, and those on lexemes hold no blank and so no line feed. The spans stand one behind the
other since they are merged. So the stream of a document is well formed, and it denotes the spans:
`semanticTokens_denote` states both for every document.
-/

namespace LazeEdit

/-- The modifiers of brackets are in the legend. -/
lemma inLegend_of_mem_bracketTokensFrom {t : Text} {depth : Int} {offset : Nat} {s : TokenSpan}
    (h : s ∈ bracketTokensFrom depth offset t) : s.modifiers.InLegend := by
  induction t generalizing depth offset with
  | nil => cases h
  | cons c cs ih =>
    rw [bracketTokensFrom] at h
    split at h
    · obtain rfl | h := List.mem_cons.mp h
      · exact Modifiers.inLegend_only .opening
      · exact ih h
    split at h
    · obtain rfl | h := List.mem_cons.mp h
      · exact Modifiers.inLegend_only .closing
      · exact ih h
    · exact ih h

/-- The modifiers of the spans that classification gives are in the legend. -/
lemma inLegend_of_mem_tokens {t : Text} {s : TokenSpan} (h : s ∈ (classify t).tokens) :
    s.modifiers.InLegend := by
  simp only [classify, List.mem_append, or_assoc] at h
  obtain h | h | h | h | h | h | h | h := h
  · exact inLegend_of_mem_bracketTokensFrom h
  · obtain ⟨f, _, rfl⟩ := List.mem_map.mp h
    exact Modifiers.inLegend_none
  · obtain ⟨p, _, h⟩ := List.mem_filterMap.mp h
    rw [wordToken?] at h
    split at h
    · cases h
      exact Modifiers.inLegend_none
    split at h
    · cases h
      exact Modifiers.inLegend_none
    · cases h
  · obtain ⟨f, _, h⟩ := List.mem_filterMap.mp h
    rw [FunctionForm.token?] at h
    split at h
    · cases h
    split at h
    · cases h
      exact Modifiers.inLegend_none
    · cases h
      show Modifiers.InLegend (if _ then _ else _)
      split
      · exact Modifiers.inLegend_only .declaration
      · exact Modifiers.inLegend_none
  · obtain ⟨f, _, h⟩ := List.mem_filterMap.mp h
    rw [VariableForm.token?.eq_def] at h
    split at h
    · cases h
    cases f with
    | declared type name =>
      cases h
      exact Modifiers.inLegend_only .declaration
    | used name =>
      cases h
      exact Modifiers.inLegend_none
  · obtain ⟨p, _, rfl⟩ := List.mem_map.mp h
    exact Modifiers.inLegend_none
  · obtain ⟨f, _, rfl⟩ := List.mem_map.mp h
    exact Modifiers.inLegend_only f.base.modifier
  · obtain ⟨p, _, rfl⟩ := List.mem_map.mp h
    exact Modifiers.inLegend_none

/-- The modifiers of masked regions are in the legend. -/
lemma MaskKind.inLegend (kind : MaskKind) : kind.modifiers.InLegend := by
  rw [MaskKind.modifiers]
  split
  · exact Modifiers.inLegend_only .invalid
  · exact Modifiers.inLegend_none

/-- A lexeme of the masked text is a piece of a line of the text. -/
lemma Lexeme.linePiece {t : Text} {k : CharKind} {a b : Nat} (h : Lexeme (maskText t) k a b) :
    LinePiece t a b := by
  have hle := h.le_length
  rw [length_maskText] at hle
  refine ⟨h.lt, hle, ?_⟩
  intro i hai hib hfeed
  obtain ⟨c, hc, hkind⟩ := h.charAt ⟨hai, hib⟩
  -- the masked text has a blank wherever the text has a line feed
  have hblank : isBlank c := by
    obtain e | e := getElem?_maskText t i
    · rw [e, hfeed] at hc
      cases hc
      decide
    · rw [e] at hc
      cases hc
      decide
  exact h.ne_blank ((of_decide_eq_true hkind).symm.trans (charKind_of_isBlank hblank))

/-- Every span of an analysis is encodable. -/
lemma encodable_of_mem_tokens {t : Text} {s : TokenSpan} (h : s ∈ (analyze t).tokens) :
    ∃ a b, s.Encodable t a b := by
  obtain h | h := List.mem_append.mp (mem_of_mem_mergeSpans h)
  · obtain ⟨m, _, a, b, hat, _, _, hpiece, _, hmods⟩ :=
      (maskSpans_ordered t).source.exists_of_mem_maskTokens h
    exact ⟨a, b, hat, hpiece, hmods ▸ m.kind.inLegend⟩
  · obtain ⟨k, a, b, hat, hlex⟩ := onLexeme_of_mem_tokens h
    exact ⟨a, b, hat, hlex.linePiece, inLegend_of_mem_tokens h⟩

/-- The stream of a document has five numbers for each span of its analysis, is well formed from
the start of the text on, and denotes the spans of the analysis in their order. -/
theorem semanticTokens_denote (t : Text) :
    (analyze t).semanticTokens.length = 5 * (analyze t).tokens.length ∧
    Wire.WellFormed (analyze t).source 0 0 0 (analyze t).semanticTokens ∧
    Wire.decode (analyze t).source (analyze t).semanticTokens = some (analyze t).tokens := by
  have hspans : ∀ s ∈ (analyze t).tokens, ∃ a b, s.Encodable t a b :=
    fun s => encodable_of_mem_tokens
  refine ⟨Wire.length_encodeFrom _ _ _, ?_, Wire.decodeFrom_encodeFrom ⟨0, 0⟩ hspans⟩
  obtain ⟨before, line, after, hline, hlo, _⟩ := exists_lineIn (Nat.zero_le t.length)
  have hstart : (Source.ofText t).position (0 : Nat) = ⟨0, 0⟩ := by
    obtain rfl : before = [] := List.length_eq_zero_iff.mp (Nat.le_zero.mp hlo)
    exact hline.position_eq (Nat.le_refl 0) (Nat.zero_le _)
  have hwell := Wire.wellFormed_encodeFrom hline hlo (Nat.le_refl 0) (Nat.zero_le _) hspans
    (mergeSpans_pairwise _) fun s hs => (proper_of_mem_passSpans (mem_of_mem_mergeSpans hs)).1
  rw [hstart] at hwell
  exact hwell

end LazeEdit
