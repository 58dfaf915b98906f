import LazeEdit.Mask.Segment
import LazeEdit.Proofs.Text.Characters
import LazeEdit.Proofs.Text.Lines
import LazeEdit.Proofs.Token.Merge

/-!
# Masked regions

The segments of a text give it back when they are put together (`segments_text`), so that what holds
of a list of segments and the text that it spells holds of masking. The masked text has the length
of the text; at each offset it has the character of the text or a space, and inside a region it has
a space or a line feed (`maskText_of_region`).

The regions of a text are ordered: they stand inside it, one behind the other. The tokens of regions
that are in order stand one behind the other as well, each on one line of one region (`LinePiece`),
also when some of the regions are empty (`SourceRegions`).
-/

namespace LazeEdit

/-! ### Segments -/

/-- A region that begins a text is not empty. -/
lemma leadingRegion?_pos {t : Text} {kind : MaskKind} {n : Nat}
    (h : leadingRegion? t = some (kind, n)) : 0 < n := by
  unfold leadingRegion? at h
  split at h
  · cases h
    exact Nat.succ_pos _
  · cases h
    exact Nat.succ_pos _
  · obtain ⟨q, _, hq⟩ := Option.map_eq_some_iff.mp h
    unfold literalRegion at hq
    dsimp only at hq
    split at hq
    · split at hq <;> cases hq <;> exact Nat.succ_pos _
    · cases hq
      exact Nat.succ_pos _
  · cases h

/-- The segments of a text spell it from the first character that they do not skip. -/
lemma segmentsFrom_text (t : Text) (skip : Nat) :
    (segmentsFrom skip t).flatMap Segment.text = t.drop skip := by
  induction t generalizing skip with
  | nil => rw [segmentsFrom, List.drop_nil, List.flatMap_nil]
  | cons c cs ih =>
    cases skip with
    | succ k => exact ih k
    | zero =>
      rw [segmentsFrom]
      split
      case h_1 kind n hregion =>
        have hpos := leadingRegion?_pos hregion
        obtain ⟨m, rfl⟩ : ∃ m, n = m + 1 := ⟨n - 1, by omega⟩
        rw [List.flatMap_cons, ih]
        show (c :: cs).take (m + 1) ++ cs.drop m = c :: cs
        rw [List.take_succ_cons, List.cons_append, List.take_append_drop]
      case h_2 =>
        rw [List.flatMap_cons, ih]
        rfl

/-- The segments of a text spell it. -/
lemma segments_text (t : Text) : (segments t).flatMap Segment.text = t :=
  segmentsFrom_text t 0

namespace Segment

/-- Masking keeps the length of a segment. -/
lemma length_masked (s : Segment) : s.masked.length = s.text.length := by
  cases s with
  | plain c => rfl
  | region kind t => exact List.length_map _

/-- Masking keeps the length of segments. -/
lemma length_flatMap_masked (ss : List Segment) :
    (ss.flatMap masked).length = (ss.flatMap text).length := by
  rw [List.length_flatMap, List.length_flatMap]
  congr 2
  exact funext length_masked

/-- A character of masked segments is that of the text or a space. -/
lemma getElem?_masked (ss : List Segment) (i : Nat) :
    (ss.flatMap masked)[i]? = (ss.flatMap text)[i]? ∨ (ss.flatMap masked)[i]? = some ' ' := by
  induction ss generalizing i with
  | nil => exact .inl rfl
  | cons s ss ih =>
    rw [List.flatMap_cons, List.flatMap_cons]
    by_cases hi : i < s.text.length
    · have hi' : i < s.masked.length := by rwa [length_masked]
      rw [List.getElem?_append_left hi', List.getElem?_append_left hi]
      cases s with
      | plain c => exact .inl rfl
      | region kind t =>
        show (t.map _)[i]? = t[i]? ∨ (t.map _)[i]? = some ' '
        have hget : t[i]? = some t[i] := List.getElem?_eq_getElem hi
        rw [List.getElem?_map, hget, Option.map_some]
        split
        · exact .inl rfl
        · exact .inr rfl
    · rw [List.getElem?_append_right (by rw [length_masked]; omega),
        List.getElem?_append_right (by omega), length_masked]
      exact ih _

/-- The regions of segments begin where the segments do, or behind. -/
lemma start_le_of_mem_spansFrom {ss : List Segment} {start : Nat} {s : MaskSpan}
    (h : s ∈ spansFrom start ss) : (start : Int) ≤ s.start := by
  induction ss generalizing start with
  | nil => cases h
  | cons x ss ih =>
    cases x with
    | plain c =>
      have := ih h
      omega
    | region kind t =>
      obtain rfl | h := List.mem_cons.mp h
      · exact Int.le_refl _
      · have := ih h
        omega

/-- The regions of segments stand in the text that the segments spell. -/
lemma exists_of_mem_spansFrom {ss : List Segment} {start : Nat} {s : MaskSpan}
    (h : s ∈ spansFrom start ss) :
    ∃ a b : Nat, s.start = a ∧ s.stop = b ∧ a ≤ b ∧ b ≤ start + (ss.flatMap text).length := by
  induction ss generalizing start with
  | nil => cases h
  | cons x ss ih =>
    rw [List.flatMap_cons, List.length_append]
    cases x with
    | plain c =>
      obtain ⟨a, b, ha, hb, hab, hlen⟩ := ih h
      refine ⟨a, b, ha, hb, hab, ?_⟩
      show b ≤ start + (1 + _)
      omega
    | region kind t =>
      show ∃ a b : Nat, _ ∧ _ ∧ _ ∧ b ≤ start + (t.length + _)
      obtain rfl | h := List.mem_cons.mp h
      · exact ⟨start, start + t.length, rfl, rfl, by omega, by omega⟩
      · obtain ⟨a, b, ha, hb, hab, hlen⟩ := ih h
        exact ⟨a, b, ha, hb, hab, by omega⟩

/-- The regions of segments stand one behind the other. -/
lemma spansFrom_pairwise (ss : List Segment) (start : Nat) :
    (spansFrom start ss).Pairwise (fun a b => a.stop ≤ b.start) := by
  induction ss generalizing start with
  | nil => exact List.Pairwise.nil
  | cons x ss ih =>
    cases x with
    | plain c => exact ih (start + 1)
    | region kind t =>
      refine List.Pairwise.cons ?_ (ih (start + t.length))
      intro b hb
      exact start_le_of_mem_spansFrom hb

/-- Inside a region masked segments have a space for each character that is no line feed. -/
lemma masked_of_mem_spansFrom {ss : List Segment} {start i : Nat} {s : MaskSpan}
    (h : s ∈ spansFrom start ss) (hle : s.start ≤ start + i) (hlt : start + i < s.stop) :
    (ss.flatMap masked)[i]? =
      (ss.flatMap text)[i]?.map fun c => if c = '\n' then c else ' ' := by
  induction ss generalizing start i with
  | nil => cases h
  | cons x ss ih =>
    rw [List.flatMap_cons, List.flatMap_cons]
    -- a region behind the first segment is reached only from behind that segment
    have behind : ∀ h : s ∈ spansFrom (start + x.text.length) ss,
        (x.masked ++ ss.flatMap masked)[i]? =
          (x.text ++ ss.flatMap text)[i]?.map fun c => if c = '\n' then c else ' ' := by
      intro h
      have hstart := start_le_of_mem_spansFrom h
      rw [List.getElem?_append_right (by rw [length_masked]; omega),
        List.getElem?_append_right (by omega), length_masked]
      exact ih h (by omega) (by omega)
    cases x with
    | plain c => exact behind h
    | region kind t =>
      obtain rfl | h := List.mem_cons.mp h
      · have hi : i < t.length := by
          have hstop : (start + i : Int) < start + t.length := hlt
          omega
        show (t.map _ ++ _)[i]? = (t ++ _)[i]?.map _
        rw [List.getElem?_append_left (by rwa [List.length_map]), List.getElem?_append_left hi,
          List.getElem?_map]
      · exact behind h

end Segment

/-! ### Masked texts -/

/-- Masking keeps the length of a text. -/
lemma length_maskText (t : Text) : (maskText t).length = t.length := by
  rw [maskText, Segment.length_flatMap_masked, segments_text]

/-- A character of a masked text is that of the text or a space. -/
lemma getElem?_maskText (t : Text) (i : Nat) :
    (maskText t)[i]? = t[i]? ∨ (maskText t)[i]? = some ' ' := by
  have h := Segment.getElem?_masked (segments t) i
  rwa [segments_text] at h

/-- Inside a region a masked text has a space for each character that is no line feed. -/
lemma maskText_of_region {t : Text} {s : MaskSpan} {i : Nat} (h : s ∈ maskSpans t)
    (hle : s.start ≤ i) (hlt : i < s.stop) :
    (maskText t)[i]? = t[i]?.map fun c => if c = '\n' then c else ' ' := by
  have hmask := Segment.masked_of_mem_spansFrom (i := i) h (by omega) (by omega)
  rwa [segments_text] at hmask

/-! ### Ordered regions -/

/-- An offset lies in a region. -/
def MaskSpan.Covers (s : MaskSpan) (i : Int) : Prop :=
  s.start ≤ i ∧ i < s.stop

/-- Regions that stand inside a text of a length, one behind the other. -/
structure OrderedRegions (n : Nat) (ss : List MaskSpan) : Prop where
  inside : ∀ s ∈ ss, ∃ a b : Nat, s.start = a ∧ s.stop = b ∧ a ≤ b ∧ b ≤ n
  apart : ss.Pairwise (fun a b => a.stop ≤ b.start)

/-- The regions of a text are ordered. -/
lemma maskSpans_ordered (t : Text) : OrderedRegions t.length (maskSpans t) := by
  refine ⟨?_, Segment.spansFrom_pairwise (segments t) 0⟩
  intro s hs
  have h := Segment.exists_of_mem_spansFrom hs
  rwa [segments_text, Nat.zero_add] at h

/-- Regions in the order of a text of a length: their ends stand in the text, none begins before one
that is given earlier, and no offset lies in two of them. Some may be empty. -/
structure SourceRegions (n : Nat) (ss : List MaskSpan) : Prop where
  inside : ∀ s ∈ ss, (0 ≤ s.start ∧ s.start ≤ n) ∧ 0 ≤ s.stop ∧ s.stop ≤ n
  sorted : ss.Pairwise (fun a b => a.start ≤ b.start)
  disjoint : ss.Pairwise (fun a b => ∀ i, ¬ (a.Covers i ∧ b.Covers i))

lemma SourceRegions.ends {n : Nat} {ss : List MaskSpan} {s : MaskSpan} (h : SourceRegions n ss)
    (hs : s ∈ ss) : ∃ lo hi : Nat, s.start = lo ∧ s.stop = hi ∧ hi ≤ n := by
  obtain ⟨⟨hstart, _⟩, hstop, hle⟩ := h.inside s hs
  exact ⟨s.start.toNat, s.stop.toNat, by omega, by omega, by omega⟩

/-- Regions that stand one behind the other are in order. -/
lemma OrderedRegions.source {n : Nat} {ss : List MaskSpan} (h : OrderedRegions n ss) :
    SourceRegions n ss := by
  refine ⟨?_, ?_, ?_⟩
  · intro s hs
    obtain ⟨a, b, ha, hb, hab, hle⟩ := h.inside s hs
    omega
  · apply h.apart.imp_of_mem
    intro s s' hs _ hle
    obtain ⟨a, b, ha, hb, hab, _⟩ := h.inside s hs
    omega
  · apply h.apart.imp
    rintro s s' hle i ⟨⟨_, hlt⟩, hle', _⟩
    omega

/-! ### Tokens of regions -/

/-- The tokens of pieces stand on the lines of the text that the pieces make up. -/
lemma exists_of_mem_pieceTokens {kind : MaskKind} {pieces : List Text} {start : Int}
    {k : TokenSpan} (hline : ∀ p ∈ pieces, '\n' ∉ p) (h : k ∈ pieceTokens kind start pieces) :
    ∃ a b : Nat, k.start = start + a ∧ k.stop = start + b ∧
      LinePiece (joinWith ['\n'] pieces) a b ∧
      k.type = kind.tokenType ∧ k.modifiers = kind.modifiers := by
  induction pieces generalizing start with
  | nil => cases h
  | cons p ps ih =>
    have hps : ∀ q ∈ ps, '\n' ∉ q := fun q hq => hline q (List.mem_cons_of_mem p hq)
    -- a token of a later piece lies behind this piece and the line feed that follows it
    have later : ∀ h : k ∈ pieceTokens kind (start + p.length + 1) ps,
        ∃ a b : Nat, k.start = start + a ∧ k.stop = start + b ∧
          LinePiece (joinWith ['\n'] (p :: ps)) a b ∧
          k.type = kind.tokenType ∧ k.modifiers = kind.modifiers := by
      intro h
      obtain ⟨a, b, ha, hb, hpiece, hkind⟩ := ih hps h
      cases ps with
      | nil => cases h
      | cons q qs =>
        have hjoin : joinWith ['\n'] (p :: q :: qs) = (p ++ ['\n']) ++ joinWith ['\n'] (q :: qs) :=
          rfl
        have hlen : (p ++ ['\n']).length = p.length + 1 := List.length_append
        refine ⟨p.length + 1 + a, p.length + 1 + b, by omega, by omega, ⟨?_, ?_, ?_⟩, hkind⟩
        · have := hpiece.lt
          omega
        · have := hpiece.le
          rw [hjoin, List.length_append, hlen]
          omega
        · intro i hai hib
          rw [hjoin, List.getElem?_append_right (by omega), hlen]
          exact hpiece.line _ (by omega) (by omega)
    rw [pieceTokens] at h
    split at h
    case isTrue => exact later h
    case isFalse hne =>
      obtain rfl | h := List.mem_cons.mp h
      · have hpos : 0 < p.length := List.length_pos_iff.mpr (by simpa using hne)
        have hbegin : p <+: joinWith ['\n'] (p :: ps) := by
          cases ps with
          | nil => exact List.prefix_refl p
          | cons q qs =>
            rw [joinWith, List.append_assoc]
            exact List.prefix_append p _
        refine ⟨0, p.length, (Int.add_zero start).symm, rfl, ⟨hpos, hbegin.length_le, ?_⟩, rfl, rfl⟩
        intro i _ hi
        rw [List.prefix_iff_getElem?.mp hbegin i hi]
        intro e
        apply hline p List.mem_cons_self
        rw [← Option.some.inj e]
        exact List.getElem_mem hi
      · exact later h

/-- The tokens of pieces begin where the pieces do, or behind. -/
lemma start_le_of_mem_pieceTokens {kind : MaskKind} {pieces : List Text} {start : Int}
    {k : TokenSpan} (h : k ∈ pieceTokens kind start pieces) : start ≤ k.start := by
  induction pieces generalizing start with
  | nil => cases h
  | cons p ps ih =>
    rw [pieceTokens] at h
    split at h
    case isTrue =>
      have := ih h
      omega
    case isFalse =>
      obtain rfl | h := List.mem_cons.mp h
      · exact Int.le_refl _
      · have := ih h
        omega

/-- The tokens of pieces stand one behind the other, with a line feed between them. -/
lemma pieceTokens_pairwise (kind : MaskKind) (pieces : List Text) (start : Int) :
    (pieceTokens kind start pieces).Pairwise (fun a b => a.stop < b.start) := by
  induction pieces generalizing start with
  | nil => exact List.Pairwise.nil
  | cons p ps ih =>
    rw [pieceTokens]
    split
    · exact ih _
    · refine List.Pairwise.cons ?_ (ih _)
      intro b hb
      have hle := start_le_of_mem_pieceTokens hb
      show start + (p.length : Int) < b.start
      omega

/-- A token of a region stands on one line of the region, with the kind of the region. -/
lemma MaskSpan.exists_of_mem_tokens {t : Text} {s : MaskSpan} {k : TokenSpan} {lo hi : Nat}
    (hlo : s.start = lo) (hhi : s.stop = hi) (hle : hi ≤ t.length) (h : k ∈ s.tokens t) :
    ∃ a b, k.At a b ∧ lo ≤ a ∧ b ≤ hi ∧ LinePiece t a b ∧
      k.type = s.kind.tokenType ∧ k.modifiers = s.kind.modifiers := by
  rw [MaskSpan.tokens, hlo, hhi] at h
  obtain ⟨a, b, ha, hb, hpiece, hkind⟩ :=
    exists_of_mem_pieceTokens (fun p hp => not_mem_of_mem_splitAtChar hp) h
  rw [joinWith_splitAtChar] at hpiece
  have hlen := hpiece.le
  rw [length_slice hle] at hlen
  refine ⟨lo + a, lo + b, ⟨by omega, by omega⟩, by omega, by have := hpiece.lt; omega, ⟨?_, ?_, ?_⟩,
    hkind⟩
  · have := hpiece.lt
    omega
  · have := hpiece.lt
    omega
  · intro i hai hib
    have hline := hpiece.line (i - lo) (by omega) (by omega)
    rwa [getElem?_slice hle (by omega), Nat.add_sub_cancel' (by omega)] at hline

/-- The tokens of regions stand on the lines of their regions. -/
lemma SourceRegions.exists_of_mem_maskTokens {t : Text} {ss : List MaskSpan} {k : TokenSpan}
    (h : SourceRegions t.length ss) (hk : k ∈ maskTokens t ss) :
    ∃ s ∈ ss, ∃ a b : Nat, k.At a b ∧ s.start ≤ a ∧ b ≤ s.stop ∧ LinePiece t a b ∧
      k.type = s.kind.tokenType ∧ k.modifiers = s.kind.modifiers := by
  obtain ⟨s, hs, hk⟩ := List.mem_flatMap.mp hk
  obtain ⟨lo, hi, hlo, hhi, hle⟩ := h.ends hs
  obtain ⟨a, b, hat, hloa, hbhi, hpiece, hkind⟩ := s.exists_of_mem_tokens hlo hhi hle hk
  exact ⟨s, hs, a, b, hat, by omega, by omega, hpiece, hkind⟩

/-- The tokens of regions stand one behind the other. -/
lemma SourceRegions.maskTokens_pairwise {t : Text} {ss : List MaskSpan}
    (h : SourceRegions t.length ss) :
    (maskTokens t ss).Pairwise (fun a b => a.stop ≤ b.start) := by
  rw [maskTokens, List.pairwise_flatMap]
  refine ⟨fun s _ => (pieceTokens_pairwise _ _ _).imp Int.le_of_lt, ?_⟩
  apply (h.sorted.and h.disjoint).imp_of_mem
  rintro s s' hs hs' ⟨hle, hdisjoint⟩ k hk k' hk'
  obtain ⟨lo, hi, hlo, hhi, hbound⟩ := h.ends hs
  obtain ⟨lo', hi', hlo', hhi', hbound'⟩ := h.ends hs'
  obtain ⟨a, b, hat, ha, hb, hpiece, _⟩ := s.exists_of_mem_tokens hlo hhi hbound hk
  obtain ⟨a', b', hat', ha', hb', hpiece', _⟩ := s'.exists_of_mem_tokens hlo' hhi' hbound' hk'
  have hlt := hpiece.lt
  have hlt' := hpiece'.lt
  -- neither region is empty, so the second one does not begin inside the first
  have hapart := hdisjoint s'.start
  rw [MaskSpan.Covers, MaskSpan.Covers] at hapart
  rw [hat.2, hat'.1]
  omega

end LazeEdit
