import LazeEdit.Proofs.Mask.Regions
import Mathlib.Data.List.Infix
import Mathlib.Data.List.TakeWhile

/-!
# The grammar of regions

`Reads` gives the grammar of comments and literals: what a region of a kind is made of, and what
stands behind it. A region that begins a text reads as its kind says (`exists_reads`).

The regions of a text are tied to `leadingRegion?` by their offsets: at the start of a region of the
text a region begins there, and at an offset that no region covers none begins
(`leadingRegion?_of_mem_maskSpans`, `leadingRegion?_of_uncovered`). Masking blanks out what the
regions cover and nothing else, so a masked text holds no opening mark of a region: two characters
that open a comment there would be characters of the text that no region covers. A text without
opening marks has plain segments only, and masking leaves it as it is.
-/

namespace LazeEdit

/-! ### What regions look like -/

/-- A text that begins with the end of a line, or is empty. -/
def EndsLine (t : Text) : Prop :=
  ∀ c ∈ t.head?, c = '\n'

/-- The characters of a region of a kind, and the text behind it. -/
inductive Reads : MaskKind → Text → Text → Prop where
  | lineComment {body rest : Text} :
    '\n' ∉ body →
    EndsLine rest →
    Reads .lineComment ('/' :: '/' :: body) rest
  | blockComment {body rest : Text} :
    Reads .blockComment ('/' :: '*' :: (body ++ ['*', '/'])) rest
  | openComment {body : Text} :
    Reads .blockComment ('/' :: '*' :: body) []
  | literal {q : Quote} {first last : Char} {body rest : Text} :
    q.opens first →
    (∀ c ∈ body, c ≠ '\n' ∧ ¬ q.closes c) →
    q.closes last →
    Reads (.literal q true) (first :: (body ++ [last])) rest
  | openLiteral {q : Quote} {first : Char} {body rest : Text} :
    q.opens first →
    (∀ c ∈ body, c ≠ '\n' ∧ ¬ q.closes c) →
    EndsLine rest →
    Reads (.literal q false) (first :: body) rest

/-- The rest of a block comment ends with its closing mark or with the text. -/
lemma exists_blockCommentRest (t : Text) :
    ∃ body rest, t = body ++ rest ∧ body.length = blockCommentRest t ∧
      (rest = [] ∨ ∃ inner, body = inner ++ ['*', '/']) := by
  -- one or two characters before the rest of a comment belong to the comment
  have extend : ∀ {u : Text} (front : Text),
      (∃ body rest, u = body ++ rest ∧ body.length = blockCommentRest u ∧
        (rest = [] ∨ ∃ inner, body = inner ++ ['*', '/'])) →
      ∃ body rest, front ++ u = body ++ rest ∧
        body.length = blockCommentRest u + front.length ∧
        (rest = [] ∨ ∃ inner, body = inner ++ ['*', '/']) := by
    rintro u front ⟨body, rest, hu, hlen, hend⟩
    refine ⟨front ++ body, rest, by rw [List.append_assoc, ← hu], ?_, hend.imp_right ?_⟩
    · rw [List.length_append, hlen, Nat.add_comm]
    · rintro ⟨inner, rfl⟩
      exact ⟨front ++ inner, (List.append_assoc _ _ _).symm⟩
  fun_induction blockCommentRest t with
  | case1 cs => exact ⟨['*', '/'], cs, rfl, rfl, .inr ⟨[], rfl⟩⟩
  | case2 cs ih => exact extend ['/', '/'] ih
  | case3 cs ih => exact extend ['/', '*'] ih
  | case4 c cs _ _ _ ih => exact extend [c] ih
  | case5 => exact ⟨[], [], rfl, rfl, .inl rfl⟩

/-- A literal reads as its kind says. -/
lemma exists_reads_literal {q : Quote} {first : Char} (hq : q.opens first) (t : Text) :
    ∃ w rest, first :: t = w ++ rest ∧ w.length = (literalRegion q t).2 ∧
      Reads (literalRegion q t).1 w rest := by
  obtain ⟨rest, ht, hhead⟩ := exists_takeWhile_append (fun c => !q.closes c && c != '\n') t
  have hbody : ∀ c ∈ literalBody q t, c ≠ '\n' ∧ ¬ q.closes c := by
    intro c hc
    have hp := List.mem_takeWhile_imp hc
    simp only [Bool.and_eq_true, Bool.not_eq_true', bne_iff_ne] at hp
    exact ⟨hp.2, by rw [hp.1]; exact Bool.false_ne_true⟩
  change t = literalBody q t ++ rest at ht
  have hdrop : t.drop (literalBody q t).length = rest :=
    (congrArg (List.drop _) ht).trans List.drop_left
  unfold literalRegion
  simp only [hdrop]
  cases rest with
  | nil =>
    exact ⟨first :: literalBody q t, [], by rw [List.cons_append, ← ht], rfl,
      .openLiteral hq hbody fun c hc => nomatch hc⟩
  | cons last rest =>
    by_cases hlast : q.closes last
    · simp only [hlast, if_true]
      refine ⟨first :: (literalBody q t ++ [last]), rest, ?_, by simp, .literal hq hbody hlast⟩
      rw [List.cons_append, List.append_assoc]
      exact congrArg _ ht
    · simp only [hlast, Bool.false_eq_true, if_false]
      refine ⟨first :: literalBody q t, last :: rest, by rw [List.cons_append, ← ht], rfl,
        .openLiteral hq hbody ?_⟩
      -- what ends the literal without closing it is the end of its line
      have hp := hhead last rfl
      simp only [hlast, Bool.not_false, Bool.true_and, bne_eq_false_iff_eq] at hp
      rintro c ⟨⟩
      exact hp

/-- A region that begins a text reads as its kind says. -/
lemma exists_reads {t : Text} {kind : MaskKind} {n : Nat} (h : leadingRegion? t = some (kind, n)) :
    ∃ w rest, t = w ++ rest ∧ w.length = n ∧ Reads kind w rest := by
  unfold leadingRegion? at h
  split at h
  case h_1 cs =>
    cases h
    obtain ⟨rest, hcs, hhead⟩ := exists_takeWhile_append (· != '\n') cs
    refine ⟨'/' :: '/' :: cs.takeWhile (· != '\n'), rest, ?_, rfl, .lineComment ?_ ?_⟩
    · rw [List.cons_append, List.cons_append, ← hcs]
    · intro hmem
      exact absurd (List.mem_takeWhile_imp hmem) (by decide)
    · intro c hc
      exact bne_eq_false_iff_eq.mp (hhead c hc)
  case h_2 cs =>
    cases h
    obtain ⟨body, rest, rfl, hlen, hend⟩ := exists_blockCommentRest cs
    refine ⟨'/' :: '*' :: body, rest, rfl, by rw [← hlen]; rfl, ?_⟩
    obtain rfl | ⟨inner, rfl⟩ := hend
    · exact .openComment
    · exact .blockComment
  case h_3 c cs _ _ =>
    obtain ⟨q, hq, hregion⟩ := Option.map_eq_some_iff.mp h
    have hopens := List.find?_some hq
    obtain ⟨w, rest, ht, hlen, hreads⟩ := exists_reads_literal hopens cs
    rw [hregion] at hlen hreads
    exact ⟨w, rest, ht, hlen, hreads⟩
  case h_4 => cases h

/-- A blank begins no literal. -/
lemma Quote.ofOpening?_of_isBlank {c : Char} (h : isBlank c) : Quote.ofOpening? c = none := by
  rw [Quote.ofOpening?, List.find?_eq_none]
  rintro q - hq
  cases q <;> simp only [Quote.opens, Bool.or_eq_true, beq_iff_eq, or_assoc] at hq
  · obtain rfl | rfl | rfl := hq <;> cases h
  · obtain rfl | rfl | rfl := hq <;> cases h
  · subst hq
    cases h

/-- A region lies in the text that it begins. -/
lemma leadingRegion?_le_length {t : Text} {kind : MaskKind} {n : Nat}
    (h : leadingRegion? t = some (kind, n)) : n ≤ t.length := by
  obtain ⟨w, rest, rfl, rfl, _⟩ := exists_reads h
  rw [List.length_append]
  exact Nat.le_add_right _ _

/-- Where no region begins there is no opening mark. -/
lemma leadingRegion?_eq_none {t : Text} :
    leadingRegion? t = none ↔
      ¬ ['/', '/'] <+: t ∧ ¬ ['/', '*'] <+: t ∧ ∀ c ∈ t.head?, Quote.ofOpening? c = none := by
  unfold leadingRegion?
  split
  case h_1 cs => simp
  case h_2 cs => simp
  case h_3 c cs hline hblock =>
    have hmark : ∀ d, (∀ ds, c = '/' → cs = d :: ds → False) → ¬ ['/', d] <+: c :: cs := by
      rintro d hd ⟨ds, e⟩
      cases e
      exact hd ds rfl rfl
    simp [hmark '/' fun ds => hline ds, hmark '*' fun ds => hblock ds]
  case h_4 => simp

/-! ### Where regions stand -/

/-- The lengths of a region and of the text that it is cut from. -/
lemma length_take_of_leadingRegion? {t : Text} {kind : MaskKind} {n : Nat}
    (h : leadingRegion? t = some (kind, n)) : (t.take n).length = n := by
  rw [List.length_take, Nat.min_eq_left (leadingRegion?_le_length h)]

/-- A region of a text begins where it stands. -/
lemma leadingRegion?_of_mem_spansFrom {t : Text} (skip start : Nat) {s : MaskSpan}
    (h : s ∈ Segment.spansFrom (start + skip) (segmentsFrom skip t)) :
    ∃ o n : Nat, s.start = start + o ∧ s.length = n ∧
      leadingRegion? (t.drop o) = some (s.kind, n) := by
  induction t generalizing skip start with
  | nil => cases h
  | cons c cs ih =>
    have later : ∀ {k : Nat}, s ∈ Segment.spansFrom (start + 1 + k) (segmentsFrom k cs) →
        ∃ o n : Nat, s.start = start + o ∧ s.length = n ∧
          leadingRegion? ((c :: cs).drop o) = some (s.kind, n) := by
      intro k h
      obtain ⟨o, n, hstart, hlen, hregion⟩ := ih k (start + 1) h
      exact ⟨o + 1, n, by omega, hlen, hregion⟩
    cases skip with
    | succ k =>
      rw [segmentsFrom, ← Nat.add_assoc, Nat.add_right_comm] at h
      exact later h
    | zero =>
      rw [segmentsFrom] at h
      split at h
      case h_1 kind n hregion =>
        rw [Segment.spansFrom, length_take_of_leadingRegion? hregion] at h
        obtain rfl | h := List.mem_cons.mp h
        · exact ⟨0, n, rfl, rfl, hregion⟩
        · have hpos := leadingRegion?_pos hregion
          rw [show start + 0 + n = start + 1 + (n - 1) by omega] at h
          exact later h
      case h_2 => exact later (k := 0) h

/-- At an offset that no region covers no region begins. -/
lemma leadingRegion?_of_uncoveredFrom {t : Text} {skip i : Nat} (start : Nat) (hi : i < t.length)
    (hskip : skip ≤ i)
    (h : ∀ s ∈ Segment.spansFrom (start + skip) (segmentsFrom skip t), ¬ s.Covers (start + i)) :
    leadingRegion? (t.drop i) = none := by
  induction t generalizing skip start i with
  | nil => cases hi
  | cons c cs ih =>
    -- an offset behind the first character is one of the text behind it
    have later : ∀ {k : Nat}, k < i →
        (∀ s ∈ Segment.spansFrom (start + 1 + k) (segmentsFrom k cs), ¬ s.Covers (start + i)) →
        leadingRegion? ((c :: cs).drop i) = none := by
      intro k hk h
      obtain ⟨j, rfl⟩ : ∃ j, i = j + 1 := ⟨i - 1, by omega⟩
      refine ih (start + 1) (Nat.lt_of_succ_lt_succ hi) (Nat.le_of_lt_succ hk) ?_
      intro s hs
      have hnot := h s hs
      rwa [show ((start : Int) + (j + 1 : Nat)) = ((start + 1 : Nat) : Int) + j by omega] at hnot
    cases skip with
    | succ k =>
      rw [segmentsFrom, ← Nat.add_assoc, Nat.add_right_comm] at h
      exact later hskip h
    | zero =>
      rw [segmentsFrom] at h
      split at h
      case h_1 kind n hregion =>
        have hpos := leadingRegion?_pos hregion
        rw [Segment.spansFrom, length_take_of_leadingRegion? hregion] at h
        have hbehind : n ≤ i := by
          by_contra hlt
          apply h _ List.mem_cons_self
          show ((start + 0 : Nat) : Int) ≤ _ ∧ _ < ((start + 0 : Nat) : Int) + n
          omega
        rw [show start + 0 + n = start + 1 + (n - 1) by omega] at h
        exact later (by omega) fun s hs => h s (List.mem_cons_of_mem _ hs)
      case h_2 hregion =>
        cases i with
        | zero => exact hregion
        | succ j => exact later (k := 0) (Nat.succ_pos j) h

/-- Masked segments have the characters of the text where no region covers them. -/
lemma Segment.masked_of_uncovered {ss : List Segment} (start : Nat) {i : Nat}
    (h : ∀ s ∈ spansFrom start ss, ¬ s.Covers (start + i)) :
    (ss.flatMap masked)[i]? = (ss.flatMap text)[i]? := by
  induction ss generalizing start i with
  | nil => rfl
  | cons x ss ih =>
    rw [List.flatMap_cons, List.flatMap_cons]
    -- behind the first segment the offset is one of the later segments
    have behind : x.text.length ≤ i →
        (∀ s ∈ spansFrom (start + x.text.length) ss, ¬ s.Covers (start + i)) →
        (x.masked ++ ss.flatMap masked)[i]? = (x.text ++ ss.flatMap text)[i]? := by
      intro hle h
      rw [List.getElem?_append_right (by rwa [length_masked]), List.getElem?_append_right hle,
        length_masked]
      apply ih
      intro s hs
      have hnot := h s hs
      rwa [show ((start + x.text.length : Nat) : Int) + (i - x.text.length : Nat) = start + i by
        omega]
    cases x with
    | plain c =>
      cases i with
      | zero => rfl
      | succ j => exact behind (Nat.succ_le_succ (Nat.zero_le j)) h
    | region kind t =>
      have hle : t.length ≤ i := by
        by_contra hlt
        apply h _ List.mem_cons_self
        show ((start : Nat) : Int) ≤ _ ∧ _ < ((start : Nat) : Int) + t.length
        omega
      exact behind hle fun s hs => h s (List.mem_cons_of_mem _ hs)

variable {t : Text} {s : MaskSpan} {i : Nat}

/-- A region of a text begins where it stands. -/
lemma leadingRegion?_of_mem_maskSpans (h : s ∈ maskSpans t) :
    ∃ o n : Nat, s.start = o ∧ s.length = n ∧ leadingRegion? (t.drop o) = some (s.kind, n) := by
  obtain ⟨o, n, hstart, hlen, hregion⟩ := leadingRegion?_of_mem_spansFrom 0 0 h
  exact ⟨o, n, by omega, hlen, hregion⟩

/-- At an offset that no region covers no region begins. -/
lemma leadingRegion?_of_uncovered (hi : i < t.length) (h : ∀ s ∈ maskSpans t, ¬ s.Covers i) :
    leadingRegion? (t.drop i) = none := by
  refine leadingRegion?_of_uncoveredFrom 0 hi (Nat.zero_le i) fun s hs => ?_
  have hnot := h s hs
  rwa [← Int.zero_add (i : Int)] at hnot

/-- Where no region covers it a text is not masked. -/
lemma maskText_of_uncovered (h : ∀ s ∈ maskSpans t, ¬ s.Covers i) :
    (maskText t)[i]? = t[i]? := by
  have hzero : ∀ s ∈ Segment.spansFrom 0 (segments t), ¬ s.Covers ((0 : Nat) + i) := by
    intro s hs
    have hnot := h s hs
    rwa [← Int.zero_add (i : Int)] at hnot
  have hmask := Segment.masked_of_uncovered 0 hzero
  rwa [segments_text] at hmask

/-- A masked text has the characters of the text and spaces, and what it has in a region is
blank. -/
lemma uncovered_of_maskText {c : Char} (hc : (maskText t)[i]? = some c) (hblank : ¬ isBlank c) :
    t[i]? = some c ∧ ∀ s ∈ maskSpans t, ¬ s.Covers i := by
  obtain e | e := getElem?_maskText t i
  · refine ⟨e.symm.trans hc, ?_⟩
    rintro s hs ⟨hle, hlt⟩
    have hmask := maskText_of_region hs hle hlt
    rw [← e, hc, Option.map_some] at hmask
    split at hmask
    case isTrue hfeed => exact hblank (by rw [hfeed]; decide)
    case isFalse =>
      cases hmask
      exact hblank (by decide)
  · rw [hc] at e
    cases e
    exact (hblank (by decide)).elim

/-! ### The shape of masked texts -/

/-- The regions of a text are not empty. -/
lemma length_pos_of_mem_maskSpans (h : s ∈ maskSpans t) : 0 < s.length := by
  obtain ⟨o, n, _, hlen, hregion⟩ := leadingRegion?_of_mem_maskSpans h
  have := leadingRegion?_pos hregion
  omega

/-- The line feeds of a masked text are those of the text. -/
lemma maskText_newline (t : Text) (i : Nat) :
    (maskText t)[i]? = some '\n' ↔ t[i]? = some '\n' := by
  by_cases hcov : ∃ s ∈ maskSpans t, s.Covers i
  · obtain ⟨s, hs, hle, hlt⟩ := hcov
    rw [maskText_of_region hs hle hlt]
    cases t[i]? with
    | none => rfl
    | some c =>
      rw [Option.map_some]
      split
      case isTrue => rfl
      case isFalse hc => simp [hc]
  · rw [maskText_of_uncovered fun s hs hcov' => hcov ⟨s, hs, hcov'⟩]

/-- The regions of a text are not empty and stand in it one behind the other. The masked text has
the length and the line feeds of the text, a space for each other character of a region, and
elsewhere the characters of the text. -/
theorem maskText_shape (t : Text) :
    (maskSpans t).Pairwise (fun a b => a.start < b.start ∧ a.stop ≤ b.start) ∧
    (∀ s ∈ maskSpans t, 0 < s.length ∧ 0 ≤ s.start ∧ s.stop ≤ t.length) ∧
    (maskText t).length = t.length ∧
    ∀ i : Nat, i < t.length →
      ((maskText t)[i]? = some '\n' ↔ t[i]? = some '\n') ∧
      ((∃ s ∈ maskSpans t, s.Covers i) → t[i]? ≠ some '\n' → (maskText t)[i]? = some ' ') ∧
      ((∀ s ∈ maskSpans t, ¬ s.Covers i) → (maskText t)[i]? = t[i]?) := by
  obtain ⟨hinside, hapart⟩ := maskSpans_ordered t
  refine ⟨?_, ?_, length_maskText t, ?_⟩
  · apply hapart.imp_of_mem
    intro a b ha _ hle
    have hpos := length_pos_of_mem_maskSpans ha
    rw [MaskSpan.stop] at hle
    exact ⟨by omega, hle⟩
  · intro s hs
    obtain ⟨a, b, ha, hb, _, hle⟩ := hinside s hs
    exact ⟨length_pos_of_mem_maskSpans hs, by omega, by omega⟩
  · intro i hi
    refine ⟨maskText_newline t i, ?_, maskText_of_uncovered⟩
    rintro ⟨s, hs, hle, hlt⟩ hfeed
    rw [List.getElem?_eq_getElem hi] at hfeed
    rw [maskText_of_region hs hle hlt, List.getElem?_eq_getElem hi, Option.map_some,
      if_neg fun e => hfeed (by rw [e])]

/-! ### Masked texts have no regions -/

/-- At no offset of a masked text a region begins. -/
lemma leadingRegion?_drop_maskText (t : Text) (i : Nat) :
    leadingRegion? ((maskText t).drop i) = none := by
  -- an opening mark of the masked text is one of the text, where no region covers it
  have unmasked : ∀ {c : Char}, (maskText t)[i]? = some c → ¬ isBlank c →
      leadingRegion? (t.drop i) = none := by
    intro c hc hblank
    obtain ⟨htext, huncovered⟩ := uncovered_of_maskText hc hblank
    exact leadingRegion?_of_uncovered (List.getElem?_eq_some_iff.mp htext).1 huncovered
  have comment : ∀ {d : Char}, ¬ isBlank d → ['/', d] <+: (maskText t).drop i →
      ['/', d] <+: t.drop i ∧ leadingRegion? (t.drop i) = none := by
    rintro d hd ⟨rest, hrest⟩
    have hfirst : (maskText t)[i]? = some '/' := by
      rw [← Nat.add_zero i, ← List.getElem?_drop, ← hrest]
      rfl
    have hsecond : (maskText t)[i + 1]? = some d := by
      rw [← List.getElem?_drop, ← hrest]
      rfl
    refine ⟨?_, unmasked hfirst (by decide)⟩
    rw [List.prefix_iff_getElem?]
    intro j hj
    rw [List.getElem?_drop]
    match j, hj with
    | 0, _ => exact (uncovered_of_maskText hfirst (by decide)).1
    | 1, _ => exact (uncovered_of_maskText hsecond hd).1
  rw [leadingRegion?_eq_none]
  refine ⟨?_, ?_, ?_⟩
  · intro hline
    obtain ⟨hline, hnone⟩ := comment (by decide) hline
    exact (leadingRegion?_eq_none.mp hnone).1 hline
  · intro hblock
    obtain ⟨hblock, hnone⟩ := comment (by decide) hblock
    exact (leadingRegion?_eq_none.mp hnone).2.1 hblock
  · intro c hc
    rw [List.head?_drop] at hc
    by_cases hblank : isBlank c
    · exact Quote.ofOpening?_of_isBlank hblank
    · have hnone := unmasked hc hblank
      apply (leadingRegion?_eq_none.mp hnone).2.2
      rw [List.head?_drop]
      exact (uncovered_of_maskText hc hblank).1

/-- The segments of a text in which no region begins are its characters. -/
lemma segments_of_plain {t : Text} (h : ∀ i, leadingRegion? (t.drop i) = none) :
    segments t = t.map Segment.plain := by
  show segmentsFrom 0 t = _
  induction t with
  | nil => rfl
  | cons c cs ih =>
    have hfirst : leadingRegion? (c :: cs) = none := h 0
    rw [segmentsFrom, hfirst, ih fun i => h (i + 1)]
    rfl

/-- A text in which no region begins has no regions, and masking leaves it as it is. -/
lemma maskText_of_plain {t : Text} (h : ∀ i, leadingRegion? (t.drop i) = none) :
    maskText t = t ∧ maskSpans t = [] := by
  rw [maskText, maskSpans, segments_of_plain h]
  constructor
  · rw [List.flatMap_map]
    exact List.flatMap_singleton' t
  · have hspans : ∀ start, Segment.spansFrom start (t.map Segment.plain) = [] := by
      clear h
      induction t with
      | nil => exact fun _ => rfl
      | cons c cs ih => exact fun start => ih (start + 1)
    exact hspans 0

/-- A text in which no region begins has no opening mark anywhere. -/
lemma no_openings_of_plain {t : Text} (h : ∀ i, leadingRegion? (t.drop i) = none) :
    ¬ ['/', '/'] <:+: t ∧ ¬ ['/', '*'] <:+: t ∧ ∀ c ∈ t, Quote.ofOpening? c = none := by
  have suffix : ∀ {u : Text}, u <:+ t → leadingRegion? u = none := by
    rintro u ⟨front, rfl⟩
    have hfront := h front.length
    rwa [List.drop_left] at hfront
  refine ⟨?_, ?_, ?_⟩
  · intro hinfix
    obtain ⟨u, hu, hut⟩ := List.infix_iff_prefix_suffix.mp hinfix
    exact (leadingRegion?_eq_none.mp (suffix hut)).1 hu
  · intro hinfix
    obtain ⟨u, hu, hut⟩ := List.infix_iff_prefix_suffix.mp hinfix
    exact (leadingRegion?_eq_none.mp (suffix hut)).2.1 hu
  · intro c hc
    obtain ⟨front, rest, rfl⟩ := List.append_of_mem hc
    exact (leadingRegion?_eq_none.mp (suffix (List.suffix_append _ _))).2.2 c rfl

/-- The marks of literals begin literals. -/
lemma not_mem_quotes_of_ofOpening? {c : Char} (h : Quote.ofOpening? c = none) :
    c ∉ charQuotes ∧ c ∉ stringQuotes ∧ c ≠ '「' := by
  have hall : (charQuotes ++ stringQuotes ++ ['「']).all fun d => (Quote.ofOpening? d).isSome := by
    decide
  have hnot : c ∉ charQuotes ++ stringQuotes ++ ['「'] := by
    intro hc
    have hsome := List.all_eq_true.mp hall c hc
    rw [h] at hsome
    cases hsome
  simpa only [List.mem_append, List.mem_singleton, not_or, and_assoc] using hnot

/-- The comments and literals of a text obey their grammar, and none is missed: the masked text
holds no opening mark of a comment or literal, so that masking it again finds no region and changes
nothing. -/
theorem maskSpans_grammar (t : Text) :
    (∀ s ∈ maskSpans t, ∃ before w rest, t = before ++ (w ++ rest) ∧
      s.start = before.length ∧ s.length = w.length ∧ Reads s.kind w rest) ∧
    (¬ ['/', '/'] <:+: maskText t ∧ ¬ ['/', '*'] <:+: maskText t ∧
      ∀ c ∈ maskText t, c ∉ charQuotes ∧ c ∉ stringQuotes ∧ c ≠ '「') ∧
    maskText (maskText t) = maskText t ∧ maskSpans (maskText t) = [] := by
  have hplain := leadingRegion?_drop_maskText t
  obtain ⟨hline, hblock, hquotes⟩ := no_openings_of_plain hplain
  refine ⟨?_, ⟨hline, hblock, ?_⟩, maskText_of_plain hplain⟩
  · intro s hs
    obtain ⟨o, n, hstart, hlen, hregion⟩ := leadingRegion?_of_mem_maskSpans hs
    obtain ⟨w, rest, hdrop, rfl, hreads⟩ := exists_reads hregion
    refine ⟨t.take o, w, rest, by rw [← hdrop, List.take_append_drop], ?_, hlen, hreads⟩
    have hle : o ≤ t.length := by
      obtain ⟨a, b, ha, _, hab, hb⟩ := (maskSpans_ordered t).inside s hs
      omega
    rw [hstart, List.length_take, Nat.min_eq_left hle]
  · exact fun c hc => not_mem_quotes_of_ofOpening? (hquotes c hc)

end LazeEdit
