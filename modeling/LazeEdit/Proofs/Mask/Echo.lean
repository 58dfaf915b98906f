import LazeEdit.Proofs.Mask.Grammar
import LazeEdit.Proofs.Token.Echo

/-!
# Masking an echo

The marks of comments have one width, and those of literals are marks in either width. So a region
begins an echo exactly where one begins the text (`leadingRegion?_widened`), with the same kind and
length, and the segments of the two correspond one by one. The regions of an echo are those of the
text, moved, and its masked text is an echo of the masked text.
-/

namespace LazeEdit

variable {k : Nat} {t t' u : Text}

/-! ### Regions -/

/-- A mark of two characters of one width stands in a widened text. -/
lemma exists_mark_right {a b : Char} {cs : Text} (ha : OneWidth (· == a)) (hb : OneWidth (· == b))
    (h : List.Forall₂ Widened (a :: b :: cs) u) :
    ∃ ds, u = a :: b :: ds ∧ List.Forall₂ Widened cs ds := by
  match u, h with
  | _ :: _ :: ds, .cons hc (.cons hd h) =>
    rw [(hc.mark_iff ha).mp rfl, (hd.mark_iff hb).mp rfl]
    exact ⟨ds, rfl, h⟩

/-- A text without a mark of two characters of one width at its start is not widened to one with
the mark. -/
lemma no_mark_right {a b c d : Char} {cs ds : Text} (ha : OneWidth (· == a))
    (hb : OneWidth (· == b)) (hcd : Widened c d) (h : List.Forall₂ Widened cs ds)
    (hnot : ∀ es, c = a → cs = b :: es → False) : ∀ es, d = a → ds = b :: es → False := by
  rintro es rfl rfl
  match cs, h with
  | e :: cs, .cons he _ =>
    obtain rfl := (he.mark_iff hb).mpr rfl
    exact hnot cs ((hcd.mark_iff ha).mpr rfl) rfl

lemma oneWidth_slash : OneWidth (· == '/') := by
  decide

lemma oneWidth_star : OneWidth (· == '*') := by
  decide

lemma blockCommentRest_widened (h : List.Forall₂ Widened t u) :
    blockCommentRest u = blockCommentRest t := by
  -- the three marks have one width, so a widened text comes to the same case
  fun_induction blockCommentRest t generalizing u with
  | case1 cs =>
    obtain ⟨ds, rfl, _⟩ := exists_mark_right oneWidth_star oneWidth_slash h
    rw [blockCommentRest]
  | case2 cs ih =>
    obtain ⟨ds, rfl, hrest⟩ := exists_mark_right oneWidth_slash oneWidth_slash h
    rw [blockCommentRest, ih hrest]
  | case3 cs ih =>
    obtain ⟨ds, rfl, hrest⟩ := exists_mark_right oneWidth_slash oneWidth_star h
    rw [blockCommentRest, ih hrest]
  | case4 c cs hclose hline hblock ih =>
    cases h with
    | @cons _ d _ ds hcd hrest =>
      rw [blockCommentRest.eq_4 d ds (no_mark_right oneWidth_star oneWidth_slash hcd hrest hclose)
        (no_mark_right oneWidth_slash oneWidth_slash hcd hrest hline)
        (no_mark_right oneWidth_slash oneWidth_star hcd hrest hblock), ih hrest]
  | case5 =>
    cases h
    rfl

lemma literalRegion_widened (q : Quote) (h : List.Forall₂ Widened t u) :
    literalRegion q u = literalRegion q t := by
  have hbody : WidthFree fun c => !q.closes c && c != '\n' := by
    cases q <;> decide
  have hcloses : WidthFree q.closes := by
    cases q <;> decide
  have hlen : (literalBody q u).length = (literalBody q t).length :=
    (forall₂_takeWhile hbody h).length_eq.symm
  have hrest := List.forall₂_drop (literalBody q t).length h
  rw [literalRegion, literalRegion, hlen]
  match t.drop (literalBody q t).length, u.drop (literalBody q t).length, hrest with
  | _, _, .nil => rfl
  | _, _, .cons hcd _ => simp only [hcd.apply hcloses]

/-- A widened text begins with a region of the same kind and length. -/
lemma leadingRegion?_widened (h : List.Forall₂ Widened t u) :
    leadingRegion? u = leadingRegion? t := by
  have hfeed : WidthFree (· != '\n') := by decide
  have hopening : WidthFree Quote.ofOpening? := by decide
  rw [leadingRegion?.eq_def t]
  split
  case h_1 cs =>
    obtain ⟨ds, rfl, hrest⟩ := exists_mark_right oneWidth_slash oneWidth_slash h
    rw [leadingRegion?, (forall₂_takeWhile hfeed hrest).length_eq]
  case h_2 cs =>
    obtain ⟨ds, rfl, hrest⟩ := exists_mark_right oneWidth_slash oneWidth_star h
    rw [leadingRegion?, blockCommentRest_widened hrest]
  case h_3 c cs hline hblock =>
    cases h with
    | @cons _ d _ ds hcd hrest =>
      rw [leadingRegion?.eq_3 d ds (no_mark_right oneWidth_slash oneWidth_slash hcd hrest hline)
        (no_mark_right oneWidth_slash oneWidth_star hcd hrest hblock), hcd.apply hopening]
      simp only [literalRegion_widened _ hrest]
  case h_4 =>
    cases h
    rfl

/-! ### Segments -/

/-- A segment and the same segment of a widened text. -/
inductive Segment.Echo : Segment → Segment → Prop where
  | plain {c d : Char} :
    Widened c d →
    Echo (plain c) (plain d)
  | region {kind : MaskKind} {t u : Text} :
    List.Forall₂ Widened t u →
    Echo (region kind t) (region kind u)

lemma segmentsFrom_widened (h : List.Forall₂ Widened t u) (skip : Nat) :
    List.Forall₂ Segment.Echo (segmentsFrom skip t) (segmentsFrom skip u) := by
  induction h generalizing skip with
  | nil => exact .nil
  | @cons c d t u hcd htu ih =>
    cases skip with
    | succ n => exact ih n
    | zero =>
      have hall : List.Forall₂ Widened (c :: t) (d :: u) := .cons hcd htu
      rw [segmentsFrom, segmentsFrom, leadingRegion?_widened hall]
      cases leadingRegion? (c :: t) with
      | none => exact .cons (.plain hcd) (ih 0)
      | some found => exact .cons (.region (List.forall₂_take found.2 hall)) (ih (found.2 - 1))

lemma segments_feeds (k : Nat) (u : Text) :
    segments (List.replicate k '\n' ++ u) = List.replicate k (.plain '\n') ++ segments u := by
  induction k with
  | zero => rfl
  | succ k ih =>
    rw [List.replicate_succ, List.replicate_succ, List.cons_append, List.cons_append, ← ih]
    rfl

lemma Segment.Echo.masked {s s' : Segment} (h : s.Echo s') :
    List.Forall₂ Widened s.masked s'.masked := by
  cases h with
  | plain hcd => exact .cons hcd .nil
  | region htu =>
    apply List.rel_map ?_ htu
    intro c d hcd
    show Widened (if c = '\n' then c else ' ') (if d = '\n' then d else ' ')
    simp only [hcd.mark_iff oneWidth_feed]
    split
    · exact hcd
    · exact .inl rfl

lemma maskText_feeds (k : Nat) (u : Text) :
    maskText (List.replicate k '\n' ++ u) = List.replicate k '\n' ++ maskText u := by
  rw [maskText, segments_feeds, List.flatMap_append, List.flatMap_replicate]
  exact congrArg (· ++ maskText u) List.flatten_replicate_singleton

/-- The masked text of an echo is an echo of the masked text. -/
lemma maskText_echo (h : Echoes k t t') : Echoes k (maskText t) (maskText t') := by
  obtain ⟨u, rfl, htu⟩ := h
  refine ⟨maskText u, maskText_feeds k u, ?_⟩
  exact List.rel_flatMap (segmentsFrom_widened htu 0) fun _ _ hs => hs.masked

/-! ### Spans of regions -/

/-- A region further on. -/
def MaskSpan.moved (k : Nat) (s : MaskSpan) : MaskSpan :=
  { s with start := s.start + k }

@[simp] lemma MaskSpan.moved_zero (s : MaskSpan) : s.moved 0 = s := by
  rw [moved, Int.natCast_zero, Int.add_zero]

lemma Segment.spansFrom_feeds (k start : Nat) (ss : List Segment) :
    spansFrom start (List.replicate k (plain '\n') ++ ss) = spansFrom (start + k) ss := by
  induction k generalizing start with
  | zero => rfl
  | succ k ih =>
    rw [List.replicate_succ, List.cons_append, spansFrom, ih, Nat.add_right_comm]
    rfl

lemma Segment.spansFrom_echo {ss ss' : List Segment} (h : List.Forall₂ Segment.Echo ss ss')
    (k start : Nat) :
    spansFrom (start + k) ss' = (spansFrom start ss).map (·.moved k) := by
  induction h generalizing start with
  | nil => rfl
  | cons hs _ ih =>
    cases hs with
    | plain =>
      rw [spansFrom, spansFrom, Nat.add_right_comm]
      exact ih (start + 1)
    | region htu =>
      rw [spansFrom, spansFrom, List.map_cons, ← htu.length_eq, Nat.add_right_comm, ih,
        Int.natCast_add]
      rfl

/-- The regions of an echo are those of the text, moved. -/
lemma maskSpans_echo (h : Echoes k t t') : maskSpans t' = (maskSpans t).map (·.moved k) := by
  obtain ⟨u, rfl, htu⟩ := h
  rw [maskSpans, segments_feeds, Segment.spansFrom_feeds]
  exact Segment.spansFrom_echo (segmentsFrom_widened htu 0) k 0

/-! ### Tokens of regions -/

lemma splitAtChar_widened (h : List.Forall₂ Widened t u) :
    List.Forall₂ (fun p q => q.length = p.length) (splitAtChar '\n' t) (splitAtChar '\n' u) := by
  induction h with
  | nil => exact .cons rfl .nil
  | @cons c d t u hcd _ ih =>
    rw [splitAtChar, splitAtChar]
    generalize splitAtChar '\n' t = ps at ih ⊢
    generalize splitAtChar '\n' u = qs at ih ⊢
    cases ih with
    | nil => exact .cons rfl .nil
    | cons hpq ih =>
      simp only [hcd.mark_iff oneWidth_feed]
      split
      · exact .cons rfl (.cons hpq ih)
      · exact .cons (congrArg (· + 1) hpq) ih

/-- Pieces of the same lengths give the same tokens, moved. -/
lemma pieceTokens_moved {ps qs : List Text}
    (h : List.Forall₂ (fun p q => q.length = p.length) ps qs) (k : Nat) (kind : MaskKind)
    (start : Int) :
    pieceTokens kind (start + k) qs = (pieceTokens kind start ps).map (·.moved k) := by
  induction h generalizing start with
  | nil => rfl
  | @cons p q ps qs hpq _ ih =>
    have hempty : q.isEmpty = p.isEmpty := by
      rw [Bool.eq_iff_iff, List.isEmpty_iff_length_eq_zero, List.isEmpty_iff_length_eq_zero, hpq]
    have hnext : start + (k : Int) + p.length + 1 = start + p.length + 1 + k := by
      omega
    rw [pieceTokens, pieceTokens, hempty, hpq, hnext, ih]
    split
    · rfl
    · rfl

/-- The tokens of the regions of an echo are those of the text, moved. -/
lemma maskTokens_echo (h : Echoes k t t') :
    maskTokens t' (maskSpans t') = (maskTokens t (maskSpans t)).map (·.moved k) := by
  rw [maskSpans_echo h, maskTokens, maskTokens, List.flatMap_map, List.map_flatMap]
  apply List.flatMap_congr
  intro s hs
  obtain ⟨a, b, ha, hb, _, _⟩ := (maskSpans_ordered t).inside s hs
  have hslice := h.slice (i := s.start) (j := s.stop) (by omega) (by omega)
  have hstop : (s.moved k).stop = s.stop + k := by
    rw [MaskSpan.stop, MaskSpan.stop]
    exact Int.add_right_comm s.start k s.length
  rw [MaskSpan.tokens, MaskSpan.tokens, hstop]
  exact pieceTokens_moved (splitAtChar_widened hslice) k s.kind s.start

end LazeEdit
