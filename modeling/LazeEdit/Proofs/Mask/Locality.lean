import LazeEdit.Proofs.Mask.Echo

/-!
# Regions are local

A text is empty, or a plain character before a text, or a region before a text: `segments_induction`
reads a text by its segments. Where a region ends depends on its own characters and, for a line
comment and a literal without a closing mark, on the end of the line behind them
(`leadingRegion?_behind`). Only a block comment without a closing mark takes in whatever follows it.

So the characters before a line feed are masked as they are without what follows it
(`maskText_append_line`). The line feed parts a text that ends inside no block comment from what
follows it, and no other text (`maskSpans_append_line`). Both proofs go by induction on the segments
of the first text, each of which, up to such a comment, is a segment of the whole text as well.
-/

namespace LazeEdit

variable {kind : MaskKind} {w w' rest rest' : Text}

/-! ### Reading a text by its segments -/

lemma segments_plain {c : Char} {cs : Text} (h : leadingRegion? (c :: cs) = none) :
    segments (c :: cs) = .plain c :: segments cs := by
  rw [segments, segmentsFrom, h]
  rfl

lemma segmentsFrom_length (w rest : Text) : segmentsFrom w.length (w ++ rest) = segments rest := by
  induction w with
  | nil => rfl
  | cons c cs ih => exact ih

lemma segments_region (h : leadingRegion? (w ++ rest) = some (kind, w.length)) :
    segments (w ++ rest) = .region kind w :: segments rest := by
  cases w with
  | nil => exact absurd (leadingRegion?_pos h) (Nat.lt_irrefl 0)
  | cons c cs =>
    rw [List.cons_append] at h ⊢
    rw [segments, segmentsFrom, h]
    show Segment.region kind ((c :: cs ++ rest).take (c :: cs).length)
      :: segmentsFrom cs.length (cs ++ rest) = _
    rw [List.take_left, segmentsFrom_length]

/-- What holds of the empty text, and of a plain character or a region before a text of which it
holds, holds of every text. -/
@[elab_as_elim]
lemma segments_induction {motive : Text → Prop} (nil : motive [])
    (plain : ∀ c cs, leadingRegion? (c :: cs) = none → motive cs → motive (c :: cs))
    (region : ∀ kind w rest, leadingRegion? (w ++ rest) = some (kind, w.length) → motive rest →
      motive (w ++ rest))
    (t : Text) : motive t := by
  induction h : t.length using Nat.strongRecOn generalizing t with
  | ind n ih =>
    cases t with
    | nil => exact nil
    | cons c cs =>
      rw [List.length_cons] at h
      cases hregion : leadingRegion? (c :: cs) with
      | none => exact plain c cs hregion (ih cs.length (by omega) cs rfl)
      | some found =>
        obtain ⟨kind, m⟩ := found
        have hpos := leadingRegion?_pos hregion
        have hlen := length_take_of_leadingRegion? hregion
        have hrest : ((c :: cs).drop m).length < n := by
          rw [List.length_drop, List.length_cons]
          omega
        rw [← List.take_append_drop m (c :: cs)] at hregion ⊢
        exact region kind _ _ (by rw [hregion, hlen]) (ih _ hrest _ rfl)

/-! ### Comments without an end -/

/-- Whether the rest of a block comment, from behind its opening mark, has the closing mark. -/
def commentCloses : Text → Bool
  | '*' :: '/' :: _ => true
  | '/' :: '/' :: cs => commentCloses cs
  | '/' :: '*' :: cs => commentCloses cs
  | _ :: cs => commentCloses cs
  | [] => false

/-- Whether a segment is a block comment without a closing mark. -/
def Segment.isOpenComment : Segment → Bool
  | region .blockComment w => !commentCloses (w.drop 2)
  | _ => false

/-- A text ends inside a block comment: it has one without a closing mark, which then reaches to the
end of the text. -/
def EndsInComment (t : Text) : Prop :=
  ∃ s ∈ segments t, s.isOpenComment

/-- A text that is not empty begins a longer text with its own first character. -/
lemma exists_cons_of_append {d : Char} {ds : Text} (hne : w ≠ []) (h : w ++ rest = d :: ds) :
    ∃ es, w = d :: es := by
  cases w with
  | nil => exact absurd rfl hne
  | cons e es =>
    cases h
    exact ⟨es, rfl⟩

/-- A character that begins no mark of a block comment begins none before a longer text. -/
lemma blockCommentRest_cons_append {c : Char} (hne : w ≠ [])
    (hclose : ∀ ds, c = '*' → w = '/' :: ds → False)
    (hline : ∀ ds, c = '/' → w = '/' :: ds → False)
    (hblock : ∀ ds, c = '/' → w = '*' :: ds → False) :
    blockCommentRest (c :: w ++ rest) = blockCommentRest (w ++ rest) + 1 := by
  have hsame : ∀ {a b : Char}, (∀ ds, c = a → w = b :: ds → False) →
      ∀ ds, c = a → w ++ rest = b :: ds → False := by
    intro a b hnot ds hc e
    obtain ⟨es, he⟩ := exists_cons_of_append hne e
    exact hnot es hc he
  exact blockCommentRest.eq_4 _ _ (hsame hclose) (hsame hline) (hsame hblock)

lemma blockCommentRest_append (h : commentCloses w) (rest : Text) :
    blockCommentRest (w ++ rest) = blockCommentRest w := by
  fun_induction commentCloses w with
  | case1 cs => rfl
  | case2 cs ih => exact congrArg (· + 2) (ih h)
  | case3 cs ih => exact congrArg (· + 2) (ih h)
  | case4 c cs hclose hline hblock ih =>
    have hne : cs ≠ [] := by
      rintro rfl
      cases h
    rw [blockCommentRest_cons_append hne hclose hline hblock,
      blockCommentRest.eq_4 _ _ hclose hline hblock, ih h]
  | case5 => cases h

lemma blockCommentRest_pos (h : w ≠ []) : 0 < blockCommentRest w := by
  unfold blockCommentRest
  split
  case h_5 => exact absurd rfl h
  all_goals exact Nat.succ_pos _

lemma one_lt_blockCommentRest (c : Char) (h : w ≠ []) : 1 < blockCommentRest (c :: w) := by
  rw [blockCommentRest.eq_def]
  split
  case h_1 => exact Nat.lt_succ_self 1
  case h_2 => exact Nat.le_add_left 2 _
  case h_3 => exact Nat.le_add_left 2 _
  case h_4 e =>
    cases e
    exact Nat.succ_lt_succ (blockCommentRest_pos h)
  case h_5 e => cases e

/-- A block comment without a closing mark takes in what follows it. -/
lemma lt_blockCommentRest_append (h : ¬ commentCloses w) (hrest : rest ≠ []) :
    w.length < blockCommentRest (w ++ rest) := by
  fun_induction commentCloses w with
  | case1 cs => exact absurd rfl h
  | case2 cs ih => exact Nat.add_lt_add_right (ih h) 2
  | case3 cs ih => exact Nat.add_lt_add_right (ih h) 2
  | case4 c cs hclose hline hblock ih =>
    cases cs with
    | nil => exact one_lt_blockCommentRest c hrest
    | cons d ds =>
      rw [blockCommentRest_cons_append (List.cons_ne_nil d ds) hclose hline hblock]
      exact Nat.succ_lt_succ (ih h)
  | case5 => exact blockCommentRest_pos hrest

/-! ### What a region depends on -/

namespace Quote

variable {q : Quote}

lemma ofOpening?_of_opens {c : Char} (h : q.opens c) : ofOpening? c = some q ∧ c ≠ '/' := by
  cases q <;> simp only [opens, Bool.or_eq_true, beq_iff_eq, or_assoc] at h
  · obtain rfl | rfl | rfl := h <;> decide
  · obtain rfl | rfl | rfl := h <;> decide
  · subst h
    decide

lemma not_closes_feed (q : Quote) : q.closes '\n' = false := by
  cases q <;> rfl

end Quote

lemma literalBody_append {q : Quote} (hw : ∀ c ∈ w, c ≠ '\n' ∧ ¬ q.closes c)
    (hrest : ∀ c ∈ rest.head?, q.closes c ∨ c = '\n') : literalBody q (w ++ rest) = w := by
  apply takeWhile_append_stop
  · intro c hc
    obtain ⟨hfeed, hcloses⟩ := hw c hc
    simp [hfeed, hcloses]
  · intro c hc
    obtain hcloses | rfl := hrest c hc
    · simp [hcloses]
    · simp

lemma leadingRegion?_literal {q : Quote} {first : Char} (h : q.opens first) (cs : Text) :
    leadingRegion? (first :: cs) = some (literalRegion q cs) := by
  obtain ⟨hopening, hslash⟩ := Quote.ofOpening?_of_opens h
  rw [leadingRegion?.eq_3 _ _ (fun _ e => absurd e hslash) (fun _ e => absurd e hslash), hopening,
    Option.map_some]

/-- What reads as a line comment or a literal is read as one. -/
lemma Reads.leadingRegion? (h : Reads kind w rest) (hkind : kind ≠ .blockComment) :
    leadingRegion? (w ++ rest) = some (kind, w.length) := by
  cases h with
  | @lineComment body _ hbody hrest =>
    have htake : (body ++ rest).takeWhile (· != '\n') = body := by
      apply takeWhile_append_stop
      · intro c hc
        exact bne_iff_ne.mpr fun e => hbody (e ▸ hc)
      · intro c hc
        exact bne_eq_false_iff_eq.mpr (hrest c hc)
    rw [List.cons_append, List.cons_append, LazeEdit.leadingRegion?, htake]
    rfl
  | blockComment => exact absurd rfl hkind
  | openComment => exact absurd rfl hkind
  | @literal q first last body _ hfirst hbody hlast =>
    have hread : literalBody q (body ++ last :: rest) = body :=
      literalBody_append hbody fun c hc => .inl (Option.some.inj hc ▸ hlast)
    rw [List.cons_append, List.append_assoc, List.singleton_append, leadingRegion?_literal hfirst,
      literalRegion, hread]
    simp [hlast]
  | @openLiteral q first body _ hfirst hbody hrest =>
    have hread : literalBody q (body ++ rest) = body :=
      literalBody_append hbody fun c hc => .inr (hrest c hc)
    rw [List.cons_append, leadingRegion?_literal hfirst, literalRegion, hread]
    simp only [List.drop_left]
    cases rest with
    | nil => rfl
    | cons c cs =>
      rw [hrest c rfl]
      simp [Quote.not_closes_feed]

/-- A region that begins a text reads as its kind says. -/
lemma reads_of_leadingRegion? (h : leadingRegion? (w ++ rest) = some (kind, w.length)) :
    Reads kind w rest := by
  obtain ⟨v, u, e, hlen, hreads⟩ := exists_reads h
  obtain ⟨rfl, rfl⟩ := List.append_inj e hlen.symm
  exact hreads

lemma Reads.behind (h : Reads kind w rest) (hkind : kind ≠ .blockComment)
    (hline : EndsLine rest → EndsLine rest') : Reads kind w rest' := by
  cases h with
  | lineComment hbody hrest => exact .lineComment hbody (hline hrest)
  | blockComment => exact absurd rfl hkind
  | openComment => exact absurd rfl hkind
  | literal hfirst hbody hlast => exact .literal hfirst hbody hlast
  | openLiteral hfirst hbody hrest => exact .openLiteral hfirst hbody (hline hrest)

lemma exists_comment_body (h : leadingRegion? (w ++ rest) = some (.blockComment, w.length)) :
    ∃ body, w = '/' :: '*' :: body ∧ blockCommentRest (body ++ rest) = body.length := by
  have hbody : ∃ body, w = '/' :: '*' :: body := by
    cases reads_of_leadingRegion? h with
    | blockComment => exact ⟨_, rfl⟩
    | openComment => exact ⟨_, rfl⟩
  obtain ⟨body, rfl⟩ := hbody
  refine ⟨body, rfl, ?_⟩
  rw [List.cons_append, List.cons_append, leadingRegion?] at h
  simpa using h

/-- A block comment before more text has its closing mark. -/
lemma commentCloses_of_leadingRegion?
    (h : leadingRegion? (w ++ rest) = some (.blockComment, w.length)) (hrest : rest ≠ []) :
    commentCloses (w.drop 2) := by
  obtain ⟨body, rfl, hlen⟩ := exists_comment_body h
  by_contra hopen
  have hlt := lt_blockCommentRest_append (w := body) hopen hrest
  omega

/-- A region with its end in sight stays what it is, whatever stands behind it. -/
lemma leadingRegion?_behind (h : leadingRegion? (w ++ rest) = some (kind, w.length))
    (hline : EndsLine rest → EndsLine rest')
    (hclosed : kind = .blockComment → commentCloses (w.drop 2)) :
    leadingRegion? (w ++ rest') = some (kind, w.length) := by
  by_cases hkind : kind = .blockComment
  · subst hkind
    obtain ⟨body, rfl, hlen⟩ := exists_comment_body h
    have hcloses : commentCloses body := hclosed rfl
    rw [blockCommentRest_append hcloses] at hlen
    rw [List.cons_append, List.cons_append, leadingRegion?, blockCommentRest_append hcloses, hlen]
    rfl
  · exact ((reads_of_leadingRegion? h).behind hkind hline).leadingRegion? hkind

/-- Where no region begins none begins before another text, when that goes on alike or with the end
of the line. -/
lemma leadingRegion?_eq_none_of_head {c : Char} {cs cs' : Text}
    (h : leadingRegion? (c :: cs) = none)
    (hhead : ∀ d ∈ cs'.head?, d = '\n' ∨ cs.head? = some d) :
    leadingRegion? (c :: cs') = none := by
  obtain ⟨hline, hblock, hquote⟩ := leadingRegion?_eq_none.mp h
  -- a mark of two characters would have stood there before
  have hmark : ∀ {d : Char}, d ≠ '\n' → ['/', d] <+: c :: cs' → ['/', d] <+: c :: cs := by
    rintro d hd ⟨ds, e⟩
    cases e
    obtain hfeed | hsame := hhead d rfl
    · exact absurd hfeed hd
    · obtain ⟨es, rfl⟩ := List.head?_eq_some_iff.mp hsame
      exact ⟨es, rfl⟩
  refine leadingRegion?_eq_none.mpr ⟨?_, ?_, hquote⟩
  · exact fun hmarked => hline (hmark (by decide) hmarked)
  · exact fun hmarked => hblock (hmark (by decide) hmarked)

/-! ### Lines -/

lemma endsInComment_plain {c : Char} {cs : Text} (h : leadingRegion? (c :: cs) = none) :
    EndsInComment (c :: cs) ↔ EndsInComment cs := by
  rw [EndsInComment, segments_plain h, List.exists_mem_cons_iff]
  simp only [Segment.isOpenComment, Bool.false_eq_true, false_or]
  rfl

lemma endsInComment_region (h : leadingRegion? (w ++ rest) = some (kind, w.length)) :
    EndsInComment (w ++ rest) ↔
      (kind = .blockComment ∧ ¬ commentCloses (w.drop 2)) ∨ EndsInComment rest := by
  have hopen : (Segment.region kind w).isOpenComment ↔
      kind = .blockComment ∧ ¬ commentCloses (w.drop 2) := by
    cases kind <;> simp [Segment.isOpenComment]
  rw [EndsInComment, segments_region h, List.exists_mem_cons_iff, hopen]
  rfl

lemma leadingRegion?_plain_line {c : Char} {cs : Text} (h : leadingRegion? (c :: cs) = none)
    (b : Text) : leadingRegion? (c :: (cs ++ '\n' :: b)) = none := by
  apply leadingRegion?_eq_none_of_head h
  intro d hd
  cases cs with
  | nil => exact .inl (Option.some.inj hd).symm
  | cons e es => exact .inr hd

lemma leadingRegion?_region_line (h : leadingRegion? (w ++ rest) = some (kind, w.length))
    (hclosed : ¬ (kind = .blockComment ∧ ¬ commentCloses (w.drop 2))) (b : Text) :
    leadingRegion? (w ++ (rest ++ '\n' :: b)) = some (kind, w.length) := by
  apply leadingRegion?_behind h
  · intro hline c hc
    cases rest with
    | nil => exact (Option.some.inj hc).symm
    | cons d ds => exact hline c hc
  · intro hkind
    by_contra hopen
    exact hclosed ⟨hkind, hopen⟩

/-- A block comment without a closing mark is longer before a line feed. -/
lemma exists_longer_comment
    (h : leadingRegion? (w ++ rest) = some (.blockComment, w.length))
    (hopen : ¬ commentCloses (w.drop 2)) (b : Text) :
    ∃ v u, w ++ '\n' :: b = v ++ u ∧ w.length < v.length ∧
      leadingRegion? (v ++ u) = some (.blockComment, v.length) := by
  obtain ⟨body, rfl, _⟩ := exists_comment_body h
  have hregion : leadingRegion? ('/' :: '*' :: body ++ '\n' :: b)
      = some (.blockComment, blockCommentRest (body ++ '\n' :: b) + 2) := rfl
  have hlen := length_take_of_leadingRegion? hregion
  refine ⟨_, _, (List.take_append_drop (blockCommentRest (body ++ '\n' :: b) + 2) _).symm, ?_, ?_⟩
  · rw [hlen]
    exact Nat.add_lt_add_right
      (lt_blockCommentRest_append (w := body) hopen (List.cons_ne_nil _ _)) 2
  · rw [List.take_append_drop, hlen, hregion]

/-- A line feed behind a text that ends inside no block comment is a segment, and the segments of
what follows it are those that it has alone. -/
lemma segments_append_line {a : Text} (h : ¬ EndsInComment a) (b : Text) :
    segments (a ++ '\n' :: b) = segments a ++ .plain '\n' :: segments b := by
  induction a using segments_induction with
  | nil => rfl
  | plain c cs hnone ih =>
    rw [endsInComment_plain hnone] at h
    rw [List.cons_append, segments_plain (leadingRegion?_plain_line hnone b), segments_plain hnone,
      ih h, List.cons_append]
  | region kind w rest hregion ih =>
    rw [endsInComment_region hregion, not_or] at h
    rw [List.append_assoc, segments_region (leadingRegion?_region_line hregion h.1 b),
      segments_region hregion, ih h.2, List.cons_append]

lemma maskText_region (h : leadingRegion? (w ++ rest) = some (kind, w.length)) :
    maskText (w ++ rest) = (Segment.region kind w).masked ++ maskText rest := by
  rw [maskText, segments_region h, List.flatMap_cons]
  rfl

lemma exists_maskText_append_line (a b : Text) :
    ∃ u, maskText (a ++ '\n' :: b) = maskText a ++ '\n' :: u := by
  induction a using segments_induction with
  | nil => exact ⟨maskText b, rfl⟩
  | plain c cs hnone ih =>
    obtain ⟨u, hu⟩ := ih
    have hplain : ∀ {cs : Text}, leadingRegion? (c :: cs) = none →
        maskText (c :: cs) = c :: maskText cs := by
      intro cs hnone
      rw [maskText, segments_plain hnone]
      rfl
    refine ⟨u, ?_⟩
    rw [List.cons_append, hplain (leadingRegion?_plain_line hnone b), hplain hnone, hu,
      List.cons_append]
  | region kind w rest hregion ih =>
    by_cases hopen : kind = .blockComment ∧ ¬ commentCloses (w.drop 2)
    · -- the comment reaches over the line feed, which masking leaves as it is
      obtain ⟨rfl, hopen⟩ := hopen
      obtain rfl : rest = [] := by
        by_contra hrest
        exact hopen (commentCloses_of_leadingRegion? hregion hrest)
      obtain ⟨v, u, hsplit, hlt, hlonger⟩ := exists_longer_comment hregion hopen b
      obtain ⟨x, rfl⟩ : ∃ x, v = w ++ '\n' :: x := by
        obtain ⟨d, rfl⟩ := List.prefix_of_prefix_length_le (List.prefix_append w ('\n' :: b))
          (hsplit ▸ List.prefix_append v u) (Nat.le_of_lt hlt)
        cases d with
        | nil => simp at hlt
        | cons c x =>
          rw [List.append_assoc, List.append_cancel_left_eq] at hsplit
          cases hsplit
          exact ⟨x, rfl⟩
      have hmasked : maskText w = (Segment.region .blockComment w).masked := by
        rw [← List.append_nil w, maskText_region hregion, List.append_nil]
        exact List.append_nil _
      refine ⟨(Segment.region .blockComment x).masked ++ maskText u, ?_⟩
      rw [List.append_nil, hsplit, maskText_region hlonger, hmasked, Segment.masked, Segment.masked,
        Segment.masked, List.map_append, List.append_assoc]
      rfl
    · obtain ⟨u, hu⟩ := ih
      refine ⟨u, ?_⟩
      rw [List.append_assoc, maskText_region (leadingRegion?_region_line hregion hopen b),
        maskText_region hregion, hu, List.append_assoc]

/-- A text is masked before a line feed as it is alone, and behind the line feed stand characters of
the second text and spaces. -/
lemma maskText_append_line (a b : Text) :
    ∃ u, maskText (a ++ '\n' :: b) = maskText a ++ '\n' :: u ∧ ∀ c ∈ u, c ∈ b ∨ c = ' ' := by
  obtain ⟨u, hu⟩ := exists_maskText_append_line a b
  refine ⟨u, hu, ?_⟩
  intro c hc
  obtain ⟨i, hi⟩ := List.getElem?_of_mem hc
  have hbehind : ∀ {t v : Text}, t.length = a.length →
      (t ++ '\n' :: v)[a.length + 1 + i]? = v[i]? := by
    intro t v ht
    rw [List.getElem?_append_right (by omega), ht, Nat.add_assoc, Nat.add_sub_cancel_left,
      Nat.add_comm]
    rfl
  have hmask := getElem?_maskText (a ++ '\n' :: b) (a.length + 1 + i)
  rw [hu, hbehind (length_maskText a), hbehind rfl, hi] at hmask
  obtain hb | hspace := hmask
  · exact .inl (List.mem_of_getElem? hb.symm)
  · exact .inr (Option.some.inj hspace)

/-- The regions of a text that ends inside a block comment do not begin those of a longer text: the
comment is longer there. -/
lemma not_maskSpans_isPrefix {a : Text} (h : EndsInComment a) (b : Text) (start : Nat) :
    ¬ Segment.spansFrom start (segments a)
      <+: Segment.spansFrom start (segments (a ++ '\n' :: b)) := by
  induction a using segments_induction generalizing start with
  | nil =>
    obtain ⟨s, hs, _⟩ := h
    cases hs
  | plain c cs hnone ih =>
    rw [endsInComment_plain hnone] at h
    rw [List.cons_append, segments_plain (leadingRegion?_plain_line hnone b), segments_plain hnone]
    exact ih h (start + 1)
  | region kind w rest hregion ih =>
    by_cases hopen : kind = .blockComment ∧ ¬ commentCloses (w.drop 2)
    · obtain ⟨rfl, hopen⟩ := hopen
      obtain rfl : rest = [] := by
        by_contra hrest
        exact hopen (commentCloses_of_leadingRegion? hregion hrest)
      rw [segments_region hregion]
      obtain ⟨v, u, hsplit, hlt, hlonger⟩ := exists_longer_comment hregion hopen b
      rw [List.append_nil, hsplit, segments_region hlonger, Segment.spansFrom, Segment.spansFrom,
        List.cons_prefix_cons]
      rintro ⟨e, _⟩
      have hlen : (w.length : Int) = v.length := congrArg MaskSpan.length e
      omega
    · rw [endsInComment_region hregion, or_iff_right hopen] at h
      rw [List.append_assoc, segments_region (leadingRegion?_region_line hregion hopen b),
        segments_region hregion, Segment.spansFrom, Segment.spansFrom, List.cons_prefix_cons]
      exact fun hprefix => ih h _ hprefix.2

lemma Segment.spansFrom_append (start : Nat) (ss us : List Segment) :
    spansFrom start (ss ++ us)
      = spansFrom start ss ++ spansFrom (start + (ss.flatMap text).length) us := by
  induction ss generalizing start with
  | nil => rfl
  | cons s ss ih =>
    rw [List.flatMap_cons, List.length_append, ← Nat.add_assoc]
    cases s with
    | plain c => exact ih (start + 1)
    | region kind t => exact congrArg _ (ih (start + t.length))

lemma Segment.spansFrom_moved (ss : List Segment) (k : Nat) :
    spansFrom k ss = (spansFrom 0 ss).map (·.moved k) := by
  have hsame : List.Forall₂ Segment.Echo ss ss := by
    rw [List.forall₂_same]
    intro s _
    cases s with
    | plain c => exact .plain (.inl rfl)
    | region kind t => exact .region (List.forall₂_same.mpr fun c _ => .inl rfl)
  rw [← spansFrom_echo hsame k 0, Nat.zero_add]

/-- A text and the text behind the next line feed are masked apart from each other exactly when the
first one ends inside no block comment: neither a comment to the end of its line nor a literal
without a closing mark reaches over the line feed. -/
theorem maskSpans_append_line (a b : Text) :
    ¬ EndsInComment a ↔
      maskText (a ++ '\n' :: b) = maskText a ++ '\n' :: maskText b ∧
      maskSpans (a ++ '\n' :: b)
        = maskSpans a ++ (maskSpans b).map (·.moved (a.length + 1)) := by
  constructor
  · intro h
    have hsegments := segments_append_line h b
    constructor
    · rw [maskText, hsegments, List.flatMap_append, List.flatMap_cons]
      rfl
    · rw [maskSpans, hsegments, Segment.spansFrom_append, segments_text, Nat.zero_add]
      exact congrArg _ (Segment.spansFrom_moved (segments b) (a.length + 1))
  · rintro ⟨_, hspans⟩ h
    exact not_maskSpans_isPrefix h b 0 ⟨_, hspans.symm⟩

end LazeEdit
