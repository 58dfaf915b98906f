import LazeEdit.Analysis
import LazeEdit.Proofs.Mask.Locality

/-!
# Between the marks of a region

`Refilled` puts other characters between the marks of a line comment or a literal, as many as before
and none that would end the region. That segment of the text changes and no other
(`segments_refilled`): the segments before the region read on to its first character at most, which
is a mark, and those behind it begin where it ends. Masking blanks out what has changed, so that no
later step of an analysis sees it (`analyze_refilled`).
-/

namespace LazeEdit

variable {kind : MaskKind} {w w' rest : Text}

/-! ### Other characters between the marks -/

/-- The characters of a line comment or a literal, and those of one with the same marks and the same
length in which other characters stand between the marks. -/
inductive Refilled : MaskKind → Text → Text → Prop where
  | lineComment {old new : Text} :
    new.length = old.length →
    '\n' ∉ new →
    Refilled .lineComment ('/' :: '/' :: old) ('/' :: '/' :: new)
  | literal {q : Quote} {first last : Char} {old new : Text} :
    new.length = old.length →
    (∀ c ∈ new, c ≠ '\n' ∧ ¬ q.closes c) →
    Refilled (.literal q true) (first :: (old ++ [last])) (first :: (new ++ [last]))
  | openLiteral {q : Quote} {first : Char} {old new : Text} :
    new.length = old.length →
    (∀ c ∈ new, c ≠ '\n' ∧ ¬ q.closes c) →
    Refilled (.literal q false) (first :: old) (first :: new)

namespace Refilled

lemma length_eq (h : Refilled kind w w') : w'.length = w.length := by
  cases h with
  | lineComment hlen => exact congrArg (· + 2) hlen
  | literal hlen => simp [hlen]
  | openLiteral hlen => exact congrArg (· + 1) hlen

lemma head?_append (h : Refilled kind w w') (rest : Text) :
    (w' ++ rest).head? = (w ++ rest).head? := by
  cases h <;> rfl

lemma kind_ne (h : Refilled kind w w') : kind ≠ .blockComment := by
  cases h <;> exact MaskKind.noConfusion

lemma reads (h : Refilled kind w w') (hreads : Reads kind w rest) : Reads kind w' rest := by
  cases h with
  | lineComment hlen hnew =>
    cases hreads with
    | lineComment hbody hrest => exact .lineComment hnew hrest
  | @literal q first last old new hlen hnew =>
    generalize e : first :: (old ++ [last]) = v at hreads
    cases hreads with
    | literal hfirst hbody hlast =>
      obtain ⟨rfl, hbodies⟩ := List.cons.inj e
      obtain ⟨_, hlasts⟩ := List.append_inj' hbodies rfl
      obtain rfl := List.singleton_inj.mp hlasts
      exact .literal hfirst hnew hlast
  | openLiteral hlen hnew =>
    cases hreads with
    | openLiteral hfirst hbody hrest => exact .openLiteral hfirst hnew hrest

end Refilled

/-- A line comment or a literal stands on one line. -/
lemma Reads.not_mem_feed (h : Reads kind w rest) (hkind : kind ≠ .blockComment) : '\n' ∉ w := by
  have hopens : ∀ q : Quote, ¬ q.opens '\n' := by
    intro q
    cases q <;> decide
  cases h with
  | lineComment hbody => simpa using hbody
  | blockComment => exact absurd rfl hkind
  | openComment => exact absurd rfl hkind
  | @literal q first last body _ hfirst hbody hlast =>
    intro hmem
    rw [List.mem_cons, List.mem_append, List.mem_singleton] at hmem
    obtain rfl | hmem | rfl := hmem
    · exact hopens q hfirst
    · exact (hbody _ hmem).1 rfl
    · rw [Quote.not_closes_feed] at hlast
      cases hlast
  | @openLiteral q first body _ hfirst hbody =>
    intro hmem
    obtain rfl | hmem := List.mem_cons.mp hmem
    · exact hopens q hfirst
    · exact (hbody _ hmem).1 rfl

lemma Segment.masked_region (h : '\n' ∉ w) :
    (region kind w).masked = List.replicate w.length ' ' := by
  rw [masked, List.eq_replicate_iff]
  refine ⟨List.length_map _, ?_⟩
  intro d hd
  obtain ⟨c, hc, rfl⟩ := List.mem_map.mp hd
  exact if_neg fun (e : c = '\n') => h (e ▸ hc)

lemma Segment.exists_split_of_mem_spansFrom {ss : List Segment} {start : Nat} {s : MaskSpan}
    (h : s ∈ spansFrom start ss) :
    ∃ front w tail, ss = front ++ .region s.kind w :: tail ∧
      s.start = start + (front.flatMap text).length ∧ s.length = w.length := by
  induction ss generalizing start with
  | nil => cases h
  | cons x ss ih =>
    have later : ∀ {next : Nat}, next = start + x.text.length → s ∈ spansFrom next ss →
        ∃ front w tail, x :: ss = front ++ .region s.kind w :: tail ∧
          s.start = start + (front.flatMap text).length ∧ s.length = w.length := by
      rintro next rfl h
      obtain ⟨front, w, tail, rfl, hstart, hlen⟩ := ih h
      refine ⟨x :: front, w, tail, rfl, ?_, hlen⟩
      rw [List.flatMap_cons, List.length_append]
      omega
    cases x with
    | plain c => exact later rfl h
    | region kind w =>
      obtain rfl | h := List.mem_cons.mp h
      · exact ⟨[], w, ss, rfl, rfl, rfl⟩
      · exact later rfl h

/-- Other characters between the marks of a region change that segment and no other. -/
lemma segments_refilled {t : Text} {front tail : List Segment}
    (h : segments t = front ++ .region kind w :: tail) (hfill : Refilled kind w w') :
    segments (front.flatMap Segment.text ++ (w' ++ tail.flatMap Segment.text))
      = front ++ .region kind w' :: tail := by
  -- what stands before the region goes on with the same character as before
  have hhead : ∀ {cs : Text} {front : List Segment},
      segments cs = front ++ .region kind w :: tail →
      (front.flatMap Segment.text ++ (w' ++ tail.flatMap Segment.text)).head? = cs.head? := by
    intro cs front h
    have hcs := segments_text cs
    rw [h, List.flatMap_append, List.flatMap_cons] at hcs
    rw [← hcs]
    cases front.flatMap Segment.text with
    | nil => exact hfill.head?_append _
    | cons => rfl
  induction t using segments_induction generalizing front with
  | nil =>
    have hlen := congrArg List.length h
    rw [List.length_append, List.length_cons] at hlen
    cases hlen
  | plain c cs hnone ih =>
    rw [segments_plain hnone] at h
    cases front with
    | nil => cases h
    | cons x front =>
      obtain ⟨rfl, hrest⟩ := List.cons.inj h
      have hnone' := leadingRegion?_eq_none_of_head hnone fun d hd => .inr (hhead hrest ▸ hd)
      exact (segments_plain hnone').trans (congrArg _ (ih hrest))
  | region k u rest hregion ih =>
    rw [segments_region hregion] at h
    cases front with
    | nil =>
      obtain ⟨e, rfl⟩ := List.cons.inj h
      cases e
      have hregion' := (hfill.reads (reads_of_leadingRegion? hregion)).leadingRegion? hfill.kind_ne
      rw [segments_text]
      exact segments_region hregion'
    | cons x front =>
      obtain ⟨rfl, hrest⟩ := List.cons.inj h
      have hne : rest ≠ [] := by
        rintro rfl
        cases front <;> cases hrest
      have hregion' := leadingRegion?_behind hregion
        (fun hline c hc => hline c (hhead hrest ▸ hc))
        (by rintro rfl; exact commentCloses_of_leadingRegion? hregion hne)
      rw [List.flatMap_cons, List.append_assoc]
      exact (segments_region hregion').trans (congrArg _ (ih hrest))

lemma reads_of_mem_maskSpans {before after : Text}
    (h : ⟨before.length, w.length, kind⟩ ∈ maskSpans (before ++ (w ++ after))) :
    Reads kind w after := by
  obtain ⟨o, n, hstart, hlen, hregion⟩ := leadingRegion?_of_mem_maskSpans h
  dsimp only at hstart hlen hregion
  obtain rfl : before.length = o := by omega
  obtain rfl : w.length = n := by omega
  rw [List.drop_left] at hregion
  exact reads_of_leadingRegion? hregion

/-- A region of a text parts its segments. -/
lemma exists_segments_split {before after : Text}
    (h : ⟨before.length, w.length, kind⟩ ∈ maskSpans (before ++ (w ++ after))) :
    ∃ front tail, segments (before ++ (w ++ after)) = front ++ .region kind w :: tail ∧
      front.flatMap Segment.text = before ∧ tail.flatMap Segment.text = after := by
  obtain ⟨front, v, tail, hsegments, hstart, hlen⟩ := Segment.exists_split_of_mem_spansFrom h
  dsimp only at hsegments hstart hlen
  have htext := segments_text (before ++ (w ++ after))
  rw [hsegments, List.flatMap_append, List.flatMap_cons] at htext
  obtain ⟨hbefore, hbehind⟩ := List.append_inj htext (by omega)
  obtain ⟨hregion, hafter⟩ := List.append_inj hbehind (by rw [Segment.text]; omega)
  exact ⟨front, tail, hregion ▸ hsegments, hbefore, hafter⟩

/-- What stands between the marks of a line comment or a literal is seen nowhere else: with other
characters of the same number there, of which none ends the line or the literal, a text has the same
regions and the same masked text, and so the same classification, events and classes. -/
theorem analyze_refilled (before w w' after : Text) (kind : MaskKind)
    (hspan : ⟨before.length, w.length, kind⟩ ∈ maskSpans (before ++ (w ++ after)))
    (hfill : Refilled kind w w') :
    maskSpans (before ++ (w' ++ after)) = maskSpans (before ++ (w ++ after)) ∧
    maskText (before ++ (w' ++ after)) = maskText (before ++ (w ++ after)) ∧
    classify (maskText (before ++ (w' ++ after))) = classify (maskText (before ++ (w ++ after))) ∧
    (analyze (before ++ (w' ++ after))).events = (analyze (before ++ (w ++ after))).events ∧
    (analyze (before ++ (w' ++ after))).classes = (analyze (before ++ (w ++ after))).classes := by
  obtain ⟨front, tail, hold, hbefore, hafter⟩ := exists_segments_split hspan
  have hnew := segments_refilled hold hfill
  rw [hbefore, hafter] at hnew
  have hspans : maskSpans (before ++ (w' ++ after)) = maskSpans (before ++ (w ++ after)) := by
    rw [maskSpans, maskSpans, hnew, hold, Segment.spansFrom_append, Segment.spansFrom_append,
      Segment.spansFrom, Segment.spansFrom, hfill.length_eq]
  have hmasked : maskText (before ++ (w' ++ after)) = maskText (before ++ (w ++ after)) := by
    have hreads := reads_of_mem_maskSpans hspan
    have hline := hreads.not_mem_feed hfill.kind_ne
    have hline' := (hfill.reads hreads).not_mem_feed hfill.kind_ne
    rw [maskText, maskText, hnew, hold, List.flatMap_append, List.flatMap_append, List.flatMap_cons,
      List.flatMap_cons, Segment.masked_region hline, Segment.masked_region hline', hfill.length_eq]
  simp only [analyze, hmasked]
  exact ⟨hspans, trivial, trivial, trivial, trivial⟩

/-- A string keeps its place when the opening mark of a comment is written into it. -/
theorem analyze_refilled_string :
    ⟨2, 4, .literal .string true⟩ ∈ maskSpans ['a', '=', '"', 'b', '*', '"', ';'] ∧
    Refilled (.literal .string true) ['"', 'b', '*', '"'] ['"', '/', '*', '"'] ∧
    maskSpans ['a', '=', '"', '/', '*', '"', ';'] = maskSpans ['a', '=', '"', 'b', '*', '"', ';'] ∧
    (analyze ['a', '=', '"', '/', '*', '"', ';']).events
      = (analyze ['a', '=', '"', 'b', '*', '"', ';']).events := by
  have hspan : ⟨2, 4, .literal .string true⟩ ∈ maskSpans ['a', '=', '"', 'b', '*', '"', ';'] := by
    decide
  have hfill : Refilled (.literal .string true) ['"', 'b', '*', '"'] ['"', '/', '*', '"'] :=
    @Refilled.literal .string '"' '"' ['b', '*'] ['/', '*'] rfl
      (by simp [Quote.closes, Quote.opens])
  have hsame := analyze_refilled ['a', '='] _ _ [';'] _ hspan hfill
  exact ⟨hspan, hfill, hsame.1, hsame.2.2.2.1⟩

end LazeEdit
