import LazeEdit.Proofs.Text.Lines
import LazeEdit.Proofs.Token.Merge
import LazeEdit.Token.Wire

/-!
# The wire form of spans

A span that stands on one line is `OnLine`; it may be empty. Reading back the groups of such spans
gives the spans, in whatever order they stand (`decodeFrom_encodeFrom_of_onLine`, `decode_encode`). A
span that is not empty and has modifiers of the legend only is `Encodable`. The groups of encodable
spans, each behind the one before it, are a stream as editors expect it: `WellFormed` follows the
groups with the row, the column and the width of the span before them. Both proofs go along the list
of spans and use only that on one line a position moves right by the width of the text.
-/

namespace LazeEdit

/-- A set that has no modifier beyond the fourteen of the legend. -/
def Modifiers.InLegend (ms : Modifiers) : Prop :=
  ms.bits < 16384

instance (ms : Modifiers) : Decidable ms.InLegend :=
  inferInstanceAs (Decidable (ms.bits < 16384))

/-- No modifier is in the legend. -/
lemma Modifiers.inLegend_none : Modifiers.none.InLegend := by
  decide

/-- Each single modifier is in the legend. -/
lemma Modifiers.inLegend_only (m : Modifier) : (Modifiers.only m).InLegend := by
  cases m <;> decide

/-- The legend has twenty-seven kinds. -/
lemma TokenType.index_lt (k : TokenType) : k.index < 27 := by
  cases k with
  | scope turn =>
    show 21 + turn.val < 27
    omega
  | _ => decide

/-- A span that one group can carry. -/
structure TokenSpan.Encodable (t : Text) (s : TokenSpan) (a b : Nat) : Prop where
  place : s.At a b
  piece : LinePiece t a b
  legend : s.modifiers.InLegend

/-- A span that stands on one line of a text, between two offsets that may be one. -/
def TokenSpan.OnLine (t : Text) (s : TokenSpan) : Prop :=
  ∃ a b, s.At a b ∧ a ≤ b ∧ ∃ before line after, LineIn t before line after ∧
    before.length ≤ a ∧ b ≤ before.length + line.length

lemma TokenSpan.Encodable.onLine {t : Text} {s : TokenSpan} {a b : Nat} (h : s.Encodable t a b) :
    s.OnLine t :=
  ⟨a, b, h.place, Nat.le_of_lt h.piece.lt, h.piece.exists_lineIn⟩

/-- A span inside a text that holds no line feed stands on one line. -/
lemma TokenSpan.onLine_of_slice {t : Text} {s : TokenSpan} (hstart : 0 ≤ s.start)
    (hle : s.start ≤ s.stop) (hstop : s.stop ≤ t.length)
    (hfeed : '\n' ∉ slice t s.start s.stop) : s.OnLine t := by
  obtain ⟨a, ha⟩ := Int.eq_ofNat_of_zero_le hstart
  obtain ⟨b, hb⟩ := Int.eq_ofNat_of_zero_le (Int.le_trans hstart hle)
  rw [ha, hb] at hle hfeed
  rw [hb] at hstop
  have hab : a ≤ b := Int.ofNat_le.mp hle
  have hlen : b ≤ t.length := Int.ofNat_le.mp hstop
  refine ⟨a, b, ⟨ha, hb⟩, hab, exists_lineIn_of_line hab hlen ?_⟩
  intro i hai hib hi
  refine hfeed (List.mem_of_getElem? (i := i - a) ?_)
  rw [getElem?_slice hlen (by omega), Nat.add_sub_cancel' hai, hi]

namespace Wire

/-- A stream of groups behind a span of a width at a row and column. No group goes back in the
text or reaches into the span before it, each stays on its line, and its kind and modifiers are in
the legend of twenty-seven kinds and fourteen modifiers. -/
inductive WellFormed (src : Source) : (row column width : Int) → List Int → Prop where
  | nil {row column width : Int} :
    WellFormed src row column width []
  | group {row column width rows columns row' column' width' kind mods : Int} {line : Text}
      {rest : List Int} :
    0 ≤ rows →
    (if rows = 0 then width else 0) ≤ columns →
    0 < width' →
    row' = row + rows →
    column' = (if rows = 0 then column + columns else columns) →
    src.line row' = .ok line →
    column' + width' ≤ units line →
    0 ≤ kind ∧ kind < 27 →
    0 ≤ mods ∧ mods < 16384 →
    WellFormed src row' column' width' rest →
    WellFormed src row column width (rows :: columns :: width' :: kind :: mods :: rest)

/-- Each span takes five numbers. -/
lemma length_encodeFrom (src : Source) (last : Position) (ss : List TokenSpan) :
    (encodeFrom src last ss).length = 5 * ss.length := by
  induction ss generalizing last with
  | nil => rfl
  | cons s ss ih =>
    rw [encodeFrom, List.length_append, ih, @List.length_cons _ s ss]
    show 5 + _ = _
    omega

/-- A column that is sent relative to the last span is found again. -/
lemma column_eq (last p : Position) :
    (if (p.row : Int) - last.row = 0 then
      (last.column : Int) + (if p.row = last.row then (p.column : Int) - last.column else p.column)
    else if p.row = last.row then (p.column : Int) - last.column else p.column) = p.column := by
  by_cases h : p.row = last.row
  · rw [if_pos (by omega), if_pos h]
    omega
  · rw [if_neg (by omega), if_neg h]

/-- Reading back the groups of spans that stand on one line each gives the spans, whatever span came
before them. -/
lemma decodeFrom_encodeFrom_of_onLine {t : Text} {ss : List TokenSpan} (last : Position)
    (h : ∀ s ∈ ss, s.OnLine t) :
    decodeFrom (.ofText t) last.row last.column (encodeFrom (.ofText t) last ss) = some ss := by
  induction ss generalizing last with
  | nil => rfl
  | cons s ss ih =>
    obtain ⟨a, b, ⟨hstart, hstop⟩, hab, before, line, after, hline, hlo, hhi⟩ :=
      h s List.mem_cons_self
    have hlen := hline.length_eq
    have hrest := ih ((Source.ofText t).position s.start) fun u hu =>
      h u (List.mem_cons_of_mem s hu)
    rw [hstart] at hrest
    have hback : (Source.ofText t).offset ((Source.ofText t).position a).row
        (((Source.ofText t).position a).column + (Source.ofText t).spanUnits a b) = b := by
      rw [← Int.natCast_add, hline.column_add hlo hab hhi,
        hline.position_eq hlo (by omega), hline.offset_eq, fitting_units_take (by omega)]
      omega
    have hrow : (last.row : Int) + (((Source.ofText t).position a).row - last.row)
        = ((Source.ofText t).position a).row := by
      omega
    -- the row, the column and the end that the decoder computes are those of the span
    rw [encodeFrom, hstart, hstop]
    show decodeFrom _ _ _ (_ :: _ :: _ :: _ :: _ :: encodeFrom _ _ ss) = _
    rw [decodeFrom, column_eq, hrow, TokenType.ofIndex?_index, hrest,
      offset_position (c := a) (by omega), hback]
    have hs : s = ⟨(a : Int), (b : Int) - a, s.type, s.modifiers⟩ := by
      have hlength : s.length = b - a := by
        have hsum : s.start + s.length = b := hstop
        omega
      rw [← hlength, ← hstart]
    conv_rhs => rw [hs]
    rfl

/-- Reading back the groups of encodable spans gives the spans. -/
lemma decodeFrom_encodeFrom {t : Text} {ss : List TokenSpan} (last : Position)
    (h : ∀ s ∈ ss, ∃ a b, s.Encodable t a b) :
    decodeFrom (.ofText t) last.row last.column (encodeFrom (.ofText t) last ss) = some ss := by
  refine decodeFrom_encodeFrom_of_onLine last fun s hs => ?_
  obtain ⟨a, b, hspan⟩ := h s hs
  exact hspan.onLine

/-- The wire form loses nothing: reading back the groups of spans gives the spans, with their starts,
ends, kinds and modifiers and in their order, when each lies in the text and holds no line feed. They
need not be sorted, and they may be empty, overlap or share a position. -/
theorem decode_encode (t : Text) (ss : List TokenSpan)
    (h : ∀ s ∈ ss, 0 ≤ s.start ∧ s.start ≤ s.stop ∧ s.stop ≤ t.length ∧
      '\n' ∉ slice t s.start s.stop) :
    decode (.ofText t) (encode (.ofText t) ss) = some ss := by
  refine decodeFrom_encodeFrom_of_onLine ⟨0, 0⟩ fun s hs => ?_
  obtain ⟨hstart, hle, hstop, hfeed⟩ := h s hs
  exact TokenSpan.onLine_of_slice hstart hle hstop hfeed

/-- A text with a character of two units on its second line. -/
def wideText : Text :=
  ['a', '\n', 'b', '😀', 'c', '\n']

/-- Spans that go back to an earlier line, share a position, overlap and are empty. -/
def scatteredSpans : List TokenSpan :=
  [⟨4, 1, .number, .only .hexadecimal⟩, ⟨0, 1, .keyword, .none⟩, ⟨2, 3, .string, ⟨99999⟩⟩,
    ⟨2, 1, .bracket, .only .opening⟩, ⟨6, 0, .comment, .none⟩, ⟨3, 1, .operator, .none⟩]

theorem decode_encode_scatteredSpans :
    (∀ s ∈ scatteredSpans, 0 ≤ s.start ∧ s.start ≤ s.stop ∧ s.stop ≤ wideText.length ∧
      '\n' ∉ slice wideText s.start s.stop) ∧
    encode (.ofText wideText) scatteredSpans
      = [1, 3, 1, 3, 512, -1, 0, 1, 2, 0, 1, 0, 4, 1, 99999, 0, 0, 1, 24, 2048, 1, 0, 0, 0, 0,
        -1, 1, 2, 5, 0] ∧
    decode (.ofText wideText) (encode (.ofText wideText) scatteredSpans) = some scatteredSpans := by
  have hspans : ∀ s ∈ scatteredSpans, 0 ≤ s.start ∧ s.start ≤ s.stop ∧
      s.stop ≤ wideText.length ∧ '\n' ∉ slice wideText s.start s.stop := by
    decide
  exact ⟨hspans, by decide, decode_encode wideText scatteredSpans hspans⟩

/-- The groups of spans, each behind the one before it, are well formed behind a piece of a line
that the spans leave behind them. -/
lemma wellFormed_encodeFrom {t before line after : Text} {ss : List TokenSpan} {a b : Nat}
    (hline : LineIn t before line after) (hlo : before.length ≤ a) (hab : a ≤ b)
    (hhi : b ≤ before.length + line.length) (h : ∀ s ∈ ss, ∃ a b, s.Encodable t a b)
    (hpairwise : ss.Pairwise (fun s u => s.stop ≤ u.start))
    (hbehind : ∀ s ∈ ss, (b : Int) ≤ s.start) :
    WellFormed (.ofText t) ((Source.ofText t).position a).row ((Source.ofText t).position a).column
      ((Source.ofText t).spanUnits a b)
      (encodeFrom (.ofText t) ((Source.ofText t).position a) ss) := by
  induction ss generalizing before line after a b with
  | nil => exact .nil
  | cons s ss ih =>
    obtain ⟨a', b', ⟨hstart, hstop⟩, hpiece, hlegend⟩ := h s List.mem_cons_self
    obtain ⟨before', line', after', hline', hlo', hhi'⟩ := hpiece.exists_lineIn
    obtain ⟨hlater, hpairwise⟩ := List.pairwise_cons.mp hpairwise
    have hab' := hpiece.lt
    have hle' := hpiece.le
    have hba : b ≤ a' := by
      have := hbehind s List.mem_cons_self
      omega
    have hrest := ih hline' hlo' (Nat.le_of_lt hab') hhi'
      (fun u hu => h u (List.mem_cons_of_mem s hu)) hpairwise fun u hu => hstop ▸ hlater u hu
    have hrows := position_row_le (t := t) (a := a) (c := a') (by omega) (by omega)
    -- on the row of the last span, this one begins on the line of that span and behind it
    have hcolumns : ((Source.ofText t).position a').row = ((Source.ofText t).position a).row →
        ((Source.ofText t).position a).column + (Source.ofText t).spanUnits a b
          ≤ ((Source.ofText t).position a').column := by
      intro hrow
      rw [hline.position_eq hlo (by omega)] at hrow
      rw [hline.column_add hlo hab hhi,
        hline.position_eq (by omega) (hline.le_of_row_eq (by omega) hrow)]
      exact units_take_le (by omega)
    have hrow : (((Source.ofText t).position a).row : Int)
        + (((Source.ofText t).position a').row - ((Source.ofText t).position a).row)
        = ((Source.ofText t).position a').row := by
      omega
    have hrow' : ((Source.ofText t).position a').row = before'.count '\n' := by
      rw [hline'.position_eq hlo' (by omega)]
    have hwidth : 0 < (Source.ofText t).spanUnits a' b' := by
      have hunits := length_le_units (slice t a' b')
      rw [length_slice hle'] at hunits
      exact Nat.lt_of_lt_of_le (Nat.sub_pos_of_lt hab') hunits
    rw [encodeFrom, hstart, hstop]
    refine WellFormed.group (by omega) ?_ (by exact_mod_cast hwidth) hrow.symm
      (column_eq _ _).symm (hrow' ▸ hline'.line_eq) ?_
      ⟨by omega, by exact_mod_cast s.type.index_lt⟩ ⟨by omega, Int.ofNat_lt.mpr hlegend⟩ hrest
    · by_cases hsame : ((Source.ofText t).position a').row = ((Source.ofText t).position a).row
      · have := hcolumns hsame
        rw [if_pos (by omega), if_pos hsame]
        omega
      · rw [if_neg (by omega), if_neg hsame]
        omega
    · have hunits := units_take_le (t := line') (i := b' - before'.length) (j := line'.length)
        (by omega)
      rw [List.take_length, ← hline'.column_add hlo' (Nat.le_of_lt hab') hhi'] at hunits
      exact_mod_cast hunits

end Wire

end LazeEdit
