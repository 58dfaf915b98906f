import LazeEdit.Proofs.Text.Lines
import Mathlib.Data.List.DropRight
import Mathlib.Order.Bounds.Basic

/-!
# Offsets and editor positions

An offset is first moved into the text, and its position then counts the line feeds before it and
measures what stands behind the last of them (`LineIn.rtakeWhile_take`). The other way, a column of a
line leads to the greatest offset of the line that does not stand beyond the column
(`LineIn.isGreatest_offset`), because `fitting` is the longest beginning of a text that fits in a
width. Every row of a document is the row of one of its lines (`exists_lineIn_row`), so the law of a
line is the law of a row. `offset_position_inverse` puts the two directions together, with the rows
outside the document and the order of positions.
-/

namespace LazeEdit

/-! ### Widths -/

/-- What fits in a width is no wider, unless the width is negative. -/
lemma units_take_fitting_le (width : Int) (t : Text) :
    (units (t.take (fitting width t)) : Int) ≤ max width 0 := by
  induction t generalizing width with
  | nil => exact Int.le_max_right width 0
  | cons c cs ih =>
    rw [fitting]
    split
    case isTrue hfits =>
      have hrest := ih (width - charUnits c)
      rw [List.take_succ_cons, units_cons]
      omega
    case isFalse => exact Int.le_max_right width 0

/-- A beginning of a text that is no wider than a width is no longer than what fits in it. -/
lemma le_fitting {width : Int} {t : Text} {k : Nat} (hk : k ≤ t.length)
    (h : (units (t.take k) : Int) ≤ max width 0) : k ≤ fitting width t := by
  induction t generalizing width k with
  | nil => exact hk
  | cons c cs ih =>
    cases k with
    | zero => exact Nat.zero_le _
    | succ k =>
      have hpos := charUnits_pos c
      rw [List.take_succ_cons, units_cons] at h
      rw [fitting, if_pos (by omega)]
      exact Nat.succ_le_succ (ih (Nat.le_of_succ_le_succ hk) (by omega))

/-! ### Rows -/

/-- A document has one line more than line feeds. -/
lemma lineCount_eq (t : Text) : (Source.ofText t).lineCount = t.count '\n' + 1 := by
  show (lineStartsFrom 0 t).length + 1 = _
  rw [length_lineStartsFrom]

/-- Any number of line feeds up to that of a text stands before some offset of it. -/
lemma exists_count_take {t : Text} {n : Nat} (h : n ≤ t.count '\n') :
    ∃ c ≤ t.length, (t.take c).count '\n' = n := by
  induction t generalizing n with
  | nil =>
    obtain rfl : n = 0 := Nat.le_zero.mp h
    exact ⟨0, Nat.le_refl 0, rfl⟩
  | cons x xs ih =>
    by_cases hx : x = '\n'
    · subst hx
      cases n with
      | zero => exact ⟨0, Nat.zero_le _, rfl⟩
      | succ n =>
        rw [List.count_cons_self] at h
        obtain ⟨c, hc, hcount⟩ := ih (Nat.le_of_succ_le_succ h)
        refine ⟨c + 1, Nat.succ_le_succ hc, ?_⟩
        rw [List.take_succ_cons, List.count_cons_self, hcount]
    · rw [List.count_cons_of_ne hx] at h
      obtain ⟨c, hc, hcount⟩ := ih h
      refine ⟨c + 1, Nat.succ_le_succ hc, ?_⟩
      rw [List.take_succ_cons, List.count_cons_of_ne hx, hcount]

/-- Every row of a document is the row of one of its lines. -/
lemma exists_lineIn_row {t : Text} {row : Int} (hlo : 0 ≤ row)
    (hhi : row < (Source.ofText t).lineCount) :
    ∃ before line after, LineIn t before line after ∧ row = (before.count '\n' : Nat) := by
  rw [lineCount_eq] at hhi
  obtain ⟨c, hc, hcount⟩ := exists_count_take (t := t) (n := row.toNat) (by omega)
  obtain ⟨before, line, after, hline, hlo', hhi'⟩ := exists_lineIn hc
  refine ⟨before, line, after, hline, ?_⟩
  have hrow := position_row hc
  rw [hline.position_eq hlo' hhi', hcount] at hrow
  change before.count '\n' = row.toNat at hrow
  omega

namespace LineIn

variable {t before line after : Text} {c : Nat}

/-- What stands between the last line feed before an offset and the offset is the line so far. -/
lemma rtakeWhile_take (h : LineIn t before line after) (hlo : before.length ≤ c)
    (hhi : c ≤ before.length + line.length) :
    (t.take c).rtakeWhile (· != '\n') = line.take (c - before.length) := by
  have hplain : ∀ x ∈ (line.take (c - before.length)).reverse, (x != '\n') = true := by
    intro x hx
    rw [bne_iff_ne]
    rintro rfl
    exact h.plain (List.mem_of_mem_take (List.mem_reverse.mp hx))
  rw [h.take_eq hlo hhi, List.rtakeWhile, List.reverse_append,
    List.takeWhile_append_of_pos hplain, List.reverse_append, List.reverse_reverse]
  obtain rfl | ⟨u, rfl⟩ := h.first
  · rfl
  · rw [List.reverse_append]
    rfl

/-- The column of an offset of the line is the width of the line so far. -/
lemma column_eq (h : LineIn t before line after) (hlo : before.length ≤ c)
    (hhi : c ≤ before.length + line.length) :
    ((Source.ofText t).position c).column = units (line.take (c - before.length)) := by
  rw [h.position_eq hlo hhi]

/-- A column of the line leads to the greatest offset of the line that is not beyond the column. -/
lemma isGreatest_offset (h : LineIn t before line after) (column : Int) :
    IsGreatest {p : Nat | before.length ≤ p ∧ p ≤ before.length + line.length ∧
        (((Source.ofText t).position p).column : Int) ≤ max column 0}
      ((Source.ofText t).offset (before.count '\n' : Nat) column) := by
  rw [h.offset_eq]
  have hfit := fitting_le_length column line
  constructor
  · refine ⟨Nat.le_add_right _ _, Nat.add_le_add_left hfit _, ?_⟩
    rw [h.column_eq (Nat.le_add_right _ _) (Nat.add_le_add_left hfit _), Nat.add_sub_cancel_left]
    exact units_take_fitting_le column line
  · rintro p ⟨hlo, hhi, hcolumn⟩
    rw [h.column_eq hlo hhi] at hcolumn
    have hle := le_fitting (by omega) hcolumn
    omega

/-- The offset of a column of the line is on the row of the line. -/
lemma row_offset (h : LineIn t before line after) (column : Int) :
    ((Source.ofText t).position
      ((Source.ofText t).offset (before.count '\n' : Nat) column)).row = before.count '\n' := by
  obtain ⟨hlo, hhi, _⟩ := (h.isGreatest_offset column).1
  rw [h.position_eq hlo hhi]

end LineIn

/-! ### Both directions -/

/-- The position of an offset is that of the offset moved into the text. -/
lemma position_clamp (s : Source) (o : Int) : s.position o = s.position (s.clamp o) := by
  have hclamp : s.clamp (s.clamp o) = s.clamp o := by
    rw [Source.clamp, Source.clamp, Int.toNat_natCast, Nat.min_assoc, Nat.min_self]
  rw [Source.position, Source.position, hclamp]

/-- A row before the document is moved to its start. -/
lemma offset_of_neg {t : Text} {row : Int} (h : row < 0) (column : Int) :
    (Source.ofText t).offset row column = 0 := by
  rw [Source.offset, if_pos h]

/-- A row behind the document is moved to its end. -/
lemma offset_of_le {t : Text} {row : Int} (h : (Source.ofText t).lineCount ≤ row) (column : Int) :
    (Source.ofText t).offset row column = t.length := by
  rw [Source.lineCount] at h
  rw [Source.offset, if_neg (by omega), List.drop_eq_nil_of_le (by omega)]
  rfl

/-- An offset of a lower row is not behind an offset of a higher one. -/
lemma offset_le_of_row_lt {t : Text} {row row' : Int} (h : row < row') (column column' : Int) :
    (Source.ofText t).offset row column ≤ (Source.ofText t).offset row' column' := by
  by_cases hlo : row < 0
  · rw [offset_of_neg hlo]
    exact Nat.zero_le _
  by_cases hhi : (Source.ofText t).lineCount ≤ row'
  · rw [offset_of_le hhi]
    exact offset_le_length t row column
  obtain ⟨before, line, after, hline, rfl⟩ :=
    exists_lineIn_row (Int.not_lt.mp hlo) (Int.lt_trans h (Int.not_le.mp hhi))
  obtain ⟨before', line', after', hline', rfl⟩ :=
    exists_lineIn_row (Int.le_trans (Int.not_lt.mp hlo) (Int.le_of_lt h)) (Int.not_le.mp hhi)
  by_contra hnot
  have hrows := position_row_le (Nat.le_of_not_le hnot) (offset_le_length t _ column)
  rw [hline.row_offset, hline'.row_offset] at hrows
  omega

/-- On one row an offset does not go back when the column grows. -/
lemma offset_le_of_column_le {t : Text} {row column column' : Int} (h : column ≤ column') :
    (Source.ofText t).offset row column ≤ (Source.ofText t).offset row column' := by
  by_cases hlo : row < 0
  · rw [offset_of_neg hlo, offset_of_neg hlo]
  by_cases hhi : (Source.ofText t).lineCount ≤ row
  · rw [offset_of_le hhi, offset_of_le hhi]
  obtain ⟨before, line, after, hline, rfl⟩ :=
    exists_lineIn_row (Int.not_lt.mp hlo) (Int.not_le.mp hhi)
  refine (hline.isGreatest_offset column).mono (hline.isGreatest_offset column') ?_
  rintro p ⟨hlo, hhi, hcolumn⟩
  exact ⟨hlo, hhi, by omega⟩

/-- Offsets and editor positions are inverse up to clamping. The position of an offset, moved into the
text as `c`, counts the line feeds before `c` and measures what stands behind the last of them, and it
leads back to `c`. Every position leads into the text: one of a row of the document to the greatest
offset of that row whose column is not beyond it, one before the document to its start, and one behind
it to its end. A position further on, by row and then by column, does not lead further back. -/
theorem offset_position_inverse (t : Text) :
    (∀ o : Int, ∃ c : Nat, (c : Int) = max 0 (min o t.length) ∧
      ((Source.ofText t).position o).row = (t.take c).count '\n' ∧
      ((Source.ofText t).position o).column = units ((t.take c).rtakeWhile (· != '\n')) ∧
      (Source.ofText t).offset ((Source.ofText t).position o).row
        ((Source.ofText t).position o).column = c) ∧
    (∀ row column : Int, (Source.ofText t).offset row column ≤ t.length) ∧
    (∀ row column : Int, 0 ≤ row → row < (Source.ofText t).lineCount →
      ∃ start stop : Nat, (Source.ofText t).lineStart row = .ok start ∧
        (Source.ofText t).lineEnd row = .ok (stop : Int) ∧
        IsGreatest {p : Nat | start ≤ p ∧ p ≤ stop ∧
            (((Source.ofText t).position p).column : Int) ≤ max column 0}
          ((Source.ofText t).offset row column)) ∧
    (∀ row column : Int, row < 0 → (Source.ofText t).offset row column = 0) ∧
    (∀ row column : Int, (Source.ofText t).lineCount ≤ row →
      (Source.ofText t).offset row column = t.length) ∧
    ∀ row column row' column' : Int, row < row' ∨ row = row' ∧ column ≤ column' →
      (Source.ofText t).offset row column ≤ (Source.ofText t).offset row' column' := by
  refine ⟨?_, offset_le_length t, ?_, fun row column h => offset_of_neg h column,
    fun row column h => offset_of_le h column, ?_⟩
  · intro o
    have hclamp : (Source.ofText t).clamp o = min o.toNat t.length := rfl
    have hle : (Source.ofText t).clamp o ≤ t.length := by omega
    obtain ⟨before, line, after, hline, hlo, hhi⟩ := exists_lineIn hle
    rw [position_clamp]
    refine ⟨(Source.ofText t).clamp o, by omega, position_row hle, ?_, offset_position hle⟩
    rw [hline.column_eq hlo hhi, hline.rtakeWhile_take hlo hhi]
  · intro row column hlo hhi
    obtain ⟨before, line, after, hline, rfl⟩ := exists_lineIn_row hlo hhi
    exact ⟨before.length, before.length + line.length, hline.lineStart_eq, hline.lineEnd_eq,
      hline.isGreatest_offset column⟩
  · rintro row column row' column' (hrow | ⟨rfl, hcolumn⟩)
    · exact offset_le_of_row_lt hrow column column'
    · exact offset_le_of_column_le hcolumn

/-- An empty line, a line with a character of two units and a line feed at the end. -/
def astralLines : Text :=
  ['\n', 'a', '😀', 'b', '\n']

/-- A column in the middle of the wide character leads before it, and each end of it comes back from
its own position. -/
theorem offset_position_astralLines :
    (1 : Int) < (Source.ofText astralLines).lineCount ∧
    IsGreatest {p : Nat | 1 ≤ p ∧ p ≤ 4 ∧
      (((Source.ofText astralLines).position p).column : Int) ≤ max 2 0} 2 ∧
    (Source.ofText astralLines).position 3 = ⟨1, 3⟩ ∧
    (Source.ofText astralLines).offset 1 2 ≤ (Source.ofText astralLines).offset 2 (-7) := by
  obtain ⟨_, _, hrow, _, _, hmono⟩ := offset_position_inverse astralLines
  have hcount : (1 : Int) < (Source.ofText astralLines).lineCount := by decide
  obtain ⟨start, stop, hstart, hstop, hgreatest⟩ := hrow 1 2 (by decide) hcount
  cases hstart
  obtain rfl : stop = 4 := Int.ofNat.inj (Except.ok.inj hstop.symm)
  exact ⟨hcount, hgreatest, by decide, hmono 1 2 2 (-7) (.inl (by decide))⟩

end LazeEdit
