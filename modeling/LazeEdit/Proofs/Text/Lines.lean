import LazeEdit.Proofs.Text.Characters
import LazeEdit.Text.Source
import Mathlib.Data.List.Count

/-!
# Lines of a text

`LineIn` takes a text apart around one of its lines, and every offset of a text lies on such a line
(`exists_lineIn`). The line table of the text splits at the same place, so that positions, offsets
and line texts are read off the line alone (`LineIn.position_eq`, `LineIn.offset_eq`,
`LineIn.line_eq`). From these come the round trip of an offset through its position, and the order
of positions: a later offset is on no earlier row, and on the row of a line it lies on that line. A
`LinePiece` is a stretch of text without a line feed, so it stands on one line.
-/

namespace LazeEdit

/-! ### Widths -/

/-- A beginning of a text that is as wide as the first `k` characters has `k` characters. -/
lemma fitting_units_take {t : Text} {k : Nat} (h : k ≤ t.length) :
    fitting (units (t.take k)) t = k := by
  induction t generalizing k with
  | nil =>
    obtain rfl : k = 0 := Nat.le_zero.mp h
    rfl
  | cons c cs ih =>
    cases k with
    | zero =>
      have := charUnits_pos c
      rw [List.take_zero, units_nil, fitting, if_neg (by omega)]
    | succ k =>
      have hwidth : ((units ((c :: cs).take (k + 1)) : Nat) : Int) - charUnits c
          = units (cs.take k) := by
        rw [List.take_succ_cons, units_cons]
        omega
      rw [fitting, hwidth, ih (Nat.le_of_succ_le_succ h), List.take_succ_cons, units_cons,
        if_pos (by omega)]

/-- What fits in a width is a beginning of the text. -/
lemma fitting_le_length (width : Int) (t : Text) : fitting width t ≤ t.length := by
  induction t generalizing width with
  | nil => exact Nat.le_refl 0
  | cons c cs ih =>
    rw [fitting]
    split
    · exact Nat.succ_le_succ (ih _)
    · exact Nat.zero_le _

/-- A text is at least as wide as it is long. -/
lemma length_le_units (t : Text) : t.length ≤ units t := by
  induction t with
  | nil => exact Nat.le_refl 0
  | cons c cs ih =>
    have := charUnits_pos c
    rw [List.length_cons, units_cons]
    omega

/-- A longer beginning of a text is at least as wide. -/
lemma units_take_le {t : Text} {i j : Nat} (h : i ≤ j) : units (t.take i) ≤ units (t.take j) := by
  have htake : t.take j = t.take i ++ (t.drop i).take (j - i) := by
    rw [← List.take_add, Nat.add_sub_cancel' h]
  rw [htake, units_append]
  exact Nat.le_add_right _ _

/-! ### Line tables -/

/-- The line starts of a text in two parts. -/
lemma lineStartsFrom_append (n : Nat) (s t : Text) :
    lineStartsFrom n (s ++ t) = lineStartsFrom n s ++ lineStartsFrom (n + s.length) t := by
  induction s generalizing n with
  | nil => rfl
  | cons c cs ih =>
    have hlen : n + (c :: cs).length = n + 1 + cs.length := by
      rw [List.length_cons]
      omega
    rw [List.cons_append, lineStartsFrom, lineStartsFrom, ih, hlen]
    split <;> rfl

/-- A text has a line start for each line feed. -/
lemma length_lineStartsFrom (n : Nat) (t : Text) :
    (lineStartsFrom n t).length = t.count '\n' := by
  induction t generalizing n with
  | nil => rfl
  | cons c cs ih =>
    rw [lineStartsFrom]
    split
    case isTrue hc => rw [hc, List.length_cons, ih, List.count_cons_self]
    case isFalse hc => rw [ih, List.count_cons_of_ne hc]

/-- The line starts of a text stand behind its line feeds. -/
lemma bounds_of_mem_lineStartsFrom {n m : Nat} {t : Text} (h : m ∈ lineStartsFrom n t) :
    n < m ∧ m ≤ n + t.length := by
  induction t generalizing n with
  | nil => cases h
  | cons c cs ih =>
    rw [List.length_cons]
    have later : m ∈ lineStartsFrom (n + 1) cs → n < m ∧ m ≤ n + (cs.length + 1) := by
      intro h
      have := ih h
      omega
    rw [lineStartsFrom] at h
    split at h
    · obtain rfl | h := List.mem_cons.mp h
      · omega
      · exact later h
    · exact later h

/-! ### Taking a text apart -/

/-- A line of a text, with what stands before it and behind it. -/
structure LineIn (t before line after : Text) : Prop where
  text : t = before ++ (line ++ after)
  plain : '\n' ∉ line
  first : before = [] ∨ ∃ u, before = u ++ ['\n']
  last : after = [] ∨ ∃ u, after = '\n' :: u

/-- Every offset of a text lies on a line. -/
lemma exists_lineIn {t : Text} {c : Nat} (h : c ≤ t.length) :
    ∃ before line after, LineIn t before line after ∧
      before.length ≤ c ∧ c ≤ before.length + line.length := by
  induction t generalizing c with
  | nil =>
    refine ⟨[], [], [], ⟨rfl, List.not_mem_nil, .inl rfl, .inl rfl⟩, Nat.zero_le c, ?_⟩
    exact h
  | cons x xs ih =>
    by_cases hzero : c = 0 ∧ x = '\n'
    · obtain ⟨rfl, rfl⟩ := hzero
      exact ⟨[], [], '\n' :: xs, ⟨rfl, List.not_mem_nil, .inl rfl, .inr ⟨xs, rfl⟩⟩,
        Nat.le_refl 0, Nat.le_refl 0⟩
    · have hc : c - 1 ≤ xs.length := by
        rw [List.length_cons] at h
        omega
      obtain ⟨before, line, after, ⟨htext, hplain, hfirst, hlast⟩, hlo, hhi⟩ := ih hc
      -- the new character joins the line only when it is the first of its line and no line feed
      by_cases hjoin : before = [] ∧ x ≠ '\n'
      · obtain ⟨rfl, hx⟩ := hjoin
        refine ⟨[], x :: line, after, ⟨?_, ?_, .inl rfl, hlast⟩, Nat.zero_le c, ?_⟩
        · rw [htext]
          rfl
        · exact fun hmem => (List.mem_cons.mp hmem).elim (fun e => hx e.symm) hplain
        · rw [List.length_nil] at hhi ⊢
          rw [List.length_cons]
          omega
      · have hpos : 0 < c := by
          by_contra hnot
          obtain rfl : c = 0 := by omega
          have hbefore : before = [] := List.length_eq_zero_iff.mp (by omega)
          exact hjoin ⟨hbefore, fun hx => hzero ⟨rfl, hx⟩⟩
        refine ⟨x :: before, line, after, ⟨?_, hplain, .inr ?_, hlast⟩, ?_, ?_⟩
        · rw [htext]
          rfl
        · obtain rfl | ⟨u, rfl⟩ := hfirst
          · obtain rfl : x = '\n' := by
              by_contra hx
              exact hjoin ⟨rfl, hx⟩
            exact ⟨[], rfl⟩
          · exact ⟨x :: u, rfl⟩
        · rw [List.length_cons]
          omega
        · rw [List.length_cons]
          omega

namespace LineIn

variable {t before line after : Text} {a b c : Nat}

/-- The length of a text that is taken apart. -/
lemma length_eq (h : LineIn t before line after) :
    t.length = before.length + (line.length + after.length) := by
  rw [h.text, List.length_append, List.length_append]

/-- The text up to an offset of the line. -/
lemma take_eq (h : LineIn t before line after) (hlo : before.length ≤ c)
    (hhi : c ≤ before.length + line.length) :
    t.take c = before ++ line.take (c - before.length) := by
  rw [h.text, List.take_append, List.take_of_length_le hlo, List.take_append,
    show c - before.length - line.length = 0 by omega, List.take_zero, List.append_nil]

/-- The text of the line from its start. -/
lemma take_drop_eq {k : Nat} (h : LineIn t before line after) (hk : k ≤ line.length) :
    (t.drop before.length).take k = line.take k := by
  rw [h.text, List.drop_left, List.take_append_of_le_length hk]

/-- A line feed stands behind the line, unless the text ends there. -/
lemma getElem?_stop (h : LineIn t before line after)
    (hlt : before.length + line.length < t.length) :
    t[before.length + line.length]? = some '\n' := by
  obtain rfl | ⟨u, rfl⟩ := h.last
  · have := h.length_eq
    rw [List.length_nil] at this
    omega
  · rw [h.text, List.getElem?_append_right (by omega), Nat.add_sub_cancel_left,
      List.getElem?_append_right (Nat.le_refl _), Nat.sub_self]
    rfl

/-- The line table splits at the start of the line. -/
lemma lineStarts_eq (h : LineIn t before line after) :
    ∃ earlier later, (Source.ofText t).lineStarts = earlier ++ before.length :: later ∧
      earlier.length = before.count '\n' ∧ (∀ n ∈ earlier, n ≤ before.length) ∧
      (∀ n ∈ later, before.length + line.length < n) ∧
      ((later = [] ∧ after = []) ∨
        ∃ ns, later = (before.length + line.length + 1) :: ns) := by
  have hline : lineStartsFrom before.length line = [] := by
    rw [← List.length_eq_zero_iff, length_lineStartsFrom, List.count_eq_zero]
    exact h.plain
  have hstarts : (Source.ofText t).lineStarts
      = 0 :: lineStartsFrom 0 before ++ lineStartsFrom (before.length + line.length) after := by
    show 0 :: lineStartsFrom 0 t = _
    rw [h.text, lineStartsFrom_append, lineStartsFrom_append, Nat.zero_add, hline, List.nil_append,
      List.cons_append]
  have hlater : ∀ n ∈ lineStartsFrom (before.length + line.length) after,
      before.length + line.length < n := fun n hn => (bounds_of_mem_lineStartsFrom hn).1
  have hnext : (lineStartsFrom (before.length + line.length) after = [] ∧ after = []) ∨
      ∃ ns, lineStartsFrom (before.length + line.length) after
        = (before.length + line.length + 1) :: ns := by
    obtain rfl | ⟨u, rfl⟩ := h.last
    · exact .inl ⟨rfl, rfl⟩
    · exact .inr ⟨lineStartsFrom (before.length + line.length + 1) u, rfl⟩
  -- the start of the line is the last entry of what stands before it: offset zero, or the entry of
  -- the line feed that ends it
  obtain rfl | ⟨u, rfl⟩ := h.first
  · exact ⟨[], _, hstarts, rfl, fun n hn => (List.not_mem_nil hn).elim, hlater, hnext⟩
  · have hlen : (u ++ ['\n']).length = u.length + 1 := List.length_append
    refine ⟨0 :: lineStartsFrom 0 u, _, ?_, ?_, ?_, hlater, hnext⟩
    · rw [hstarts, lineStartsFrom_append, Nat.zero_add, hlen]
      show 0 :: (lineStartsFrom 0 u ++ [u.length + 1]) ++ _ = _
      rw [List.cons_append, List.append_assoc, List.cons_append]
      rfl
    · rw [List.length_cons, length_lineStartsFrom, List.count_append]
      rfl
    · intro n hn
      obtain rfl | hn := List.mem_cons.mp hn
      · exact Nat.zero_le _
      · have := bounds_of_mem_lineStartsFrom hn
        rw [hlen]
        omega

/-- The position of an offset of the line. -/
lemma position_eq (h : LineIn t before line after) (hlo : before.length ≤ c)
    (hhi : c ≤ before.length + line.length) :
    (Source.ofText t).position c
      = ⟨before.count '\n', units (line.take (c - before.length))⟩ := by
  obtain ⟨earlier, later, hstarts, hcount, hearlier, hlater, _⟩ := h.lineStarts_eq
  have hlen := h.length_eq
  have hclamp : (Source.ofText t).clamp c = c := by
    show min (c : Int).toNat t.length = c
    omega
  have hwhile : ((Source.ofText t).lineStarts.takeWhile (· ≤ c)) = earlier ++ [before.length] := by
    have hkeep : ∀ n ∈ earlier, decide (n ≤ c) = true := fun n hn =>
      decide_eq_true (Nat.le_trans (hearlier n hn) hlo)
    rw [hstarts, List.takeWhile_append_of_pos hkeep, List.takeWhile_cons, decide_eq_true hlo]
    congr 2
    cases later with
    | nil => rfl
    | cons n ns =>
      have hn := hlater n List.mem_cons_self
      have hdrop : decide (n ≤ c) = false := decide_eq_false (by omega)
      rw [List.takeWhile_cons, hdrop]
      rfl
  have hrow : ((Source.ofText t).lineStarts.takeWhile (· ≤ c)).length - 1
      = before.count '\n' := by
    rw [hwhile, List.length_append, ← hcount]
    rfl
  have hstart : (Source.ofText t).lineStarts.getD (before.count '\n') 0 = before.length := by
    rw [hstarts, ← hcount, List.getD_eq_getElem?_getD, List.getElem?_append_right (Nat.le_refl _),
      Nat.sub_self]
    rfl
  rw [Source.position]
  simp only [hclamp, hrow, hstart]
  show Position.mk _ (units ((t.drop before.length).take (c - before.length))) = _
  rw [h.take_drop_eq (by omega)]

/-- The offset of a column of the line. -/
lemma offset_eq (h : LineIn t before line after) (column : Int) :
    (Source.ofText t).offset (before.count '\n' : Nat) column
      = before.length + fitting column line := by
  obtain ⟨earlier, later, hstarts, hcount, _, _, hnext⟩ := h.lineStarts_eq
  have hlen := h.length_eq
  have hline : (t.drop before.length).take line.length = line := by
    rw [h.take_drop_eq (Nat.le_refl _), List.take_length]
  rw [Source.offset, if_neg (by omega), Int.toNat_natCast, ← hcount, hstarts,
    List.drop_left]
  obtain ⟨rfl, rfl⟩ | ⟨ns, rfl⟩ := hnext
  · show before.length + fitting column ((t.drop before.length).take (t.length - _)) = _
    rw [hlen, List.length_nil, Nat.add_zero, Nat.add_sub_cancel_left, hline]
  · show before.length + fitting column ((t.drop before.length).take (_ + 1 - 1 - _)) = _
    rw [Nat.add_sub_cancel, Nat.add_sub_cancel_left, hline]

/-- The line begins where the line table says. -/
lemma lineStart_eq (h : LineIn t before line after) :
    (Source.ofText t).lineStart (before.count '\n' : Nat) = .ok before.length := by
  obtain ⟨earlier, later, hstarts, hcount, _⟩ := h.lineStarts_eq
  rw [Source.lineStart, elementAt?, if_pos (by omega), Int.toNat_natCast, hstarts, ← hcount,
    List.getElem?_append_right (Nat.le_refl _), Nat.sub_self]
  rfl

/-- The line ends before the next entry of the line table, or with the text. -/
lemma lineEnd_eq (h : LineIn t before line after) :
    (Source.ofText t).lineEnd (before.count '\n' : Nat)
      = .ok ((before.length + line.length : Nat) : Int) := by
  obtain ⟨earlier, later, hstarts, hcount, _, _, hnext⟩ := h.lineStarts_eq
  have hlen := h.length_eq
  rw [Source.lineEnd, Source.lineCount, hstarts, List.length_append, List.length_cons, ← hcount]
  obtain ⟨rfl, rfl⟩ | ⟨ns, rfl⟩ := hnext
  · rw [if_neg (by rw [List.length_nil]; omega)]
    show Except.ok ((t.length : Nat) : Int) = _
    rw [hlen, List.length_nil, Nat.add_zero]
  · rw [if_pos (by rw [List.length_cons]; omega), Source.lineStart, elementAt?,
      if_pos (by omega), hstarts,
      show ((earlier.length : Int) + 1).toNat = earlier.length + 1 by omega,
      List.getElem?_append_right (by omega), Nat.add_sub_cancel_left]
    show Except.ok (((before.length + line.length + 1 : Nat) : Int) - 1) = _
    rw [show ((before.length + line.length + 1 : Nat) : Int) - 1
      = (before.length + line.length : Nat) by omega]

/-- The text of the line is read off the line table. -/
lemma line_eq (h : LineIn t before line after) :
    (Source.ofText t).line (before.count '\n' : Nat) = .ok line := by
  have hlen := h.length_eq
  have hline : slice t before.length (before.length + line.length : Nat) = line := by
    rw [slice_eq (by omega), Nat.add_sub_cancel_left, h.take_drop_eq (Nat.le_refl _),
      List.take_length]
  rw [Source.line, h.lineStart_eq, h.lineEnd_eq]
  exact congrArg Except.ok hline

/-- On one line the column moves right by the width of the text between. -/
lemma column_add (h : LineIn t before line after) (hlo : before.length ≤ a) (hab : a ≤ b)
    (hhi : b ≤ before.length + line.length) :
    ((Source.ofText t).position a).column + (Source.ofText t).spanUnits a b
      = units (line.take (b - before.length)) := by
  have hlen := h.length_eq
  have htake : line.take (b - before.length) = line.take (a - before.length) ++ slice t a b := by
    rw [slice_eq (by omega), ← h.take_drop_eq (k := b - before.length) (by omega),
      ← h.take_drop_eq (k := a - before.length) (by omega),
      show b - before.length = a - before.length + (b - a) by omega, List.take_add,
      List.drop_drop, Nat.add_sub_cancel' hlo]
  rw [h.position_eq hlo (by omega), htake, units_append]
  rfl

end LineIn

/-- A piece of one line between two offsets of a text. -/
structure LinePiece (t : Text) (a b : Nat) : Prop where
  lt : a < b
  le : b ≤ t.length
  line : ∀ i, a ≤ i → i < b → t[i]? ≠ some '\n'

/-- Two offsets of a text with no line feed between them are on one line. -/
lemma exists_lineIn_of_line {t : Text} {a b : Nat} (hab : a ≤ b) (hb : b ≤ t.length)
    (hline : ∀ i, a ≤ i → i < b → t[i]? ≠ some '\n') :
    ∃ before line after, LineIn t before line after ∧
      before.length ≤ a ∧ b ≤ before.length + line.length := by
  obtain ⟨before, line, after, hin, hlo, hhi⟩ := exists_lineIn (Nat.le_trans hab hb)
  refine ⟨before, line, after, hin, hlo, ?_⟩
  by_contra hnot
  exact hline (before.length + line.length) hhi (by omega) (hin.getElem?_stop (by omega))

/-- A piece of a line stands on one line. -/
lemma LinePiece.exists_lineIn {t : Text} {a b : Nat} (h : LinePiece t a b) :
    ∃ before line after, LineIn t before line after ∧
      before.length ≤ a ∧ b ≤ before.length + line.length :=
  exists_lineIn_of_line (Nat.le_of_lt h.lt) h.le h.line

/-! ### Positions -/

/-- An offset comes back from its position. -/
lemma offset_position {t : Text} {c : Nat} (h : c ≤ t.length) :
    (Source.ofText t).offset ((Source.ofText t).position c).row
      ((Source.ofText t).position c).column = c := by
  obtain ⟨before, line, after, hline, hlo, hhi⟩ := exists_lineIn h
  rw [hline.position_eq hlo hhi, hline.offset_eq, fitting_units_take (by omega),
    Nat.add_sub_cancel' hlo]

/-- Every position has an offset in the text. -/
lemma offset_le_length (t : Text) (row column : Int) :
    (Source.ofText t).offset row column ≤ t.length := by
  rw [Source.offset]
  split
  · exact Nat.zero_le _
  split
  case h_1 => exact Nat.le_refl _
  case h_2 start later hdrop =>
    have hmem : start ∈ (Source.ofText t).lineStarts :=
      List.mem_of_mem_drop (hdrop ▸ List.mem_cons_self)
    have hstart : start ≤ t.length := by
      obtain rfl | hmem := List.mem_cons.mp hmem
      · exact Nat.zero_le _
      · have := (bounds_of_mem_lineStartsFrom hmem).2
        omega
    have hfit : ∀ n, start + fitting column ((t.drop start).take n) ≤ t.length := by
      intro n
      have hle := fitting_le_length column ((t.drop start).take n)
      rw [List.length_take, List.length_drop] at hle
      omega
    exact hfit _

/-- The row of an offset counts the line feeds before it. -/
lemma position_row {t : Text} {c : Nat} (h : c ≤ t.length) :
    ((Source.ofText t).position c).row = (t.take c).count '\n' := by
  obtain ⟨before, line, after, hline, hlo, hhi⟩ := exists_lineIn h
  have hzero : (line.take (c - before.length)).count '\n' = 0 := by
    rw [List.count_eq_zero]
    exact fun hmem => hline.plain (List.mem_of_mem_take hmem)
  rw [hline.position_eq hlo hhi, hline.take_eq hlo hhi, List.count_append, hzero, Nat.add_zero]

/-- A later offset is not on an earlier row. -/
lemma position_row_le {t : Text} {a c : Nat} (hac : a ≤ c) (h : c ≤ t.length) :
    ((Source.ofText t).position a).row ≤ ((Source.ofText t).position c).row := by
  rw [position_row h, position_row (Nat.le_trans hac h)]
  exact (List.take_sublist_take_left hac).count_le '\n'

/-- A later offset on the row of a line lies on that line. -/
lemma LineIn.le_of_row_eq {t before line after : Text} {c : Nat} (h : LineIn t before line after)
    (hc : c ≤ t.length) (hrow : ((Source.ofText t).position c).row = before.count '\n') :
    c ≤ before.length + line.length := by
  by_contra hnot
  have hstop := h.getElem?_stop (by omega)
  have htake : t.take (before.length + line.length + 1) = before ++ line ++ ['\n'] := by
    rw [List.take_add_one, hstop, h.take_eq (by omega) (Nat.le_refl _), Nat.add_sub_cancel_left,
      List.take_length]
    rfl
  have hle := position_row_le (t := t) (a := before.length + line.length + 1) (c := c)
    (by omega) hc
  rw [position_row (by omega), htake, hrow, List.count_append, List.count_append,
    List.count_singleton_self] at hle
  omega

end LazeEdit
