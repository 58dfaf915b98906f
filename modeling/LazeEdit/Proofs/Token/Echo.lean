import LazeEdit.Proofs.Text.Echo
import LazeEdit.Proofs.Text.Lines
import LazeEdit.Proofs.Token.Merge
import LazeEdit.Token.Wire

/-!
# Spans of an echo

The lines of an echo are the lines that it is moved by and then those of the text, so a position of
the text is found as many rows further down in the echo, in the same column (`position_echo`,
`offset_echo`): no character changes its width in units with its width in print.

Moving spans that stand in the text neither changes their order nor what a merge keeps of them
(`mergeSpans_moved`). In the wire form a group says how far a span stands behind the one before it,
so only the first group tells an echo from its text (`encode_echo`).
-/

namespace LazeEdit

variable {k : Nat} {t t' u : Text}

/-! ### Positions -/

lemma units_widened (h : List.Forall₂ Widened t u) : units u = units t := by
  have hunits : WidthFree charUnits := by decide
  induction h with
  | nil => rfl
  | cons hcd _ ih => rw [units_cons, units_cons, ih, hcd.apply hunits]

lemma fitting_widened (h : List.Forall₂ Widened t u) (width : Int) :
    fitting width u = fitting width t := by
  have hunits : WidthFree charUnits := by decide
  induction h generalizing width with
  | nil => rfl
  | cons hcd _ ih => rw [fitting, fitting, ← hcd.apply hunits, ih]

lemma lineStartsFrom_feeds (n k : Nat) :
    lineStartsFrom n (List.replicate k '\n') = List.range' (n + 1) k := by
  induction k generalizing n with
  | zero => rfl
  | succ k ih => rw [List.replicate_succ, lineStartsFrom, if_pos rfl, ih, List.range'_succ]

lemma lineStartsFrom_widened (h : List.Forall₂ Widened t u) (n k : Nat) :
    lineStartsFrom (n + k) u = (lineStartsFrom n t).map (· + k) := by
  induction h generalizing n with
  | nil => rfl
  | @cons c d t u hcd _ ih =>
    simp only [lineStartsFrom, hcd.mark_iff oneWidth_feed]
    rw [Nat.add_right_comm, ih]
    split
    · rfl
    · rfl

/-- The line table of an echo. -/
lemma lineStarts_echo (h : Echoes k t t') :
    (Source.ofText t').lineStarts
      = List.range k ++ (Source.ofText t).lineStarts.map (· + k) := by
  obtain ⟨u, rfl, htu⟩ := h
  have hfirst : 0 :: List.range' 1 k = List.range k ++ [0 + k] := by
    rw [Nat.zero_add, ← List.range_succ, List.range_eq_range', List.range'_succ]
  show 0 :: lineStartsFrom 0 (List.replicate k '\n' ++ u) = _
  rw [lineStartsFrom_append, lineStartsFrom_feeds, List.length_replicate,
    lineStartsFrom_widened htu 0 k, ← List.cons_append, hfirst, List.append_assoc]
  rfl

/-- The offset of a position moves with the text. -/
lemma offset_echo (h : Echoes k t t') {row : Int} (hrow : 0 ≤ row) (column : Int) :
    (Source.ofText t').offset (row + k) column = (Source.ofText t).offset row column + k := by
  have hdrop : (Source.ofText t').lineStarts.drop (row + k).toNat
      = ((Source.ofText t).lineStarts.drop row.toNat).map (· + k) := by
    rw [lineStarts_echo h, show (row + k).toNat = k + row.toNat by omega, ← List.drop_drop,
      List.drop_left' List.length_range, List.map_drop]
  rw [Source.offset, Source.offset, if_neg (by omega), if_neg (by omega), hdrop]
  have hfit : ∀ start stop : Nat, start + k + fitting column
      ((t'.drop (start + k)).take (stop - (start + k)))
        = start + fitting column ((t.drop start).take (stop - k - start)) + k := by
    intro start stop
    rw [show stop - (start + k) = stop - k - start by omega,
      fitting_widened (h.take_drop start (stop - k - start)), Nat.add_right_comm]
  -- a row is beyond the text, the last one, or ended by the start of the next
  cases (Source.ofText t).lineStarts.drop row.toNat with
  | nil => exact h.length_eq
  | cons start later =>
    cases later with
    | nil =>
      have hlast := hfit start t'.length
      rwa [h.length_eq, Nat.add_sub_cancel, ← h.length_eq] at hlast
    | cons next later =>
      have hnext := hfit start (next + k - 1)
      rwa [show next + k - 1 - k = next - 1 by omega] at hnext

/-- As many lines of an echo start up to a moved offset, and the lines it is moved by. -/
lemma length_takeWhile_lineStarts (h : Echoes k t t') (c : Nat) :
    ((Source.ofText t').lineStarts.takeWhile (· ≤ c + k)).length
      = k + ((Source.ofText t).lineStarts.takeWhile (· ≤ c)).length := by
  have hfeeds : ∀ m ∈ List.range k, decide (m ≤ c + k) = true := by
    intro m hm
    have := List.mem_range.mp hm
    exact decide_eq_true (by omega)
  have hshift : ((fun m => decide (m ≤ c + k)) ∘ (· + k)) = fun m => decide (m ≤ c) := by
    funext m
    exact decide_eq_decide.mpr Nat.add_le_add_iff_right
  rw [lineStarts_echo h, List.takeWhile_append_of_pos hfeeds, List.takeWhile_map, hshift,
    List.length_append, List.length_range, List.length_map]

lemma getD_lineStarts (h : Echoes k t t') {row : Nat}
    (hrow : row < (Source.ofText t).lineStarts.length) :
    (Source.ofText t').lineStarts.getD (row + k) 0
      = (Source.ofText t).lineStarts.getD row 0 + k := by
  rw [lineStarts_echo h, List.getD_eq_getElem?_getD, List.getD_eq_getElem?_getD,
    List.getElem?_append_right (by rw [List.length_range]; omega), List.length_range,
    List.getElem?_map, Nat.add_sub_cancel, List.getElem?_eq_getElem hrow]
  rfl

/-- A position further down. -/
def Position.moved (k : Nat) (p : Position) : Position :=
  { p with row := p.row + k }

/-- The position of an offset moves down with the text. -/
lemma position_echo (h : Echoes k t t') {offset : Int} (hoffset : 0 ≤ offset) :
    (Source.ofText t').position (offset + k) = ((Source.ofText t).position offset).moved k := by
  have hclamp : (Source.ofText t').clamp (offset + k) = (Source.ofText t).clamp offset + k := by
    show min (offset + k).toNat t'.length = min offset.toNat t.length + k
    rw [h.length_eq]
    omega
  rw [Source.position, Source.position]
  simp only [hclamp, length_takeWhile_lineStarts h]
  generalize (Source.ofText t).clamp offset = c
  generalize hn : ((Source.ofText t).lineStarts.takeWhile (· ≤ c)).length = n
  -- the first line starts at offset zero
  have hpos : 0 < n := hn ▸ Nat.succ_pos _
  have hle : n ≤ (Source.ofText t).lineStarts.length := hn ▸ (List.takeWhile_prefix _).length_le
  rw [show k + n - 1 = n - 1 + k by omega, getD_lineStarts h (by omega), Nat.add_sub_add_right]
  exact congrArg (Position.mk (n - 1 + k)) (units_widened (h.take_drop _ _))

lemma spanUnits_echo (h : Echoes k t t') {start stop : Int} (hstart : 0 ≤ start)
    (hstop : 0 ≤ stop) :
    (Source.ofText t').spanUnits (start + k) (stop + k)
      = (Source.ofText t).spanUnits start stop :=
  units_widened (h.slice hstart hstop)

/-! ### Spans -/

/-- A span further on. -/
def TokenSpan.moved (k : Nat) (s : TokenSpan) : TokenSpan :=
  { s with start := s.start + k }

@[simp] lemma TokenSpan.moved_zero (s : TokenSpan) : s.moved 0 = s := by
  rw [moved, Int.natCast_zero, Int.add_zero]

lemma TokenSpan.stop_moved (k : Nat) (s : TokenSpan) : (s.moved k).stop = s.stop + k := by
  show s.start + k + s.length = s.start + s.length + k
  omega

lemma TokenSpan.precedes_moved (k : Nat) (a b : TokenSpan) :
    (a.moved k).precedes (b.moved k) = a.precedes b := by
  rw [Bool.eq_iff_iff, precedes_iff, precedes_iff]
  show a.start + k < b.start + k ∨ a.start + k = b.start + k ∧ _ ↔ _
  rw [Int.add_lt_add_iff_right, Int.add_left_inj]
  exact Iff.rfl

lemma keepDisjoint_moved (k : Nat) (stop : Int) (ss : List TokenSpan) :
    keepDisjoint (stop + k) (ss.map (·.moved k)) = (keepDisjoint stop ss).map (·.moved k) := by
  induction ss generalizing stop with
  | nil => rfl
  | cons s ss ih =>
    rw [List.map_cons, keepDisjoint, keepDisjoint]
    have hdrop : (s.moved k).length ≤ 0 ∨ (s.moved k).start < stop + k
        ↔ s.length ≤ 0 ∨ s.start < stop :=
      or_congr Iff.rfl (Int.add_lt_add_iff_right (k : Int))
    rw [if_congr hdrop rfl rfl, ih, TokenSpan.stop_moved, ih]
    split
    · rfl
    · rfl

/-- A bound before all spans does not matter. -/
lemma keepDisjoint_of_le {stop stop' : Int} {ss : List TokenSpan} (h : ∀ s ∈ ss, stop ≤ s.start)
    (h' : ∀ s ∈ ss, stop' ≤ s.start) : keepDisjoint stop ss = keepDisjoint stop' ss := by
  induction ss with
  | nil => rfl
  | cons s ss ih =>
    have hs := h s List.mem_cons_self
    have hs' := h' s List.mem_cons_self
    rw [keepDisjoint, keepDisjoint, ih (fun u hu => h u (List.mem_cons_of_mem s hu))
      fun u hu => h' u (List.mem_cons_of_mem s hu)]
    exact if_congr (by omega) rfl rfl

/-- A merge of moved spans is the moved merge. -/
lemma mergeSpans_moved (k : Nat) {ss : List TokenSpan} (h : ∀ s ∈ ss, 0 ≤ s.start) :
    mergeSpans (ss.map (·.moved k)) = (mergeSpans ss).map (·.moved k) := by
  have hsort : (ss.map (·.moved k)).mergeSort TokenSpan.precedes
      = (ss.mergeSort TokenSpan.precedes).map (·.moved k) := by
    refine (List.map_mergeSort ?_).symm
    intro a _ b _
    exact (TokenSpan.precedes_moved k a b).symm
  have hbehind : ∀ s ∈ (ss.mergeSort TokenSpan.precedes).map (·.moved k),
      0 + (k : Int) ≤ s.start := by
    intro s hs
    obtain ⟨u, hu, rfl⟩ := List.mem_map.mp hs
    have := h u (List.mem_mergeSort.mp hu)
    show 0 + (k : Int) ≤ u.start + k
    omega
  -- a merge is bounded by offset zero in the echo as well, which no moved span goes below
  rw [mergeSpans, hsort, keepDisjoint_of_le _ hbehind, keepDisjoint_moved]
  · rfl
  · intro s hs
    have := hbehind s hs
    omega

/-! ### The wire form -/

namespace Wire

lemma sentColumn_moved (k : Nat) (last p : Position) :
    (if (p.moved k).row = (last.moved k).row then ((p.moved k).column : Int) - (last.moved k).column
      else (p.moved k).column)
      = if p.row = last.row then (p.column : Int) - last.column else p.column :=
  if_congr (Nat.add_left_inj) rfl rfl

/-- Behind a span that is moved as well, moved spans have the same groups. -/
lemma encodeFrom_echo (h : Echoes k t t') {ss : List TokenSpan} (hss : ∀ s ∈ ss, s.Proper)
    (last : Position) :
    encodeFrom (.ofText t') (last.moved k) (ss.map (·.moved k))
      = encodeFrom (.ofText t) last ss := by
  induction ss generalizing last with
  | nil => rfl
  | cons s ss ih =>
    obtain ⟨hstart, hlength⟩ := hss s List.mem_cons_self
    have hstop : 0 ≤ s.stop := Int.add_nonneg hstart (Int.le_of_lt hlength)
    have hposition : (Source.ofText t').position (s.moved k).start
        = ((Source.ofText t).position s.start).moved k := position_echo h hstart
    have hwidth : (Source.ofText t').spanUnits (s.moved k).start (s.moved k).stop
        = (Source.ofText t).spanUnits s.start s.stop := by
      rw [TokenSpan.stop_moved]
      exact spanUnits_echo h hstart hstop
    have hrows : ∀ p : Position,
        ((p.moved k).row : Int) - (last.moved k).row = p.row - last.row := by
      intro p
      show ((p.row + k : Nat) : Int) - (last.row + k : Nat) = _
      omega
    rw [List.map_cons, encodeFrom, encodeFrom, hposition, hwidth, sentColumn_moved, hrows,
      ih fun u hu => hss u (List.mem_cons_of_mem s hu)]
    rfl

/-- Behind the start of a line the first number alone depends on the row of that line. -/
lemma encodeFrom_lineStart (src : Source) (row row' : Nat) (ss : List TokenSpan) :
    encodeFrom src ⟨row, 0⟩ ss
      = (encodeFrom src ⟨row', 0⟩ ss).modifyHead (· + ((row' : Int) - row)) := by
  cases ss with
  | nil => rfl
  | cons s ss =>
    have hcolumn : ∀ r : Nat, (if (src.position s.start).row = r then
        ((src.position s.start).column : Int) - (0 : Nat) else (src.position s.start).column)
          = (src.position s.start).column := by
      intro r
      rw [Int.natCast_zero, Int.sub_zero, ite_self]
    have hrow : ((src.position s.start).row : Int) - row
        = (src.position s.start).row - row' + (row' - row) := by
      omega
    rw [encodeFrom, encodeFrom, hcolumn, hcolumn, hrow]
    rfl

/-- Only the first number of the wire form tells how far spans are moved. -/
lemma encode_echo (h : Echoes k t t') {ss : List TokenSpan} (hss : ∀ s ∈ ss, s.Proper) :
    encode (.ofText t') (ss.map (·.moved k))
      = (encode (.ofText t) ss).modifyHead (· + (k : Int)) := by
  have hmoved : encodeFrom (.ofText t') ⟨0 + k, 0⟩ (ss.map (·.moved k))
      = encodeFrom (.ofText t) ⟨0, 0⟩ ss := encodeFrom_echo h hss ⟨0, 0⟩
  rw [encode, encode, encodeFrom_lineStart _ 0 (0 + k), hmoved, Nat.zero_add, Int.natCast_zero,
    Int.sub_zero]

end Wire

end LazeEdit
