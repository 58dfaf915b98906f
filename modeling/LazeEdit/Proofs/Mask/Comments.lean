import LazeEdit.Proofs.Mask.Locality
import Mathlib.Algebra.Group.Nat.Even
import Mathlib.Order.Bounds.Basic

/-!
# Where block comments end

Inside a block comment two slashes, or a slash and a star, are read as one mark. A slash directly
before a closing mark takes its star away when it is not the second one of such a pair. Slashes pair
up from the left, so this is so exactly when an odd number of them stands before the mark. A block
comment ends with the first closing mark that keeps its star (`commentEnd_blockCommentRest`), or
with the text. The first closing mark of all ends it only if it keeps its star or is the end of the
text (`blockComment_stop`).
-/

namespace LazeEdit

/-- A closing mark of comments stands at an offset of a text, and not before `o`. -/
def ClosingMark (t : Text) (o i : Nat) : Prop :=
  o ≤ i ∧ ['*', '/'] <+: t.drop i

/-- How many slashes stand directly before an offset, one beside the other, and not before `o`. -/
def slashesBefore (t : Text) (o i : Nat) : Nat :=
  (((t.take i).drop o).reverse.takeWhile (· == '/')).length

/-- A closing mark whose star no slash before it takes away. -/
def FreeMark (t : Text) (o i : Nat) : Prop :=
  ClosingMark t o i ∧ Even (slashesBefore t o i)

/-- A block comment whose inside begins at `o` ends at `stop`: behind the first closing mark that
keeps its star or, when there is none, with the text. -/
def CommentEnd (t : Text) (o stop : Nat) : Prop :=
  (∃ q, IsLeast {i | FreeMark t o i} q ∧ stop = q + 2) ∨
    ((∀ i, ¬ FreeMark t o i) ∧ stop = t.length)

/-! ### Marks behind the beginning of a text -/

lemma ClosingMark.star {t : Text} {o i : Nat} (h : ClosingMark t o i) : t[i]? = some '*' := by
  obtain ⟨_, rest, hrest⟩ := h
  rw [← Nat.add_zero i, ← List.getElem?_drop, ← hrest]
  rfl

lemma not_freeMark_nil (i : Nat) : ¬ FreeMark [] 0 i := by
  rintro ⟨hmark, _⟩
  cases hmark.star

lemma closingMark_append (u v : Text) (i : Nat) :
    ClosingMark (u ++ v) 0 (u.length + i) ↔ ClosingMark v 0 i := by
  rw [ClosingMark, ClosingMark, List.drop_length_add_append]
  exact and_congr_left' (iff_of_true (Nat.zero_le _) (Nat.zero_le _))

/-- Slashes at the end of a text whose number is even do not count for the marks behind it. -/
lemma even_slashesBefore_append {u : Text} (hu : Even (u.reverse.takeWhile (· == '/')).length)
    (v : Text) (i : Nat) :
    Even (slashesBefore (u ++ v) 0 (u.length + i)) ↔ Even (slashesBefore v 0 i) := by
  rw [slashesBefore, slashesBefore, List.drop_zero, List.drop_zero, List.take_length_add_append,
    List.reverse_append, List.takeWhile_append]
  split
  case isTrue hall =>
    rw [List.length_append, hall, Nat.even_add]
    exact iff_true_right hu
  case isFalse => exact Iff.rfl

lemma freeMark_append {u : Text} (hu : Even (u.reverse.takeWhile (· == '/')).length)
    (v : Text) (i : Nat) : FreeMark (u ++ v) 0 (u.length + i) ↔ FreeMark v 0 i :=
  and_congr (closingMark_append u v i) (even_slashesBefore_append hu v i)

/-- A character that begins no mark does not count for the marks behind it. -/
lemma freeMark_cons {c : Char} {cs : Text} (hline : ∀ ds, c = '/' → cs = '/' :: ds → False)
    (hblock : ∀ ds, c = '/' → cs = '*' :: ds → False) (i : Nat) :
    FreeMark (c :: cs) 0 (1 + i) ↔ FreeMark cs 0 i := by
  by_cases hc : c = '/'
  · subst hc
    -- the slash counts only for a mark right behind it, and there is none
    cases cs with
    | nil =>
      refine iff_of_false ?_ (not_freeMark_nil i)
      rintro ⟨hmark, _⟩
      have hstar := hmark.star
      rw [Nat.add_comm] at hstar
      cases hstar
    | cons d ds =>
      have hd : ¬ d == '/' := fun hslash => hline ds rfl (by rw [beq_iff_eq.mp hslash])
      cases i with
      | zero =>
        have hstar : d ≠ '*' := fun e => hblock ds rfl (by rw [e])
        refine iff_of_false ?_ ?_
        · rintro ⟨hmark, _⟩
          exact hstar (Option.some.inj hmark.star)
        · rintro ⟨hmark, _⟩
          exact hstar (Option.some.inj hmark.star)
      | succ j =>
        have htwo := freeMark_append (u := ['/', d]) (by simp [hd]) ds j
        have hone := freeMark_append (u := [d]) (by simp [hd]) ds j
        rw [show 1 + (j + 1) = ['/', d].length + j by rw [Nat.add_comm 1, Nat.add_comm _ j]; rfl,
          show j + 1 = [d].length + j from Nat.add_comm j 1]
        exact htwo.trans hone.symm
  · exact freeMark_append (u := [c]) (by simp [hc]) cs i

/-! ### The end of a comment -/

/-- Where the marks are those of another text moved by a number of characters, the end of the comment
is moved by that number. -/
lemma CommentEnd.moved {t v : Text} {o k n : Nat}
    (hmark : ∀ i, FreeMark t o i ↔ ∃ j, i = k + j ∧ FreeMark v 0 j)
    (hlen : t.length = k + v.length) (h : CommentEnd v 0 n) : CommentEnd t o (k + n) := by
  obtain ⟨q, ⟨hq, hleast⟩, rfl⟩ | ⟨hnone, rfl⟩ := h
  · refine .inl ⟨k + q, ⟨(hmark _).mpr ⟨q, rfl, hq⟩, ?_⟩, rfl⟩
    intro i hi
    obtain ⟨j, rfl, hj⟩ := (hmark i).mp hi
    exact Nat.add_le_add_left (hleast hj) k
  · refine .inr ⟨?_, hlen.symm⟩
    intro i hi
    obtain ⟨j, _, hj⟩ := (hmark i).mp hi
    exact hnone j hj

/-- Characters without a mark move the end of a comment behind them by their number. -/
lemma CommentEnd.append {u v : Text} {n : Nat} (hfirst : ∀ i < u.length, ¬ FreeMark (u ++ v) 0 i)
    (hlater : ∀ i, FreeMark (u ++ v) 0 (u.length + i) ↔ FreeMark v 0 i) (h : CommentEnd v 0 n) :
    CommentEnd (u ++ v) 0 (n + u.length) := by
  rw [Nat.add_comm]
  refine h.moved ?_ List.length_append
  intro i
  constructor
  · intro hi
    have hle : u.length ≤ i := Nat.le_of_not_lt fun hlt => hfirst i hlt hi
    obtain ⟨j, rfl⟩ := Nat.exists_eq_add_of_le hle
    exact ⟨j, rfl, (hlater j).mp hi⟩
  · rintro ⟨j, rfl, hj⟩
    exact (hlater j).mpr hj

/-- The rest of a block comment ends with its first closing mark that keeps its star. -/
lemma commentEnd_blockCommentRest (t : Text) : CommentEnd t 0 (blockCommentRest t) := by
  fun_induction blockCommentRest t with
  | case1 cs => exact .inl ⟨0, ⟨⟨⟨Nat.le_refl 0, cs, rfl⟩, Even.zero⟩, fun _ _ => Nat.zero_le _⟩, rfl⟩
  | case2 cs ih =>
    refine CommentEnd.append (u := ['/', '/']) ?_ (freeMark_append (by decide) cs) ih
    rintro i hi ⟨hmark, _⟩
    have hstar := hmark.star
    obtain rfl | rfl := Nat.le_one_iff_eq_zero_or_eq_one.mp (Nat.le_of_lt_succ hi)
    · cases hstar
    · cases hstar
  | case3 cs ih =>
    refine CommentEnd.append (u := ['/', '*']) ?_ (freeMark_append (by decide) cs) ih
    rintro i hi ⟨hmark, heven⟩
    have hstar := hmark.star
    obtain rfl | rfl := Nat.le_one_iff_eq_zero_or_eq_one.mp (Nat.le_of_lt_succ hi)
    · cases hstar
    · exact absurd heven Nat.not_even_one
  | case4 c cs hclose hline hblock ih =>
    refine CommentEnd.append (u := [c]) ?_ (freeMark_cons hline hblock) ih
    rintro i hi ⟨⟨_, rest, hrest⟩, _⟩
    obtain rfl := Nat.lt_one_iff.mp hi
    cases hrest
    exact hclose rest rfl rfl
  | case5 => exact .inr ⟨not_freeMark_nil, rfl⟩

/-- The marks from an offset on are those of the text behind it. -/
lemma freeMark_drop {t : Text} {o i : Nat} : FreeMark t o (o + i) ↔ FreeMark (t.drop o) 0 i := by
  rw [FreeMark, FreeMark, ClosingMark, ClosingMark, slashesBefore, slashesBefore, List.drop_drop,
    List.drop_zero, List.drop_take, Nat.add_sub_cancel_left]
  exact and_congr_left' (and_congr_left' (iff_of_true (Nat.le_add_right o i) (Nat.zero_le i)))

lemma CommentEnd.of_drop {t : Text} {o n : Nat} (ho : o ≤ t.length) (h : CommentEnd (t.drop o) 0 n) :
    CommentEnd t o (o + n) := by
  refine h.moved ?_ (by rw [List.length_drop]; omega)
  intro i
  constructor
  · intro hi
    obtain ⟨j, rfl⟩ := Nat.exists_eq_add_of_le hi.1.1
    exact ⟨j, rfl, freeMark_drop.mp hi⟩
  · rintro ⟨j, rfl, hj⟩
    exact freeMark_drop.mpr hj

/-- The first closing mark ends a comment if it keeps its star or is the end of the text, and else it
does not. -/
lemma CommentEnd.eq_first_iff {t : Text} {o stop q : Nat} (h : CommentEnd t o stop)
    (hq : IsLeast {i | ClosingMark t o i} q) :
    stop = q + 2 ↔ Even (slashesBefore t o q) ∨ q + 2 = t.length := by
  obtain ⟨hmark, hleast⟩ := hq
  obtain ⟨p, ⟨hp, hfree⟩, rfl⟩ | ⟨hnone, rfl⟩ := h
  · have hle : q ≤ p := hleast hp.1
    constructor
    · intro e
      obtain rfl : p = q := Nat.add_right_cancel e
      exact .inl hp.2
    · rintro (heven | hend)
      · have hge : p ≤ q := hfree ⟨hmark, heven⟩
        omega
      · -- behind a mark at the end of the text there is no other
        have hlen := hp.1.2.length_le
        rw [List.length_drop] at hlen
        change 2 ≤ _ at hlen
        omega
  · constructor
    · exact fun e => .inr e.symm
    · rintro (heven | hend)
      · exact absurd ⟨hmark, heven⟩ (hnone q)
      · exact hend.symm

/-- A block comment of a text ends at the first closing mark behind its opening mark that keeps its
star, and without one at the end of the text. So its end is that of the first closing mark of all
exactly when the slashes directly before that mark are even in number, or the mark ends the text. -/
theorem blockComment_stop (t : Text) (s : MaskSpan) (hs : s ∈ maskSpans t)
    (hkind : s.kind = .blockComment) :
    ∃ start stop : Nat, s.start = start ∧ s.stop = stop ∧ CommentEnd t (start + 2) stop ∧
      (∀ q, IsLeast {i | ClosingMark t (start + 2) i} q →
        (stop = q + 2 ↔ Even (slashesBefore t (start + 2) q) ∨ q + 2 = t.length)) ∧
      ((∀ i, ¬ ClosingMark t (start + 2) i) → stop = t.length) := by
  obtain ⟨o, n, hstart, hlen, hregion⟩ := leadingRegion?_of_mem_maskSpans hs
  obtain ⟨w, rest, hdrop, rfl, _⟩ := exists_reads hregion
  rw [hkind, hdrop] at hregion
  obtain ⟨body, rfl, hbody⟩ := exists_comment_body hregion
  have hinside : t.drop (o + 2) = body ++ rest := by
    rw [← List.drop_drop, hdrop]
    rfl
  have ho : o + 2 ≤ t.length := by
    have hlength := congrArg List.length hdrop
    rw [List.length_drop, List.length_append, List.length_cons, List.length_cons] at hlength
    omega
  have hend : CommentEnd t (o + 2) (o + 2 + body.length) := by
    apply CommentEnd.of_drop ho
    rw [hinside, ← hbody]
    exact commentEnd_blockCommentRest _
  refine ⟨o, o + 2 + body.length, hstart, ?_, hend, fun q hq => hend.eq_first_iff hq, ?_⟩
  · rw [MaskSpan.stop, hstart, hlen, List.length_cons, List.length_cons]
    omega
  · intro hnone
    obtain ⟨q, ⟨hq, _⟩, _⟩ | ⟨_, hstop⟩ := hend
    · exact absurd hq.1 (hnone q)
    · exact hstop

/-- A comment with two slashes before its closing mark. -/
def pairedSlashes : Text :=
  ['/', '*', '/', '/', '*', '/', 'a']

theorem blockComment_pairedSlashes :
    (⟨0, 6, .blockComment⟩ : MaskSpan) ∈ maskSpans pairedSlashes ∧ CommentEnd pairedSlashes 2 6 := by
  have hmem : (⟨0, 6, .blockComment⟩ : MaskSpan) ∈ maskSpans pairedSlashes := by decide
  obtain ⟨start, stop, hstart, hstop, hend, _⟩ :=
    blockComment_stop pairedSlashes ⟨0, 6, .blockComment⟩ hmem rfl
  obtain rfl : start = 0 := (Int.ofNat.inj hstart).symm
  obtain rfl : stop = 6 := (Int.ofNat.inj hstop).symm
  exact ⟨hmem, hend⟩

/-- A comment whose first closing mark has its star in common with a mark before it. -/
def sharedStar : Text :=
  ['/', '*', '/', '*', '/', 'a']

theorem sharedStar_stop :
    (⟨0, 6, .blockComment⟩ : MaskSpan) ∈ maskSpans sharedStar ∧
      IsLeast {i | ClosingMark sharedStar 2 i} 3 ∧
      (⟨0, 6, .blockComment⟩ : MaskSpan).stop ≠ 3 + 2 := by
  refine ⟨by decide, ⟨⟨by decide, ['a'], rfl⟩, ?_⟩, by decide⟩
  rintro i ⟨hle, rest, hrest⟩
  obtain rfl | hlt := Nat.eq_or_lt_of_le hle
  · cases hrest
  · exact hlt

end LazeEdit
