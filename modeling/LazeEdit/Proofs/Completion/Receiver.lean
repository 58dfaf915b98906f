import LazeEdit.Completion.Receiver
import LazeEdit.Proofs.Lexicon.Classes
import Mathlib.Data.List.Basic
import Mathlib.Data.List.TakeWhile

/-!
# Receivers

A text ends in a receiver when it is a text, a name, blanks, a period and blanks, where the name
begins with the run of name characters in which it stands (`Reception`). The classes of blanks,
periods and name characters have no character in common, so each part ends where the next one begins
and a text ends in a receiver in one way at most. Reading backwards takes these parts one after the
other (`receiverReversed?_reverse`).
-/

namespace LazeEdit

variable {t : Text}

/-- A way to read a text so that it ends in a receiver. -/
@[ext]
structure Reception (t : Text) where
  before : Text
  name : Text
  gap : Text
  period : Char
  trail : Text
  text_eq : t = before ++ name ++ gap ++ period :: trail
  name_ne_nil : name ≠ []
  names : ∀ c ∈ name, isNameChar c
  alone : ∀ c ∈ before.getLast?, ¬ isNameChar c
  gap_blank : ∀ c ∈ gap, isBlank c
  isPeriod : period ∈ periods
  trail_blank : ∀ c ∈ trail, isBlank c

lemma not_isBlank_of_mem_periods {c : Char} (h : c ∈ periods) : isBlank c = false := by
  have hall : periods.all fun c => ! isBlank c := by decide
  exact (Bool.not_eq_true' _).mp (List.all_eq_true.mp hall c h)

namespace Reception

lemma reverse_eq (d : Reception t) :
    t.reverse
      = d.trail.reverse ++ d.period :: (d.gap.reverse ++ (d.name.reverse ++ d.before.reverse)) := by
  have h := congrArg List.reverse d.text_eq
  simpa using h

/-! Reading backwards, each part ends where the next one begins. -/

lemma period_stops (d : Reception t) (rest : Text) :
    ∀ c ∈ (d.period :: rest).head?, isBlank c = false := by
  rintro c ⟨⟩
  exact not_isBlank_of_mem_periods d.isPeriod

lemma name_stops (d : Reception t) :
    ∀ c ∈ (d.name.reverse ++ d.before.reverse).head?, isBlank c = false := by
  intro c hc
  rw [List.head?_append_of_ne_nil _ (by simpa using d.name_ne_nil), List.head?_reverse] at hc
  have hname := d.names c (List.mem_of_getLast? hc)
  exact Bool.eq_false_iff.mpr fun hblank => not_isNameChar_of_isBlank hblank hname

lemma before_stops (d : Reception t) :
    ∀ c ∈ d.before.reverse.head?, isNameChar c = false := by
  intro c hc
  rw [List.head?_reverse] at hc
  exact Bool.eq_false_iff.mpr (d.alone c hc)

/-- A text ends in a receiver in one way at most. -/
instance : Subsingleton (Reception t) where
  allEq d e := by
    obtain ⟨htrail, hrest⟩ := append_stop_inj (d.reverse_eq.symm.trans e.reverse_eq)
      (by simpa using d.trail_blank) (d.period_stops _) (by simpa using e.trail_blank)
      (e.period_stops _)
    obtain ⟨hperiod, hrest⟩ := List.cons.inj hrest
    obtain ⟨hgap, hrest⟩ := append_stop_inj hrest (by simpa using d.gap_blank) d.name_stops
      (by simpa using e.gap_blank) e.name_stops
    obtain ⟨hname, hbefore⟩ := append_stop_inj hrest (by simpa using d.names) d.before_stops
      (by simpa using e.names) e.before_stops
    exact Reception.ext (List.reverse_inj.mp hbefore) (List.reverse_inj.mp hname)
      (List.reverse_inj.mp hgap) hperiod (List.reverse_inj.mp htrail)

/-- The name in which a text ends is read. -/
lemma receiverReversed? (d : Reception t) :
    LazeEdit.receiverReversed? t.reverse = some d.name := by
  rw [LazeEdit.receiverReversed?, d.reverse_eq,
    dropWhile_append_stop (by simpa using d.trail_blank) (d.period_stops _)]
  dsimp only
  rw [if_pos (List.contains_iff_mem.mpr d.isPeriod),
    dropWhile_append_stop (by simpa using d.gap_blank) d.name_stops,
    takeWhile_append_stop (by simpa using d.names) d.before_stops]
  split
  case h_1 hnil => exact absurd (List.reverse_eq_nil_iff.mp hnil) d.name_ne_nil
  case h_2 => rw [List.reverse_reverse]

end Reception

/-- What is read is the name in which the text ends. -/
lemma exists_reception {r : Text} (h : receiverReversed? t.reverse = some r) :
    ∃ d : Reception t, d.name = r := by
  rw [receiverReversed?] at h
  split at h
  case h_1 => cases h
  case h_2 period rest hdrop =>
    split at h
    case isFalse => cases h
    case isTrue hperiod =>
      split at h
      case h_1 => cases h
      case h_2 hne =>
        cases h
        obtain ⟨trail, hback, htrail⟩ :
            ∃ trail, t.reverse = trail ++ period :: rest ∧ ∀ c ∈ trail, isBlank c :=
          ⟨_, by rw [← hdrop, List.takeWhile_append_dropWhile], fun _ => List.mem_takeWhile_imp⟩
        obtain ⟨gap, hgap, hblank⟩ :
            ∃ gap, rest = gap ++ rest.dropWhile isBlank ∧ ∀ c ∈ gap, isBlank c :=
          ⟨_, List.takeWhile_append_dropWhile.symm, fun _ => List.mem_takeWhile_imp⟩
        obtain ⟨before, hbefore, hstop⟩ :=
          exists_takeWhile_append isNameChar (rest.dropWhile isBlank)
        have htext : t = before.reverse
            ++ ((rest.dropWhile isBlank).takeWhile isNameChar).reverse
            ++ gap.reverse ++ period :: trail.reverse := by
          rw [hgap, hbefore] at hback
          have h := congrArg List.reverse hback
          simpa using h
        refine ⟨⟨_, _, _, _, _, htext, ?_, ?_, ?_, ?_, ?_, ?_⟩, rfl⟩
        · simpa using hne
        · intro c hc
          exact List.mem_takeWhile_imp (List.mem_reverse.mp hc)
        · intro c hc
          rw [List.getLast?_reverse] at hc
          exact Bool.eq_false_iff.mp (hstop c hc)
        · simpa using hblank
        · exact List.contains_iff_mem.mp hperiod
        · simpa using htrail

/-- A text is read backwards to the name in which it ends. -/
lemma receiverReversed?_reverse {r : Text} :
    receiverReversed? t.reverse = some r ↔ ∃ d : Reception t, d.name = r := by
  constructor
  · exact exists_reception
  · rintro ⟨d, rfl⟩
    exact d.receiverReversed?

/-- Before a cursor inside a text the receiver is the name in which the text before the cursor ends.
There is none just when that text does not end in a receiver, and it ends in one in one way at
most. -/
theorem receiver_exact (t : Text) {cursor : Int} (hcursor : 0 ≤ cursor ∧ cursor ≤ t.length) :
    (∀ r, receiver? t cursor = .ok (some r) ↔
      ∃ d : Reception (t.take cursor.toNat), d.name = r) ∧
    (receiver? t cursor = .ok none ↔ IsEmpty (Reception (t.take cursor.toNat))) ∧
    Subsingleton (Reception (t.take cursor.toNat)) := by
  have hread : receiver? t cursor = .ok (receiverReversed? (t.take cursor.toNat).reverse) := by
    rw [receiver?, if_neg (by omega)]
  rw [hread]
  refine ⟨fun r => ?_, ?_, inferInstance⟩
  · rw [← receiverReversed?_reverse, Except.ok.injEq]
  · rw [Except.ok.injEq, Option.eq_none_iff_forall_ne_some, isEmpty_iff]
    constructor
    · exact fun hnone d => hnone d.name d.receiverReversed?
    · intro hempty r hr
      obtain ⟨d, _⟩ := exists_reception hr
      exact hempty d

/-- A receiver behind another one, with blanks of several kinds around the period. -/
def blankedReceiver : Text :=
  ['x', '.', '9', 'a', '\t', '\u3000', '。', '\n', ' ', 'b']

/-- The receiver is the whole run of name characters before the period; at the cursor behind it the
text ends in no receiver. -/
theorem receiver_blankedReceiver :
    (0 ≤ (9 : Int) ∧ (9 : Int) ≤ blankedReceiver.length) ∧
    (0 ≤ (10 : Int) ∧ (10 : Int) ≤ blankedReceiver.length) ∧
    receiver? blankedReceiver 9 = .ok (some ['9', 'a']) ∧
    IsEmpty (Reception (blankedReceiver.take 10)) := by
  have hinside : 0 ≤ (9 : Int) ∧ (9 : Int) ≤ blankedReceiver.length := by decide
  have hend : 0 ≤ (10 : Int) ∧ (10 : Int) ≤ blankedReceiver.length := by decide
  refine ⟨hinside, hend, ((receiver_exact _ hinside).1 _).mpr ⟨?_, ?_⟩,
    (receiver_exact _ hend).2.1.mp (by decide)⟩
  · refine ⟨['x', '.'], ['9', 'a'], ['\t', '\u3000'], '。', ['\n', ' '], rfl, by decide, ?_, ?_, ?_,
      by decide, ?_⟩
    · exact List.all_eq_true.mp (by decide)
    · rintro c ⟨⟩
      decide
    · exact List.all_eq_true.mp (by decide)
    · exact List.all_eq_true.mp (by decide)
  · rfl

end LazeEdit
