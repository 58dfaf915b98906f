import LazeEdit.Proofs.Classification.Words
import LazeEdit.Proofs.Text.Lockstep

/-!
# Echoes of a text

An echo of a text stands some lines further down and has some of its structural characters in full
width (`Echoes`). Nothing in the analysis may tell an echo from its text, apart from the lines it is
moved by, and the modules about echoes prove this part by part.

This module holds what the parts share. A place of a text and its echo (`Site.Echo`) are kept
together by the moves of the recognisers (`Site.Echo.lockstep`), and a recogniser that is `Steady`
finds in an echo what it finds in the text (`Steady.occurrences`).
-/

namespace LazeEdit

/-! ### Widened texts -/

section Texts

variable {t u w : Text} {p : Char → Bool}

lemma forall₂_takeWhile (hp : WidthFree p) (h : List.Forall₂ Widened t u) :
    List.Forall₂ Widened (t.takeWhile p) (u.takeWhile p) := by
  induction h with
  | nil => exact .nil
  | @cons c d t u hcd _ ih =>
    rw [List.takeWhile_cons, List.takeWhile_cons, ← hcd.apply hp]
    split
    · exact .cons hcd ih
    · exact .nil

lemma forall₂_dropWhile (hp : WidthFree p) (h : List.Forall₂ Widened t u) :
    List.Forall₂ Widened (t.dropWhile p) (u.dropWhile p) := by
  induction h with
  | nil => exact .nil
  | @cons c d t u hcd h ih =>
    rw [List.dropWhile_cons, List.dropWhile_cons, ← hcd.apply hp]
    split
    · exact ih
    · exact .cons hcd h

/-- The longest run of a class of one width is the same in a widened text. -/
lemma takeWhile_eq_of_oneWidth (hp : OneWidth p) (h : List.Forall₂ Widened t u) :
    u.takeWhile p = t.takeWhile p := by
  induction h with
  | nil => rfl
  | @cons c d t u hcd _ ih =>
    rw [List.takeWhile_cons, List.takeWhile_cons, ← hcd.apply hp.widthFree, ih]
    split
    case isTrue hc => rw [hcd.eq_of_oneWidth hp hc]
    case isFalse => rfl

lemma leadingName?_widened (h : List.Forall₂ Widened t u) : leadingName? u = leadingName? t := by
  cases h with
  | nil => rfl
  | @cons c d t u hcd h =>
    rw [leadingName?, leadingName?, ← hcd.apply oneWidth_isNameStart.widthFree,
      takeWhile_eq_of_oneWidth oneWidth_isNameChar h]
    split
    case isTrue hc => rw [hcd.eq_of_oneWidth oneWidth_isNameStart hc]
    case isFalse => rfl

/-- A widened text goes on with the same words. -/
lemma isPrefixOf_widened (hw : ∀ c ∈ w, isNameChar c) (h : List.Forall₂ Widened t u) :
    w.isPrefixOf u = w.isPrefixOf t := by
  induction w generalizing t u with
  | nil => rw [List.isPrefixOf_nil_left, List.isPrefixOf_nil_left]
  | cons a w ih =>
    cases h with
    | nil => rfl
    | @cons c d t u hcd h =>
      have ha := hw a List.mem_cons_self
      have hhead : (a == d) = (a == c) := by
        -- the two differ only when neither of them is a character of a name
        obtain rfl | hpair := hcd
        · rfl
        · obtain ⟨hc, hd⟩ := oneWidth_isNameChar _ hpair
          rw [beq_false_of_ne fun e => ?_, beq_false_of_ne fun e => ?_]
          · rw [e, hc] at ha
            cases ha
          · rw [e, hd] at ha
            cases ha
      rw [List.isPrefixOf_cons_cons, List.isPrefixOf_cons_cons, hhead,
        ih (fun b hb => hw b (List.mem_cons_of_mem a hb)) h]

end Texts

/-- A text behind `k` line feeds and with some structural characters in full width. -/
def Echoes (k : Nat) (t t' : Text) : Prop :=
  ∃ u, t' = List.replicate k '\n' ++ u ∧ List.Forall₂ Widened t u

lemma Echoes.length_eq {k : Nat} {t t' : Text} (h : Echoes k t t') : t'.length = t.length + k := by
  obtain ⟨u, rfl, h⟩ := h
  rw [List.length_append, List.length_replicate, h.length_eq, Nat.add_comm]

lemma Echoes.take_drop {k : Nat} {t t' : Text} (h : Echoes k t t') (start length : Nat) :
    List.Forall₂ Widened ((t.drop start).take length) ((t'.drop (start + k)).take length) := by
  obtain ⟨u, rfl, htu⟩ := h
  rw [Nat.add_comm, ← List.drop_drop, List.drop_left' List.length_replicate]
  exact List.forall₂_take length (List.forall₂_drop start htu)

/-- A slice of an echo is the widened slice of the text. -/
lemma Echoes.slice {k : Nat} {t t' : Text} (h : Echoes k t t') {i j : Int} (hi : 0 ≤ i)
    (hj : 0 ≤ j) : List.Forall₂ Widened (slice t i j) (slice t' (i + k) (j + k)) := by
  have hclamp : ∀ {i : Int}, 0 ≤ i →
      clampBound t'.length (i + k) = clampBound t.length i + k := by
    intro i hi
    rw [clampBound, clampBound, if_neg (by omega), if_neg (by omega), h.length_eq]
    omega
  rw [LazeEdit.slice, LazeEdit.slice, hclamp hi, hclamp hj, Nat.add_sub_add_right]
  exact h.take_drop _ _

/-! ### Places that correspond -/

/-- The characters before a place of a text and before its echo. -/
inductive EchoBefore : Option Char → Option Char → Prop where
  | none :
    EchoBefore none none
  | start :
    EchoBefore none (some '\n')
  | some {c d : Char} :
    Widened c d →
    EchoBefore (some c) (some d)

namespace EchoBefore

variable {b b' : Option Char} {p : Char → Bool}

lemma any_eq (h : EchoBefore b b') (hp : WidthFree p) (hfeed : p '\n' = false) :
    b'.any p = b.any p := by
  cases h with
  | none => rfl
  | start => exact hfeed
  | some hcd => exact (hcd.apply hp).symm

lemma all_eq (h : EchoBefore b b') (hp : WidthFree p) (hfeed : p '\n' = true) :
    b'.all p = b.all p := by
  cases h with
  | none => rfl
  | start => exact hfeed
  | some hcd => exact (hcd.apply hp).symm

end EchoBefore

namespace Site

/-- A place of a text and the same place of its echo. -/
structure Echo (k : Nat) (s s' : Site) : Prop where
  offset : s'.offset = s.offset + k
  before : EchoBefore s.before s'.before
  rest : List.Forall₂ Widened s.rest s'.rest

namespace Echo

variable {k : Nat} {s s' : Site} {p : Char → Bool}

lemma advance (h : s.Echo k s') (n : Nat) : (s.advance n).Echo k (s'.advance n) := by
  cases n with
  | zero => exact h
  | succ n =>
    refine ⟨?_, ?_, List.forall₂_drop (n + 1) h.rest⟩
    · rw [advance_offset, advance_offset, h.offset, Nat.add_right_comm]
    · -- the last character that is passed stands before the new place
      show EchoBefore s.rest[n]? s'.rest[n]?
      have hlen := h.rest.length_eq
      by_cases hn : n < s.rest.length
      · have hn' : n < s'.rest.length := by rwa [← hlen]
        rw [List.getElem?_eq_getElem hn, List.getElem?_eq_getElem hn']
        exact .some (h.rest.get hn hn')
      · rw [List.getElem?_eq_none (by omega), List.getElem?_eq_none (by omega)]
        exact .none

lemma skipWhile (h : s.Echo k s') (hp : WidthFree p) :
    (s.skipWhile p).Echo k (s'.skipWhile p) := by
  rw [Site.skipWhile, Site.skipWhile, ← (forall₂_takeWhile hp h.rest).length_eq]
  exact h.advance _

lemma skipBlanks (h : s.Echo k s') : s.skipBlanks.Echo k s'.skipBlanks :=
  h.skipWhile widthFree_isBlank

lemma char? (h : s.Echo k s') (hp : WidthFree p) :
    Option.Rel (Echo k) (s.char? p) (s'.char? p) := by
  have hnext := h.advance 1
  obtain ⟨offset, before, rest⟩ := s
  obtain ⟨offset', before', rest'⟩ := s'
  obtain ⟨_, _, hrest⟩ := h
  cases hrest with
  | nil => exact .none
  | @cons c d t u hcd hrest =>
    show Option.Rel _ (if p c then _ else _) (if p d then _ else _)
    rw [← hcd.apply hp]
    split
    · exact .some hnext
    · exact .none

lemma word? {w : Text} (h : s.Echo k s') (hw : ∀ c ∈ w, isNameChar c) :
    Option.Rel (Echo k) (s.word? w) (s'.word? w) := by
  rw [Site.word?, Site.word?, isPrefixOf_widened hw h.rest]
  split
  · exact .some (h.advance _)
  · exact .none

lemma afterName_eq (h : s.Echo k s') : s'.afterName = s.afterName :=
  h.before.any_eq oneWidth_isNameChar.widthFree (by decide)

/-- The start of a text and the end of the line feeds before its echo. -/
lemma start {t u : Text} (k : Nat) (h : List.Forall₂ Widened t u) :
    Echo k ⟨0, none, t⟩ (Site.advance ⟨0, none, List.replicate k '\n' ++ u⟩ k) := by
  refine ⟨by rw [advance_offset], ?_, ?_⟩
  · cases k with
    | zero => exact .none
    | succ n =>
      show EchoBefore none (List.replicate (n + 1) '\n' ++ u)[n]?
      rw [List.getElem?_append_left (by simp), List.getElem?_replicate_of_lt (Nat.lt_succ_self n)]
      exact .start
  · rw [advance_rest]
    show List.Forall₂ Widened t (List.drop k (List.replicate k '\n' ++ u))
    rwa [List.drop_left' List.length_replicate]

lemma name (h : s.Echo k s') :
    Option.Rel (fun v w => w = v ∧ s.Echo k s' ∧ (s.advance v.length).Echo k (s'.advance v.length))
      (leadingName? s.rest) (leadingName? s'.rest) := by
  rw [leadingName?_widened h.rest]
  cases leadingName? s.rest with
  | none => exact .none
  | some v => exact .some ⟨rfl, h, h.advance v.length⟩

/-- The moves of recognisers keep a place and its echo together. -/
lemma lockstep (k : Nat) : Lockstep k (Echo k) (Echo k) where
  loose := id
  offset := Echo.offset
  afterName := afterName_eq
  before := fun h hp hfeed => h.before.all_eq hp hfeed
  next := by
    intro s s' c cs h hs
    have hrest := h.rest
    rw [hs, List.forall₂_cons_left_iff] at hrest
    obtain ⟨d, ds, hcd, _, hs'⟩ := hrest
    exact ⟨d, ds, hs', hcd, h.advance 1⟩
  stop := by
    intro s s' h hnil
    have hrest := h.rest
    rw [hnil, List.forall₂_nil_left_iff] at hrest
    exact .inl hrest
  skipBlanks := skipBlanks
  char? := fun h hp => rel_imp (h.char? hp.1) fun _ _ hz => ⟨h, hz⟩
  word? := fun h hw => h.word? (isNameChar_of_mem_name hw)
  name := name
  lineEnd := fun h => (h.skipWhile (by decide)).offset

end Echo

lemma advance_add (s : Site) (m n : Nat) : s.advance (m + n) = (s.advance m).advance n := by
  cases n with
  | zero => rfl
  | succ n =>
    cases m with
    | zero => rw [Nat.zero_add]; rfl
    | succ m =>
      show Site.mk (s.offset + (m + 1 + (n + 1))) s.rest[m + 1 + n]?
          (s.rest.drop (m + 1 + (n + 1)))
        = ⟨s.offset + (m + 1) + (n + 1), (s.rest.drop (m + 1))[n]?,
          (s.rest.drop (m + 1)).drop (n + 1)⟩
      rw [List.getElem?_drop, List.drop_drop, Nat.add_assoc s.offset]

end Site

/-- The place at an offset of a text and the same place of its echo. -/
lemma Echoes.ofOffset {k : Nat} {t t' : Text} (h : Echoes k t t') (offset : Nat) :
    Site.Echo k (.ofOffset t offset) (.ofOffset t' (offset + k)) := by
  have hlen := h.length_eq
  obtain ⟨u, rfl, htu⟩ := h
  rw [Site.ofOffset, Site.ofOffset, hlen,
    show min (offset + k) (t.length + k) = k + min offset t.length by omega, Site.advance_add]
  exact (Site.Echo.start k htu).advance _

/-! ### Searches -/

variable {α : Type}

/-- A recogniser that finds nothing at line feeds, and at a place of an echo what corresponds to
what it finds in the text, over the same length. -/
structure Finder.Steady (k : Nat) (R : α → α → Prop) (find : Finder α) : Prop where
  feed : ∀ offset before t, find ⟨offset, before, '\n' :: t⟩ = none
  echo : ∀ s s', Site.Echo k s s' →
    Option.Rel (fun x y => R x.1 y.1 ∧ x.2 = y.2) (find s) (find s')

namespace Finder.Steady

variable {k : Nat} {R : α → α → Prop} {find : Finder α}

/-- A search goes over line feeds without a find. -/
lemma occurrencesFrom_feeds (h : find.Steady k R) (n : Nat) (u : Text) (offset : Nat)
    {before : Option Char} (hbefore : EchoBefore none before) :
    ∃ before', EchoBefore none before' ∧
      occurrencesFrom find 0 offset before (List.replicate n '\n' ++ u)
        = occurrencesFrom find 0 (offset + n) before' u := by
  induction n generalizing offset before with
  | zero => exact ⟨before, hbefore, rfl⟩
  | succ n ih =>
    obtain ⟨before', hbefore', e⟩ := ih (offset + 1) .start
    refine ⟨before', hbefore', ?_⟩
    rw [List.replicate_succ, List.cons_append, occurrencesFrom, h.feed, e, Nat.add_right_comm]
    rfl

/-- A steady recogniser finds in an echo what it finds in the text. -/
lemma occurrences (h : find.Steady k R) {t t' : Text} (ht : Echoes k t t') :
    List.Forall₂ R (occurrences find t) (occurrences find t') := by
  obtain ⟨u, rfl, htu⟩ := ht
  obtain ⟨before, hbefore, e⟩ := h.occurrencesFrom_feeds k u 0 .none
  rw [LazeEdit.occurrences, LazeEdit.occurrences, e]
  have hstart : Site.Echo k ⟨0, none, t⟩ ⟨0 + k, before, u⟩ := ⟨rfl, hbefore, htu⟩
  apply (Site.Echo.lockstep k).occurrencesFrom h.echo ?_ hstart 0
  intro s s' hs hnil skip
  have hrest := hs.rest
  rw [hnil, List.forall₂_nil_left_iff] at hrest
  rw [hrest]
  rfl

end Finder.Steady

end LazeEdit
