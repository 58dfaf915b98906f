import LazeEdit.Proofs.Text.Characters
import LazeEdit.Text.Site
import Mathlib.Data.List.TakeWhile
import Mathlib.Order.Monotone.Basic

/-!
# Places and searches

`Site.In` says that a place belongs to a text: what stands before it and what follows are read off
the text at its offset. The moves of a recogniser (`advance`, `skipWhile`, `char?`, `word?`) keep a
place in its text.

A search looks at the offsets of `lookout`: each is behind the last one by the length of what was
found there, or by one. `mem_occurrences` reads the finds of a recogniser off these offsets, and
`Found.eq_of_overlap` says that two finds of one search that share an offset are one find. The
offsets of a search grow strictly, so the second fact needs no induction over the text.
-/

namespace LazeEdit

/-- A choice between two results gives one of them. -/
lemma eq_some_or_of_orElse {α : Type} {x y : Option α} {a : α} (h : (x <|> y) = some a) :
    x = some a ∨ y = some a := by
  rw [Option.orElse_eq_orElse, Option.orElse_eq_or, Option.or_eq_some_iff] at h
  obtain h | ⟨_, h⟩ := h
  · exact .inl h
  · exact .inr h

/-- What only one member of a list gives is found. -/
lemma findSome?_of_unique {α β : Type} {l : List α} {g : α → Option β} {a : α} {b : β} (ha : a ∈ l)
    (hg : g a = some b) (hunique : ∀ x ∈ l, x ≠ a → g x = none) : l.findSome? g = some b := by
  cases h : l.findSome? g with
  | none => cases (List.findSome?_eq_none_iff.mp h a ha).symm.trans hg
  | some c =>
    obtain ⟨x, hx, hxc⟩ := List.exists_of_findSome?_eq_some h
    by_cases he : x = a
    · rw [← hxc, he, hg]
    · cases (hunique x hx he).symm.trans hxc

namespace Site

/-! ### Places of a text -/

/-- A place of a text: its offset lies in the text and its surroundings are those of the offset. -/
structure In (t : Text) (s : Site) : Prop where
  bound : s.offset ≤ t.length
  rest : s.rest = t.drop s.offset
  before : s.before = (t.take s.offset).getLast?

/-- The start of a text is one of its places. -/
lemma In.start (t : Text) : In t ⟨0, none, t⟩ :=
  ⟨Nat.zero_le _, rfl, rfl⟩

/-- A place of a text is determined by its offset. -/
lemma In.ext {t : Text} {s s' : Site} (h : s.In t) (h' : s'.In t) (e : s.offset = s'.offset) :
    s = s' := by
  cases s with
  | mk offset before rest =>
    cases s' with
    | mk offset' before' rest' =>
      cases e
      rw [Site.mk.injEq]
      exact ⟨rfl, h.before.trans h'.before.symm, h.rest.trans h'.rest.symm⟩

/-- What follows a place reaches to the end of the text. -/
lemma In.length_rest {t : Text} {s : Site} (h : s.In t) : s.offset + s.rest.length = t.length := by
  rw [h.rest, List.length_drop]
  have := h.bound
  omega

/-- The characters behind a place are those of the text. -/
lemma In.charAt_rest {t : Text} {s : Site} (h : s.In t) (p : Char → Bool) (i : Nat) :
    CharAt s.rest p i ↔ CharAt t p (s.offset + i) := by
  rw [h.rest, charAt_drop]

@[simp] lemma advance_offset (s : Site) (n : Nat) : (s.advance n).offset = s.offset + n := by
  cases n with
  | zero => rfl
  | succ k => rfl

@[simp] lemma advance_rest (s : Site) (n : Nat) : (s.advance n).rest = s.rest.drop n := by
  cases n with
  | zero => rfl
  | succ k => rfl

/-- Going on inside a text leads to a place of the text. -/
lemma In.advance {t : Text} {s : Site} (h : s.In t) {n : Nat} (hn : n ≤ s.rest.length) :
    (s.advance n).In t := by
  have hlen := h.length_rest
  refine ⟨?_, ?_, ?_⟩
  · rw [advance_offset]
    omega
  · rw [advance_rest, advance_offset, h.rest, List.drop_drop]
  · cases n with
    | zero => exact h.before
    | succ k =>
      show s.rest[k]? = (t.take (s.offset + (k + 1))).getLast?
      rw [h.rest, List.getElem?_drop, List.getLast?_eq_getElem?, List.length_take,
        Nat.min_eq_left (by omega), List.getElem?_take_of_lt (by omega)]
      rfl

/-- The place at an offset is a place of the text. -/
lemma ofOffset_in (t : Text) (o : Nat) : (ofOffset t o).In t := by
  apply (In.start t).advance
  exact Nat.min_le_right _ _

/-- The place at an offset has that offset. -/
lemma ofOffset_offset {t : Text} {o : Nat} (h : o ≤ t.length) : (ofOffset t o).offset = o := by
  rw [ofOffset, advance_offset, Nat.min_eq_left h]
  exact Nat.zero_add o

/-- A place of a text is the place at its offset. -/
lemma In.eq_ofOffset {t : Text} {s : Site} (h : s.In t) : s = ofOffset t s.offset :=
  h.ext (ofOffset_in t _) (ofOffset_offset h.bound).symm

/-- The character before a place behind the start is the one at the offset before. -/
lemma In.before_succ {t : Text} {s : Site} {o : Nat} (h : s.In t) (e : s.offset = o + 1) :
    s.before = t[o]? := by
  have hb := h.bound
  rw [h.before, e, List.getLast?_eq_getElem?, List.length_take, Nat.min_eq_left (by omega),
    List.getElem?_take_of_lt (by omega)]
  rfl

/-! ### Moves -/

/-- Passing a run of characters leads to a place of the text. -/
lemma In.skipWhile {t : Text} {s : Site} (h : s.In t) (p : Char → Bool) : (s.skipWhile p).In t :=
  h.advance (List.takeWhile_prefix p).length_le

/-- Before the place behind a run stands what stood before the run, or a character of it. -/
lemma skipWhile_before (s : Site) (p : Char → Bool) :
    (s.skipWhile p).before = s.before ∨ ∃ c, (s.skipWhile p).before = some c ∧ p c := by
  rw [Site.skipWhile]
  cases hk : (s.rest.takeWhile p).length with
  | zero => exact .inl rfl
  | succ k =>
    have hlt : k < (s.rest.takeWhile p).length := by omega
    have hget : s.rest[k]? = some (s.rest.takeWhile p)[k] := by
      rw [List.prefix_iff_getElem?.mp (List.takeWhile_prefix p) k hlt]
    exact .inr ⟨_, hget, List.mem_takeWhile_imp (List.getElem_mem hlt)⟩

/-- What a step over one character says: the character is of the class, and it is passed. -/
lemma char?_eq_some {s s' : Site} {p : Char → Bool} (h : s.char? p = some s') :
    ∃ c cs, s.rest = c :: cs ∧ p c ∧ s' = s.advance 1 := by
  rw [char?] at h
  split at h
  case h_1 => cases h
  case h_2 c cs hrest =>
    split at h
    case isTrue hc =>
      cases h
      exact ⟨c, cs, hrest, hc, rfl⟩
    case isFalse => cases h

/-- A step over one character leads to a place of the text. -/
lemma In.char? {t : Text} {s s' : Site} {p : Char → Bool} (h : s.In t) (e : s.char? p = some s') :
    s'.In t := by
  obtain ⟨c, cs, hrest, _, rfl⟩ := char?_eq_some e
  apply h.advance
  rw [hrest]
  exact Nat.le_add_left 1 cs.length

/-- A character that is passed stands at the offset that is left. -/
lemma In.charAt_of_char? {t : Text} {s s' : Site} {p : Char → Bool} (h : s.In t)
    (e : s.char? p = some s') : CharAt t p s.offset := by
  obtain ⟨c, cs, hrest, hc, rfl⟩ := char?_eq_some e
  apply (h.charAt_rest p 0).mp
  rw [hrest]
  exact ⟨c, rfl, hc⟩

/-- What a step over a word says: the text goes on with the word, and it is passed. -/
lemma word?_eq_some {s s' : Site} {w : Text} (h : s.word? w = some s') :
    w <+: s.rest ∧ s' = s.advance w.length := by
  rw [word?] at h
  split at h
  case isTrue hw =>
    cases h
    exact ⟨List.isPrefixOf_iff_prefix.mp hw, rfl⟩
  case isFalse => cases h

/-- A step over a word leads to a place of the text. -/
lemma In.word? {t : Text} {s s' : Site} {w : Text} (h : s.In t) (e : s.word? w = some s') :
    s'.In t := by
  obtain ⟨hw, rfl⟩ := word?_eq_some e
  exact h.advance hw.length_le

/-- What a search along a line gives, it gives at a character of the class that is not behind. -/
lemma In.exists_of_searchLine {α : Type} {t : Text} {s : Site} {p : Char → Bool}
    {k : Site → Option α} {x : α} (h : s.In t) (e : s.searchLine p k = some x) :
    ∃ s', s'.In t ∧ s.offset ≤ s'.offset ∧ CharAt t p s'.offset ∧ k s' = some x := by
  cases s with
  | mk offset before rest =>
    change firstOnLine p k offset before rest = some x at e
    induction rest generalizing offset before with
    | nil => cases e
    | cons c cs ih =>
      rw [firstOnLine] at e
      split at e
      case h_1 a hk =>
        cases e
        split at hk
        case isTrue hc => exact ⟨_, h, Nat.le_refl _, (h.charAt_rest p 0).mp ⟨c, rfl, hc⟩, hk⟩
        case isFalse => cases hk
      case h_2 =>
        split at e
        case isTrue => cases e
        case isFalse =>
          obtain ⟨s', hs', hle, hfound⟩ :=
            ih (offset + 1) (some c) (h.advance (Nat.le_add_left 1 cs.length)) e
          exact ⟨s', hs', Nat.le_of_succ_le hle, hfound⟩

/-- A place at a character of a class is followed by another one. -/
lemma In.next {t : Text} {s : Site} {p : Char → Bool} (h : s.In t) (hp : CharAt t p s.offset) :
    (s.advance 1).In t := by
  have hlen := h.length_rest
  have hlt := hp.lt_length
  exact h.advance (by omega)

/-- What a search along a line gives, it gives at a place before another one. -/
lemma In.searchLine {α : Type} {t : Text} {s : Site} {p : Char → Bool} {k : Site → Option α} {x : α}
    (h : s.In t) (e : s.searchLine p k = some x) :
    ∃ s', s'.In t ∧ (s'.advance 1).In t ∧ k s' = some x := by
  obtain ⟨s', hs', _, hchar, hk⟩ := h.exists_of_searchLine e
  exact ⟨s', hs', hs'.next hchar, hk⟩

end Site

/-! ### Searches -/

variable {α : Type}

/-- How far a search goes on from an offset: behind what it finds there, or by one character. -/
def stride (find : Finder α) (t : Text) (o : Nat) : Nat :=
  match find (.ofOffset t o) with
  | none => 1
  | some (_, n) => max n 1

/-- The offsets at which a search looks, one after the other. -/
def lookout (find : Finder α) (t : Text) : Nat → Nat
  | 0 => 0
  | k + 1 => lookout find t k + stride find t (lookout find t k)

/-- A search looks at an offset, which no find before it covers. -/
def Looks (find : Finder α) (t : Text) (o : Nat) : Prop :=
  ∃ k, lookout find t k = o

/-- What a search finds: where, and over how many characters. -/
structure Found (find : Finder α) (t : Text) (a : α) (o n : Nat) : Prop where
  looks : Looks find t o
  inside : o < t.length
  finds : find (.ofOffset t o) = some (a, n)

/-- A search goes on by at least one character. -/
lemma stride_pos (find : Finder α) (t : Text) (o : Nat) : 0 < stride find t o := by
  rw [stride]
  split
  · exact Nat.one_pos
  · exact Nat.le_max_right _ 1

/-- The offsets of a search grow strictly. -/
lemma lookout_strictMono (find : Finder α) (t : Text) : StrictMono (lookout find t) :=
  strictMono_nat_of_lt_succ fun k =>
    Nat.lt_add_of_pos_right (stride_pos find t (lookout find t k))

/-- A search looks at the start. -/
lemma Looks.start (find : Finder α) (t : Text) : Looks find t 0 :=
  ⟨0, rfl⟩

/-- A search looks at the offset to which it goes on. -/
lemma Looks.next {find : Finder α} {t : Text} {o : Nat} (h : Looks find t o) :
    Looks find t (o + stride find t o) := by
  obtain ⟨k, rfl⟩ := h
  exact ⟨k + 1, rfl⟩

/-- A search looks at no offset between one and the next. -/
lemma Looks.next_le {find : Finder α} {t : Text} {o o' : Nat} (h : Looks find t o)
    (h' : Looks find t o') (hlt : o < o') : o + stride find t o ≤ o' := by
  obtain ⟨k, rfl⟩ := h
  obtain ⟨k', rfl⟩ := h'
  have hk : k < k' := (lookout_strictMono find t).lt_iff_lt.mp hlt
  exact (lookout_strictMono find t).monotone (Nat.succ_le_of_lt hk)

/-- The stride over a find is its length, or one for an empty find. -/
lemma Found.stride_eq {find : Finder α} {t : Text} {a : α} {o n : Nat} (h : Found find t a o n) :
    stride find t o = max n 1 := by
  rw [stride, h.finds]

/-- Each offset is looked at or lies inside a find. -/
lemma looks_or_covered (find : Finder α) {t : Text} {o : Nat} (ho : o ≤ t.length) :
    Looks find t o ∨ ∃ a o' n, Found find t a o' n ∧ o' < o ∧ o < o' + n := by
  induction o with
  | zero => exact .inl (.start find t)
  | succ o ih =>
    obtain h | ⟨a, o', n, hf, hlt, hlt'⟩ := ih (by omega)
    · cases hfind : find (.ofOffset t o) with
      | none =>
        have hnext := h.next
        rw [stride, hfind] at hnext
        exact .inl hnext
      | some found =>
        obtain ⟨a, n⟩ := found
        have hf : Found find t a o n := ⟨h, ho, hfind⟩
        by_cases hn : n ≤ 1
        · have hnext := h.next
          rw [hf.stride_eq, Nat.max_eq_right hn] at hnext
          exact .inl hnext
        · exact .inr ⟨a, o, n, hf, Nat.lt_succ_self o, by omega⟩
    · by_cases he : o' + n = o + 1
      · have hnext := hf.looks.next
        rw [hf.stride_eq, Nat.max_eq_left (by omega), he] at hnext
        exact .inl hnext
      · exact .inr ⟨a, o', n, hf, by omega, by omega⟩

/-- Two finds of one search that share an offset are the same. -/
lemma Found.eq_of_overlap {find : Finder α} {t : Text} {a b : α} {o n o' n' i : Nat}
    (h : Found find t a o n) (h' : Found find t b o' n') (hi : o ≤ i ∧ i < o + n)
    (hi' : o' ≤ i ∧ i < o' + n') : o = o' ∧ n = n' := by
  obtain hlt | rfl | hlt := Nat.lt_trichotomy o o'
  · have hle := h.looks.next_le h'.looks hlt
    rw [h.stride_eq] at hle
    omega
  · have e := h.finds.symm.trans h'.finds
    cases e
    exact ⟨rfl, rfl⟩
  · have hle := h'.looks.next_le h.looks hlt
    rw [h'.stride_eq] at hle
    omega

/-- Finds of one search that share an offset find the same. -/
lemma Found.form_eq {find : Finder α} {t : Text} {a b : α} {o n o' n' i : Nat}
    (h : Found find t a o n) (h' : Found find t b o' n') (hi : o ≤ i ∧ i < o + n)
    (hi' : o' ≤ i ∧ i < o' + n') : a = b := by
  obtain ⟨rfl, rfl⟩ := h.eq_of_overlap h' hi hi'
  cases h.finds.symm.trans h'.finds
  rfl

/-- The finds of a search from a place on, when the place at which it looks next is known. -/
lemma mem_occurrencesFrom {find : Finder α} {t : Text} {a : α} (rest : Text) :
    ∀ {skip offset before}, Site.In t ⟨offset, before, rest⟩ → Looks find t (offset + skip) →
      (a ∈ occurrencesFrom find skip offset before rest ↔
        ∃ o n, offset + skip ≤ o ∧ Found find t a o n) := by
  induction rest with
  | nil =>
    intro skip offset before hin _
    constructor
    · intro h
      cases h
    · rintro ⟨o, n, hle, hf⟩
      have hlen : offset = t.length := hin.length_rest
      have := hf.inside
      omega
  | cons c cs ih =>
    intro skip offset before hin hlook
    have hnext : Site.In t ⟨offset + 1, some c, cs⟩ := hin.advance (Nat.le_add_left 1 cs.length)
    have hlen : offset + (cs.length + 1) = t.length := hin.length_rest
    have hsite : (⟨offset, before, c :: cs⟩ : Site) = .ofOffset t offset := hin.eq_ofOffset
    cases skip with
    | succ k =>
      rw [occurrencesFrom, ih hnext (by rwa [Nat.add_right_comm])]
      rw [Nat.add_right_comm, Nat.add_assoc]
    | zero =>
      rw [occurrencesFrom, hsite]
      cases hfind : find (.ofOffset t offset) with
      | none =>
        have hstride : stride find t offset = 1 := by rw [stride, hfind]
        rw [ih hnext (by simpa [hstride] using hlook.next)]
        constructor
        · rintro ⟨o, n, hle, hf⟩
          exact ⟨o, n, by omega, hf⟩
        · rintro ⟨o, n, hle, hf⟩
          refine ⟨o, n, ?_, hf⟩
          obtain rfl | hlt := hle.eq_or_lt
          · have e := hfind.symm.trans hf.finds
            cases e
          · omega
      | some found =>
        obtain ⟨b, n⟩ := found
        have hb : Found find t b offset n := ⟨hlook, by omega, hfind⟩
        have hskip : offset + 1 + (n - 1) = offset + stride find t offset := by
          rw [hb.stride_eq]
          omega
        rw [List.mem_cons, ih hnext (by rw [hskip]; exact hlook.next), hskip]
        constructor
        · rintro (rfl | ⟨o, m, hle, hf⟩)
          · exact ⟨offset, n, le_rfl, hb⟩
          · exact ⟨o, m, by omega, hf⟩
        · rintro ⟨o, m, hle, hf⟩
          obtain rfl | hlt := hle.eq_or_lt
          · have e := hfind.symm.trans hf.finds
            cases e
            exact .inl rfl
          · exact .inr ⟨o, m, hlook.next_le hf.looks hlt, hf⟩

/-- The finds of a search are what its recogniser gives at the offsets at which it looks. -/
lemma mem_occurrences {find : Finder α} {t : Text} {a : α} :
    a ∈ occurrences find t ↔ ∃ o n, Found find t a o n := by
  rw [occurrences, mem_occurrencesFrom t (Site.In.start t) (.start find t)]
  simp

/-- A search goes on behind the characters that it skips. -/
lemma occurrencesFrom_skip (find : Finder α) (offset : Nat) (before : Option Char) (u v : Text) :
    ∃ before', occurrencesFrom find u.length offset before (u ++ v)
      = occurrencesFrom find 0 (offset + u.length) before' v := by
  induction u generalizing offset before with
  | nil => exact ⟨before, rfl⟩
  | cons c u ih =>
    obtain ⟨before', e⟩ := ih (offset + 1) (some c)
    refine ⟨before', ?_⟩
    rw [List.cons_append, List.length_cons, occurrencesFrom, e]
    congr 1
    omega

/-- What holds of a find and of each one behind its end holds of the finds of a search from a place
on, in their order. -/
lemma occurrencesFrom_pairwise {find : Finder α} {t : Text} {R : α → α → Prop}
    (hR : ∀ {a b o n o' n'}, Found find t a o n → Found find t b o' n' → o < o' → o + n ≤ o' →
      R a b)
    (rest : Text) :
    ∀ {skip offset before}, Site.In t ⟨offset, before, rest⟩ → Looks find t (offset + skip) →
      (occurrencesFrom find skip offset before rest).Pairwise R := by
  induction rest with
  | nil =>
    intro skip offset before _ _
    exact .nil
  | cons c cs ih =>
    intro skip offset before hin hlook
    have hnext : Site.In t ⟨offset + 1, some c, cs⟩ := hin.advance (Nat.le_add_left 1 cs.length)
    have hlen : offset + (cs.length + 1) = t.length := hin.length_rest
    have hsite : (⟨offset, before, c :: cs⟩ : Site) = .ofOffset t offset := hin.eq_ofOffset
    cases skip with
    | succ k =>
      rw [occurrencesFrom]
      exact ih hnext (by rwa [Nat.add_right_comm])
    | zero =>
      have hahead := hlook.next
      rw [occurrencesFrom, hsite]
      cases hfind : find (.ofOffset t offset) with
      | none =>
        rw [Nat.add_zero, stride, hfind] at hahead
        exact ih hnext hahead
      | some found =>
        obtain ⟨a, n⟩ := found
        have ha : Found find t a offset n := ⟨hlook, by omega, hfind⟩
        rw [Nat.add_zero, ha.stride_eq, show offset + max n 1 = offset + 1 + (n - 1) by omega]
          at hahead
        refine .cons ?_ (ih hnext hahead)
        intro b hb
        obtain ⟨o, m, hle, hf⟩ := (mem_occurrencesFrom cs hnext hahead).mp hb
        exact hR ha hf (by omega) (by omega)

/-- What holds of a find and of each one behind its end holds of the finds of a search in their
order. -/
lemma occurrences_pairwise {find : Finder α} {t : Text} {R : α → α → Prop}
    (hR : ∀ {a b o n o' n'}, Found find t a o n → Found find t b o' n' → o < o' → o + n ≤ o' →
      R a b) :
    (occurrences find t).Pairwise R :=
  occurrencesFrom_pairwise hR t (Site.In.start t) (.start find t)

end LazeEdit
