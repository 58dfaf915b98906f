import LazeEdit.Proofs.Text.Lines
import LazeEdit.Proofs.Text.Search

/-!
# Stretches of a text

What the moves of a recogniser find, said of the text by its offsets. Passing blanks and a character
of a class that holds no blank leads behind the next character that is not blank (`NextChar`). A
search along a line gives what it gives at the first character of its class where it gives anything
(`Site.In.first_of_searchLine`), and nothing when it gives nothing at any of them.
-/

namespace LazeEdit

variable {t : Text} {s s' : Site} {p : Char → Bool} {a b : Nat}

/-! ### Places at a character -/

namespace CharAt

lemma ofOffset_offset (h : CharAt t p a) : (Site.ofOffset t a).offset = a :=
  Site.ofOffset_offset (Nat.le_of_lt h.lt_length)

lemma ofOffset_succ_offset (h : CharAt t p a) : (Site.ofOffset t (a + 1)).offset = a + 1 :=
  Site.ofOffset_offset h.lt_length

lemma ofOffset_advance (h : CharAt t p a) :
    (Site.ofOffset t a).advance 1 = .ofOffset t (a + 1) := by
  have hin := (Site.ofOffset_in t a).next (p := p) (by rwa [h.ofOffset_offset])
  rw [hin.eq_ofOffset, Site.advance_offset, h.ofOffset_offset]

end CharAt

/-! ### Blanks -/

/-- A class of characters that holds no blank. -/
def Solid (p : Char → Bool) : Prop :=
  ∀ c, p c → ¬ isBlank c

lemma solid_pair {x y : Char} (hx : ¬ isBlank x) (hy : ¬ isBlank y) :
    Solid fun c => c == x || c == y := by
  intro c hc
  rw [Bool.or_eq_true, beq_iff_eq, beq_iff_eq] at hc
  obtain rfl | rfl := hc
  · exact hx
  · exact hy

/-- Only blanks stand between two offsets of a text. -/
structure Blanks (t : Text) (a b : Nat) : Prop where
  le : a ≤ b
  blank : ∀ i, a ≤ i → i < b → CharAt t isBlank i

instance (t : Text) (a b : Nat) : Decidable (Blanks t a b) :=
  decidable_of_iff (a ≤ b ∧ ∀ i < b, a ≤ i → CharAt t isBlank i)
    ⟨fun ⟨hle, hblank⟩ => ⟨hle, fun i hi hlt => hblank i hlt hi⟩,
      fun h => ⟨h.le, fun i hlt hi => h.blank i hi hlt⟩⟩

/-- The first character from `a` on that is not blank stands at `b` and is of a class. -/
structure NextChar (t : Text) (p : Char → Bool) (a b : Nat) : Prop where
  blanks : Blanks t a b
  char : CharAt t p b

instance (t : Text) (p : Char → Bool) (a b : Nat) : Decidable (NextChar t p a b) :=
  decidable_of_iff (Blanks t a b ∧ CharAt t p b)
    ⟨fun h => ⟨h.1, h.2⟩, fun h => ⟨h.blanks, h.char⟩⟩

namespace Site

lemma In.getElem?_of_rest {c : Char} {cs : Text} (h : s.In t) (hs : s.rest = c :: cs) :
    t[s.offset]? = some c := by
  rw [← Nat.add_zero s.offset, ← List.getElem?_drop, ← h.rest, hs]
  rfl

lemma In.blanks (h : s.In t) : Blanks t s.offset s.skipBlanks.offset := by
  rw [skipBlanks, Site.skipWhile, advance_offset]
  refine ⟨Nat.le_add_right _ _, ?_⟩
  intro i hle hlt
  obtain ⟨j, rfl⟩ := Nat.exists_eq_add_of_le hle
  rw [← h.charAt_rest]
  exact charAt_of_beginning (List.takeWhile_prefix isBlank) (fun c hc => List.mem_takeWhile_imp hc)
    (Nat.lt_of_add_lt_add_left hlt)

lemma In.not_blank (h : s.In t) : ¬ CharAt t isBlank s.skipBlanks.offset := by
  rw [skipBlanks, Site.skipWhile, advance_offset, ← h.charAt_rest]
  exact not_charAt_takeWhile_length s.rest isBlank

/-- Passing blanks leads to the character at which they end. -/
lemma In.skipBlanks_eq (h : s.In t) (hblanks : Blanks t s.offset b) (hnot : ¬ CharAt t isBlank b) :
    s.skipBlanks = ofOffset t b := by
  have hoffset : s.skipBlanks.offset = b := by
    obtain hlt | heq | hlt := Nat.lt_trichotomy s.skipBlanks.offset b
    · exact absurd (hblanks.blank _ h.blanks.le hlt) h.not_blank
    · exact heq
    · exact absurd (h.blanks.blank b hblanks.le hlt) hnot
  exact (h.skipWhile isBlank).eq_ofOffset.trans (congrArg (ofOffset t) hoffset)

lemma In.char?_eq (h : s.In t) (hp : CharAt t p s.offset) :
    s.char? p = some (ofOffset t (s.offset + 1)) := by
  obtain ⟨c, hc, hpc⟩ := (h.charAt_rest p 0).mpr hp
  obtain ⟨cs, hrest⟩ := List.head?_eq_some_iff.mp (List.head?_eq_getElem?.trans hc)
  have hnext := (h.next hp).eq_ofOffset
  rw [advance_offset] at hnext
  rw [Site.char?, hrest, ← hnext]
  exact if_pos hpc

/-- A character that is passed behind blanks is the next one. -/
lemma In.nextChar (h : s.In t) (e : s.skipBlanks.char? p = some s') :
    NextChar t p s.offset s.skipBlanks.offset ∧ s' = ofOffset t (s.skipBlanks.offset + 1) := by
  have hskip := h.skipWhile isBlank
  have hchar := hskip.charAt_of_char? e
  refine ⟨⟨h.blanks, hchar⟩, ?_⟩
  exact Option.some.inj (e.symm.trans (hskip.char?_eq hchar))

end Site

lemma NextChar.char? (h : NextChar t p s.offset b) (hp : Solid p) (hs : s.In t) :
    s.skipBlanks = .ofOffset t b ∧ s.skipBlanks.char? p = some (.ofOffset t (b + 1)) := by
  have hnot : ¬ CharAt t isBlank b := by
    intro hblank
    obtain ⟨c, hpc, hc⟩ := h.char.both hblank
    exact hp c hpc hc
  have hskip := hs.skipBlanks_eq h.blanks hnot
  have hoffset := h.char.ofOffset_offset
  refine ⟨hskip, ?_⟩
  rw [hskip, (Site.ofOffset_in t b).char?_eq (by rw [hoffset]; exact h.char), hoffset]

lemma NextChar.of_charAt (h : CharAt t p a) : NextChar t p a a :=
  ⟨⟨Nat.le_refl a, by omega⟩, h⟩

/-- The next character stands at one offset. -/
lemma NextChar.unique {q : Char → Bool} {c : Nat} (h : NextChar t p a b) (hp : Solid p)
    (h' : NextChar t q a c) (hq : Solid q) : b = c := by
  obtain hlt | heq | hlt := Nat.lt_trichotomy b c
  · obtain ⟨x, hpx, hx⟩ := h.char.both (h'.blanks.blank b h.blanks.le hlt)
    exact absurd hx (hp x hpx)
  · exact heq
  · obtain ⟨x, hqx, hx⟩ := h'.char.both (h.blanks.blank c h'.blanks.le hlt)
    exact absurd hx (hq x hqx)

/-! ### Searches along a line -/

lemma LinePiece.trans {c : Nat} (h : LinePiece t a b) (h' : LinePiece t b c) : LinePiece t a c := by
  refine ⟨Nat.lt_trans h.lt h'.lt, h'.le, fun i hle hlt => ?_⟩
  by_cases hi : i < b
  · exact h.line i hle hi
  · exact h'.line i (Nat.le_of_not_lt hi) hlt

namespace Site

variable {α : Type} {k : Site → Option α} {x : α}

/-- What a search along a line gives, it gives at the first character of the class where it gives
anything. -/
lemma In.first_of_searchLine (h : s.In t) (e : s.searchLine p k = some x) :
    ∃ q, s.offset ≤ q ∧ CharAt t p q ∧ (∀ i, s.offset ≤ i → i < q → t[i]? ≠ some '\n') ∧
      k (ofOffset t q) = some x ∧
      ∀ i, s.offset ≤ i → i < q → CharAt t p i → k (ofOffset t i) = none := by
  obtain ⟨offset, before, rest⟩ := s
  change firstOnLine p k offset before rest = some x at e
  show ∃ q, offset ≤ q ∧ _
  induction rest generalizing offset before with
  | nil => cases e
  | cons c cs ih =>
    have hhere : (⟨offset, before, c :: cs⟩ : Site) = ofOffset t offset := h.eq_ofOffset
    have hget : t[offset]? = some c := h.getElem?_of_rest rfl
    rw [firstOnLine] at e
    split at e
    case h_1 y hk =>
      cases e
      split at hk
      case isTrue hc =>
        rw [hhere] at hk
        exact ⟨offset, Nat.le_refl _, ⟨c, hget, hc⟩,
          fun i hle hlt => absurd hle (Nat.not_le_of_lt hlt), hk,
          fun i hle hlt => absurd hle (Nat.not_le_of_lt hlt)⟩
      case isFalse => cases hk
    case h_2 hk =>
      split at e
      case isTrue => cases e
      case isFalse hfeed =>
        obtain ⟨q, hle, hq, hline, hkq, hfirst⟩ :=
          ih (offset + 1) (some c) (h.advance (Nat.le_add_left 1 cs.length)) e
        refine ⟨q, Nat.le_of_succ_le hle, hq, ?_, hkq, ?_⟩
        · intro i hi hlt
          obtain rfl | hi := Nat.eq_or_lt_of_le hi
          · rw [hget]
            exact fun e => hfeed (Option.some.inj e)
          · exact hline i hi hlt
        · intro i hi hlt hpi
          obtain rfl | hi := Nat.eq_or_lt_of_le hi
          · obtain ⟨d, hd, hpd⟩ := hpi
            cases hget.symm.trans hd
            rwa [if_pos hpd, hhere] at hk
          · exact hfirst i hi hlt hpi

/-- A search along a line that gives nothing gives nothing at any character of its class. -/
lemma In.eq_none_of_searchLine (h : s.In t) (e : s.searchLine p k = none) {q : Nat}
    (hle : s.offset ≤ q) (hq : CharAt t p q)
    (hline : ∀ i, s.offset ≤ i → i < q → t[i]? ≠ some '\n') : k (ofOffset t q) = none := by
  obtain ⟨offset, before, rest⟩ := s
  change firstOnLine p k offset before rest = none at e
  change offset ≤ q at hle
  induction rest generalizing offset before with
  | nil =>
    have hlen : offset = t.length := h.length_rest
    have hlt := hq.lt_length
    omega
  | cons c cs ih =>
    have hhere : (⟨offset, before, c :: cs⟩ : Site) = ofOffset t offset := h.eq_ofOffset
    have hget : t[offset]? = some c := h.getElem?_of_rest rfl
    rw [firstOnLine] at e
    split at e
    case h_1 => cases e
    case h_2 hk =>
      obtain rfl | hlt := Nat.eq_or_lt_of_le hle
      · obtain ⟨d, hd, hpd⟩ := hq
        cases hget.symm.trans hd
        rwa [if_pos hpd, hhere] at hk
      · have hfeed : c ≠ '\n' := fun hc => hline offset (Nat.le_refl _) hlt (by rw [hget, hc])
        rw [if_neg hfeed] at e
        exact ih (offset + 1) (some c) (h.advance (Nat.le_add_left 1 cs.length))
          (fun i hi => hline i (Nat.le_of_succ_le hi)) e hlt

end Site

end LazeEdit
