import LazeEdit.Lexicon.Name
import LazeEdit.Lexicon.Width
import LazeEdit.Proofs.Text.Search
import Mathlib.Data.List.Forall2

/-!
# Two texts in lockstep

What the recognisers find in a text can be compared with what they find in another one when their
moves keep places of the two texts together. `Site.Lockstep` lists these moves, for two relations
between places: an exact one, and a loose one that is left where blanks are passed, since the blanks
of one text may reach further than those of the other. A mark, a word or a name that follows loosely
related places stands at exactly related ones. The two texts may differ in the width of characters;
that a class does not depend on width is a finite check over the pairs of `freeWidths`.

What a recogniser finds at related places is related by `Option.Rel`, which goes through its steps
one by one (`rel_bind`, `rel_orElse`, `rel_findSome?`), and what it finds from such places on by
`List.Forall₂` (`Site.Lockstep.occurrencesFrom`).
-/

namespace LazeEdit

/-! ### Characters of either width -/

/-- The structural characters that may be written in either width without a difference to the
analysis: all but the star, which is part of comment marks, and the period, which is part of
numbers. -/
def freeWidths : List (Char × Char) :=
  fullWidthTable.filter fun p => p.1 != '*' && p.1 != '.'

/-- A character as it is, or in full width when it may be written in either width. -/
def Widened (c d : Char) : Prop :=
  c = d ∨ (c, d) ∈ freeWidths

instance (c d : Char) : Decidable (Widened c d) :=
  inferInstanceAs (Decidable (_ ∨ _))

/-- A function of characters that does not depend on their width. -/
def WidthFree {β : Type} (f : Char → β) : Prop :=
  ∀ p ∈ freeWidths, f p.1 = f p.2

instance {β : Type} [DecidableEq β] (f : Char → β) : Decidable (WidthFree f) :=
  inferInstanceAs (Decidable (∀ p ∈ freeWidths, _))

/-- A class of characters that have one width only. -/
def OneWidth (p : Char → Bool) : Prop :=
  ∀ q ∈ freeWidths, p q.1 = false ∧ p q.2 = false

instance (p : Char → Bool) : Decidable (OneWidth p) :=
  inferInstanceAs (Decidable (∀ q ∈ freeWidths, _))

section Characters

variable {β : Type} {f : Char → β} {p : Char → Bool} {c d : Char}

lemma Widened.apply (h : Widened c d) (hf : WidthFree f) : f c = f d := by
  obtain rfl | h := h
  · rfl
  · exact hf _ h

/-- A character of one width is not widened. -/
lemma Widened.eq_of_oneWidth (h : Widened c d) (hp : OneWidth p) (hc : p c) : c = d := by
  obtain rfl | h := h
  · rfl
  · rw [(hp _ h).1] at hc
    cases hc

lemma OneWidth.widthFree (hp : OneWidth p) : WidthFree p := by
  intro q hq
  rw [(hp q hq).1, (hp q hq).2]

/-- A character of one width is not widened, and nothing is widened to it. -/
lemma Widened.mark_iff (h : Widened c d) {mark : Char} (hmark : OneWidth (· == mark)) :
    c = mark ↔ d = mark := by
  have e := h.apply hmark.widthFree
  rw [← beq_iff_eq, e, beq_iff_eq]

lemma oneWidth_feed : OneWidth (· == '\n') := by
  decide

lemma oneWidth_isNameChar : OneWidth isNameChar := by
  decide

lemma oneWidth_isNameStart : OneWidth isNameStart := by
  decide

lemma widthFree_isBlank : WidthFree isBlank := by
  decide

end Characters

/-! ### Marks -/

/-- The characters at the end of a text that no recogniser looks at: the blanks that masking leaves,
and closing braces. -/
def idleChars : Text :=
  ['\n', ' ', '\x7d']

/-- A class of marks: it does not depend on width, and no idle character belongs to it. -/
def IsMark (p : Char → Bool) : Prop :=
  WidthFree p ∧ idleChars.all fun c => !p c

instance (p : Char → Bool) : Decidable (IsMark p) :=
  inferInstanceAs (Decidable (_ ∧ _))

lemma IsMark.idle {p : Char → Bool} {c : Char} (h : IsMark p) (hc : c ∈ idleChars) :
    p c = false :=
  Bool.not_eq_true' _ ▸ List.all_eq_true.mp h.2 c hc

/-! ### Results that correspond -/

section Results

variable {α β γ δ : Type} {R : α → β → Prop} {S : γ → δ → Prop}

lemma rel_bind {x : Option α} {y : Option β} {f : α → Option γ} {g : β → Option δ}
    (h : Option.Rel R x y) (hfg : ∀ a b, R a b → Option.Rel S (f a) (g b)) :
    Option.Rel S (x >>= f) (y >>= g) := by
  cases h with
  | none => exact .none
  | some h => exact hfg _ _ h

lemma rel_map {x : Option α} {y : Option β} {f : α → γ} {g : β → δ} (h : Option.Rel R x y)
    (hfg : ∀ a b, R a b → S (f a) (g b)) : Option.Rel S (x.map f) (y.map g) := by
  cases h with
  | none => exact .none
  | some h => exact .some (hfg _ _ h)

lemma rel_imp {R' : α → β → Prop} {x : Option α} {y : Option β} (h : Option.Rel R x y)
    (himp : ∀ a b, R a b → R' a b) : Option.Rel R' x y := by
  cases h with
  | none => exact .none
  | some h => exact .some (himp _ _ h)

/-- A result that corresponds to another by a function. -/
lemma eq_map_of_rel {x : Option α} {y : Option β} {f : α → β}
    (h : Option.Rel (fun a b => b = f a) x y) : y = x.map f := by
  cases h with
  | none => rfl
  | some h => rw [h, Option.map_some]

lemma rel_orElse {x x' : Option α} {y y' : Option β} (h : Option.Rel R x y)
    (h' : Option.Rel R x' y') : Option.Rel R (x <|> x') (y <|> y') := by
  cases h with
  | none => exact h'
  | some h => exact .some h

/-- The first results along one list correspond when they do at each element. -/
lemma rel_findSome? {ws : List γ} {f : γ → Option α} {g : γ → Option β}
    (h : ∀ w ∈ ws, Option.Rel R (f w) (g w)) :
    Option.Rel R (ws.findSome? f) (ws.findSome? g) := by
  induction ws with
  | nil => exact .none
  | cons w ws ih =>
    rw [List.findSome?_cons, List.findSome?_cons]
    match f w, g w, h w List.mem_cons_self with
    | _, _, .none => exact ih fun v hv => h v (List.mem_cons_of_mem w hv)
    | _, _, .some hw => exact .some hw

end Results

/-! ### Moves -/

/-- Two relations between the places of a text and those of another one, `k` characters further on,
that the moves of recognisers keep. -/
structure Site.Lockstep (k : Nat) (Exact Loose : Site → Site → Prop) : Prop where
  loose : ∀ {s s'}, Exact s s' → Loose s s'
  offset : ∀ {s s'}, Exact s s' → s'.offset = s.offset + k
  afterName : ∀ {s s'}, Exact s s' → s'.afterName = s.afterName
  before : ∀ {s s'} {p : Char → Bool}, Exact s s' → WidthFree p → p '\n' →
    s'.before.all p = s.before.all p
  next : ∀ {s s' c cs}, Exact s s' → s.rest = c :: cs →
    ∃ d ds, s'.rest = d :: ds ∧ Widened c d ∧ Exact (s.advance 1) (s'.advance 1)
  stop : ∀ {s s'}, Exact s s' → s.rest = [] → s'.rest = [] ∨ ∃ w, s'.rest = '\n' :: w
  skipBlanks : ∀ {s s'}, Loose s s' → Loose s.skipBlanks s'.skipBlanks
  char? : ∀ {s s'} {p : Char → Bool}, Loose s s' → IsMark p →
    Option.Rel (fun z z' => Exact s s' ∧ Exact z z') (s.char? p) (s'.char? p)
  word? : ∀ {s s'} {w : Text}, Loose s s' → isName w → Option.Rel Exact (s.word? w) (s'.word? w)
  name : ∀ {s s'}, Loose s s' →
    Option.Rel (fun v w => w = v ∧ Exact s s' ∧ Exact (s.advance v.length) (s'.advance v.length))
      (leadingName? s.rest) (leadingName? s'.rest)
  lineEnd : ∀ {s s'}, Exact s s' →
    (s'.skipWhile fun c => c != ';' && c != '\n').offset
      = (s.skipWhile fun c => c != ';' && c != '\n').offset + k

namespace Site.Lockstep

variable {k : Nat} {Exact Loose : Site → Site → Prop} {s s' : Site}

/-- A search along a line gives related results when it does so at exactly related places. -/
lemma searchLine {α β : Type} {R : α → β → Prop} {p : Char → Bool} {f : Site → Option α}
    {g : Site → Option β} (h : Lockstep k Exact Loose) (hs : Exact s s') (hp : IsMark p)
    (hfg : ∀ z z', Exact z z' → Exact (z.advance 1) (z'.advance 1) → Option.Rel R (f z) (g z')) :
    Option.Rel R (s.searchLine p f) (s'.searchLine p g) := by
  obtain ⟨offset, before, rest⟩ := s
  obtain ⟨offset', before', rest'⟩ := s'
  show Option.Rel R (firstOnLine p f offset before rest) (firstOnLine p g offset' before' rest')
  induction rest generalizing offset before offset' before' rest' with
  | nil =>
    obtain hnil | ⟨w, hfeed⟩ := h.stop hs rfl
    · obtain rfl : rest' = [] := hnil
      exact .none
    · obtain rfl : rest' = '\n' :: w := hfeed
      rw [firstOnLine, firstOnLine, hp.idle (c := '\n') (by decide)]
      exact .none
  | cons c cs ih =>
    obtain ⟨d, ds, hrest, hcd, hnext⟩ := h.next hs rfl
    obtain rfl : rest' = d :: ds := hrest
    have hfirst : Option.Rel R (if p c then f ⟨offset, before, c :: cs⟩ else none)
        (if p d then g ⟨offset', before', d :: ds⟩ else none) := by
      rw [← hcd.apply hp.1]
      split
      · exact hfg _ _ hs hnext
      · exact .none
    rw [firstOnLine, firstOnLine]
    generalize (if p c then f ⟨offset, before, c :: cs⟩ else none) = x at hfirst ⊢
    generalize (if p d then g ⟨offset', before', d :: ds⟩ else none) = y at hfirst ⊢
    cases hfirst with
    | some hxy => exact .some hxy
    | none =>
      -- a line feed has one width, so the two searches stop together
      simp only [hcd.mark_iff oneWidth_feed]
      split
      · exact .none
      · exact ih (offset + 1) (some c) (offset' + 1) (some d) ds hnext

/-- Searches from exactly related places on find what is related, when the search of the second text
finds nothing behind the end of the first. -/
lemma occurrencesFrom {α : Type} {find : Finder α} {R : α → α → Prop} (h : Lockstep k Exact Loose)
    (hfind : ∀ s s', Exact s s' →
      Option.Rel (fun x y => R x.1 y.1 ∧ x.2 = y.2) (find s) (find s'))
    (hend : ∀ s s', Exact s s' → s.rest = [] → ∀ skip,
      LazeEdit.occurrencesFrom find skip s'.offset s'.before s'.rest = [])
    (hs : Exact s s') (skip : Nat) :
    List.Forall₂ R (LazeEdit.occurrencesFrom find skip s.offset s.before s.rest)
      (LazeEdit.occurrencesFrom find skip s'.offset s'.before s'.rest) := by
  obtain ⟨offset, before, t⟩ := s
  induction t generalizing offset before s' skip with
  | nil =>
    rw [hend _ _ hs rfl]
    exact .nil
  | cons c t ih =>
    obtain ⟨d, u, hrest, _, hadvance⟩ := h.next hs rfl
    obtain ⟨offset', before', t'⟩ := s'
    obtain rfl : t' = d :: u := hrest
    have hnext := fun skip => ih skip (offset + 1) (some c) hadvance
    cases skip with
    | succ n => exact hnext n
    | zero =>
      have hhere := hfind _ _ hs
      rw [LazeEdit.occurrencesFrom, LazeEdit.occurrencesFrom]
      generalize find ⟨offset, before, c :: t⟩ = x at hhere ⊢
      generalize find ⟨offset', before', d :: u⟩ = y at hhere ⊢
      cases hhere with
      | none => exact hnext 0
      | @some a b hab =>
        -- what is found has one length, so the two searches go on at related places
        obtain ⟨hrel, hlength⟩ := hab
        show List.Forall₂ R (a.1 :: _) (b.1 :: _)
        rw [← hlength]
        exact .cons hrel (hnext (a.2 - 1))

end Site.Lockstep

end LazeEdit
