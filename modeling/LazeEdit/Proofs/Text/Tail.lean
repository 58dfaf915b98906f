import LazeEdit.Proofs.Classification.Names
import LazeEdit.Proofs.Text.Lockstep

/-!
# Idle lines behind a text

Behind a text stands a line feed and then characters that no recogniser looks at (`Idle`). A
recogniser that starts inside the text finds there what it finds in the text alone. As long as it
does not pass the end of the text it is at the same place of both, with the idle line behind it
(`Site.followed`). Only blanks lead it over the end, and there it meets idle characters where the
text has none. So the two texts are in lockstep (`lockstep_followed`), and a recogniser that finds
nothing at idle characters finds the same in both (`occurrences_followed`).
-/

namespace LazeEdit

variable {w : Text} {s s' : Site} {p : Char → Bool}

/-- A text of idle characters. -/
def Idle (t : Text) : Prop :=
  ∀ c ∈ t, c ∈ idleChars

lemma Idle.drop {t : Text} (h : Idle t) (n : Nat) : Idle (t.drop n) :=
  fun c hc => h c (List.mem_of_mem_drop hc)

lemma Idle.feed_cons (h : Idle w) : Idle ('\n' :: w) :=
  List.forall_mem_cons.mpr ⟨by decide, h⟩

lemma Idle.leadingName? {t : Text} (h : Idle t) : leadingName? t = none := by
  cases t with
  | nil => rfl
  | cons c cs =>
    have hmark : IsMark isNameStart := by decide
    rw [LazeEdit.leadingName?, hmark.idle (h c List.mem_cons_self)]
    rfl

lemma takeWhile_append_feed (hp : p '\n' = false) (t w : Text) :
    (t ++ '\n' :: w).takeWhile p = t.takeWhile p := by
  induction t with
  | nil => exact List.takeWhile_cons_of_neg (by rw [hp]; exact Bool.false_ne_true)
  | cons c cs ih => rw [List.cons_append, List.takeWhile_cons, List.takeWhile_cons, ih]

namespace Site

/-- The same place when a line feed and another text stand behind its text. -/
def followed (w : Text) (s : Site) : Site :=
  { s with rest := s.rest ++ '\n' :: w }

lemma advance_followed {n : Nat} (hn : n ≤ s.rest.length) :
    (s.followed w).advance n = (s.advance n).followed w := by
  cases n with
  | zero => rfl
  | succ n =>
    show Site.mk _ (s.rest ++ '\n' :: w)[n]? ((s.rest ++ '\n' :: w).drop (n + 1)) = _
    rw [List.getElem?_append_left hn, List.drop_append_of_le_length hn]
    rfl

lemma skipWhile_followed (hp : p '\n' = false) :
    (s.followed w).skipWhile p = (s.skipWhile p).followed w := by
  rw [skipWhile, skipWhile, ← advance_followed (List.takeWhile_prefix p).length_le]
  exact congrArg (fun v : Text => (s.followed w).advance v.length) (takeWhile_append_feed hp s.rest w)

/-- A place of a text and one of the text with an idle line behind it: the same place, or places at
or behind the end of the text. -/
def Trails (w : Text) (s s' : Site) : Prop :=
  s' = s.followed w ∨ (s.rest = [] ∧ Idle s'.rest)

lemma Trails.skipBlanks (hw : Idle w) (h : s.Trails w s') :
    s.skipBlanks.Trails w s'.skipBlanks := by
  obtain rfl | ⟨hnil, hidle⟩ := h
  · by_cases hblank : (s.rest.takeWhile isBlank).length = s.rest.length
    · -- the blanks reach to the end of the text, and then into the idle line
      right
      constructor
      · rw [Site.skipBlanks, skipWhile, advance_rest, hblank, List.drop_length]
      · rw [Site.skipBlanks, skipWhile, advance_rest]
        show Idle ((s.rest ++ '\n' :: w).drop ((s.rest ++ '\n' :: w).takeWhile isBlank).length)
        rw [List.takeWhile_append, if_pos hblank, List.length_append, ← List.drop_drop,
          List.drop_left]
        exact hw.feed_cons.drop _
    · left
      have htake : (s.rest ++ '\n' :: w).takeWhile isBlank = s.rest.takeWhile isBlank := by
        rw [List.takeWhile_append, if_neg hblank]
      rw [Site.skipBlanks, Site.skipBlanks, skipWhile, skipWhile,
        ← advance_followed (List.takeWhile_prefix isBlank).length_le]
      exact congrArg (fun v : Text => (s.followed w).advance v.length) htake
  · right
    constructor
    · rw [Site.skipBlanks, skipWhile, advance_rest, hnil, List.drop_nil]
    · rw [Site.skipBlanks, skipWhile, advance_rest]
      exact hidle.drop _

lemma char?_of_idle (h : Idle s.rest) (hp : IsMark p) : s.char? p = none := by
  obtain ⟨offset, before, rest⟩ := s
  cases rest with
  | nil => rfl
  | cons c cs =>
    show (if p c then _ else none) = none
    rw [hp.idle (h c List.mem_cons_self)]
    rfl

lemma Trails.char? (h : s.Trails w s') (hp : IsMark p) :
    Option.Rel (fun z z' => s' = s.followed w ∧ z' = z.followed w) (s.char? p) (s'.char? p) := by
  obtain rfl | ⟨hnil, hidle⟩ := h
  · obtain ⟨offset, before, rest⟩ := s
    cases rest with
    | nil =>
      show Option.Rel _ none (if p '\n' then _ else none)
      rw [hp.idle (c := '\n') (by decide)]
      exact .none
    | cons c cs =>
      show Option.Rel _ (if p c then some _ else none) (if p c then some _ else none)
      split
      · exact .some ⟨rfl, advance_followed (Nat.le_add_left 1 cs.length)⟩
      · exact .none
  · have hend : Idle s.rest := by
      rw [hnil]
      exact List.forall_mem_nil _
    rw [char?_of_idle hend hp, char?_of_idle hidle hp]
    exact .none

/-- A name does not reach over a line feed. -/
lemma prefix_append_feed {v t : Text} (hv : isName v) : v <+: t ++ '\n' :: w ↔ v <+: t := by
  constructor
  · intro h
    by_cases hlen : v.length ≤ t.length
    · exact List.prefix_of_prefix_length_le h (List.prefix_append t _) hlen
    · obtain ⟨c, hc, hname⟩ :=
        charAt_of_beginning h (isNameChar_of_mem_name hv) (Nat.lt_of_not_le hlen)
      rw [List.getElem?_append_right (Nat.le_refl _), Nat.sub_self] at hc
      cases hc
      cases hname
  · exact fun h => h.trans (List.prefix_append t _)

lemma Trails.word? {v : Text} (h : s.Trails w s') (hv : isName v) :
    Option.Rel (fun z z' => z' = z.followed w) (s.word? v) (s'.word? v) := by
  obtain rfl | ⟨hnil, hidle⟩ := h
  · have hbegin : v.isPrefixOf (s.followed w).rest = v.isPrefixOf s.rest := by
      rw [Bool.eq_iff_iff, List.isPrefixOf_iff_prefix, List.isPrefixOf_iff_prefix]
      exact prefix_append_feed hv
    rw [Site.word?, Site.word?, hbegin]
    split
    case isTrue hv =>
      exact .some (advance_followed (List.isPrefixOf_iff_prefix.mp hv).length_le)
    case isFalse => exact .none
  · rw [word?_eq_none hv (by rw [hnil]; rfl), word?_eq_none hv hidle.leadingName?]
    exact .none

lemma leadingName?_append_feed (t w : Text) :
    leadingName? (t ++ '\n' :: w) = leadingName? t := by
  cases t with
  | nil => rfl
  | cons c cs => rw [List.cons_append, leadingName?, leadingName?, takeWhile_append_feed rfl]

lemma Trails.name (h : s.Trails w s') :
    Option.Rel (fun u v => v = u ∧ s' = s.followed w ∧
        s'.advance u.length = (s.advance u.length).followed w)
      (leadingName? s.rest) (leadingName? s'.rest) := by
  obtain rfl | ⟨hnil, hidle⟩ := h
  · have hname : leadingName? (s.followed w).rest = leadingName? s.rest :=
      leadingName?_append_feed s.rest w
    rw [hname]
    cases hv : leadingName? s.rest with
    | none => exact .none
    | some v => exact .some ⟨rfl, rfl, advance_followed (leadingName?_spec hv).1.length_le⟩
  · rw [hnil, hidle.leadingName?]
    exact .none

end Site

/-- A text and the same text with an idle line behind it are in lockstep. -/
lemma lockstep_followed (hw : Idle w) :
    Site.Lockstep 0 (fun s s' => s' = s.followed w) (Site.Trails w) where
  loose := .inl
  offset := by
    rintro s _ rfl
    rfl
  afterName := by
    rintro s _ rfl
    rfl
  before := by
    rintro s _ p rfl _ _
    rfl
  next := by
    rintro s _ c cs rfl hs
    refine ⟨c, cs ++ '\n' :: w, ?_, .inl rfl, Site.advance_followed ?_⟩
    · rw [Site.followed, hs, List.cons_append]
    · rw [hs]
      exact Nat.le_add_left 1 cs.length
  stop := by
    rintro s _ rfl hnil
    refine .inr ⟨w, ?_⟩
    rw [Site.followed, hnil, List.nil_append]
  skipBlanks := fun h => h.skipBlanks hw
  char? := fun h hp => h.char? hp
  word? := fun h hv => h.word? hv
  name := fun h => h.name
  lineEnd := by
    rintro s _ rfl
    rw [Site.skipWhile_followed (by decide)]
    rfl

/-! ### Searches -/

variable {α : Type} {find : Finder α} {R : α → α → Prop}

/-- A recogniser finds nothing at idle characters. -/
def Finder.PassesIdle (find : Finder α) : Prop :=
  ∀ s, Idle s.rest → find s = none

lemma Finder.AtNames.passesIdle (h : find.AtNames) : find.PassesIdle :=
  fun s hs => h s hs.leadingName?

lemma Finder.PassesIdle.occurrencesFrom (h : find.PassesIdle) {t : Text} (ht : Idle t)
    (skip offset : Nat) (before : Option Char) : occurrencesFrom find skip offset before t = [] := by
  induction t generalizing skip offset before with
  | nil => rfl
  | cons c cs ih =>
    have hcs : Idle cs := ht.drop 1
    cases skip with
    | succ n => exact ih hcs n (offset + 1) (some c)
    | zero =>
      rw [LazeEdit.occurrencesFrom, h ⟨offset, before, c :: cs⟩ ht]
      exact ih hcs 0 (offset + 1) (some c)

/-- A recogniser finds in a text with an idle line behind it what it finds in the text. -/
lemma occurrences_followed (hw : Idle w) (h : find.PassesIdle)
    (hfind : ∀ s, Option.Rel (fun x y => R x.1 y.1 ∧ x.2 = y.2) (find s) (find (s.followed w)))
    (t : Text) : List.Forall₂ R (occurrences find t) (occurrences find (t ++ '\n' :: w)) := by
  have hstart : (⟨0, none, t ++ '\n' :: w⟩ : Site) = Site.followed w ⟨0, none, t⟩ := rfl
  apply (lockstep_followed hw).occurrencesFrom ?_ ?_ hstart 0
  · rintro s _ rfl
    exact hfind s
  · rintro s _ rfl hnil skip
    apply h.occurrencesFrom
    show Idle (s.rest ++ '\n' :: w)
    rw [hnil]
    exact hw.feed_cons

/-- A recogniser whose finds are the same gives the same list of finds. -/
lemma occurrences_followed_eq (hw : Idle w) (h : find.PassesIdle)
    (hfind : ∀ s, Option.Rel (fun x y => y.1 = x.1 ∧ x.2 = y.2) (find s) (find (s.followed w)))
    (t : Text) : occurrences find (t ++ '\n' :: w) = occurrences find t := by
  have hsame := (occurrences_followed hw h hfind t).flip
  rwa [← List.forall₂_eq_eq_eq]

end LazeEdit
