import LazeEdit.Proofs.Classification.Names
import LazeEdit.Proofs.Text.Stretches

/-!
# Runs of name characters

A maximal run of name characters that may begin a name (`NameRun`) is what a recogniser reads as a
name where no name character stands before it (`nameRun_of_leadingName?`, `NameRun.leadingName?`).
Runs that share an offset are the same run.

A word labels what stands behind it when only blanks and a colon stand between the two (`Labels`). A
label that stands behind no name is a run itself, no other run begins inside it
(`Labels.eq_of_run`), and a run that no colon follows is no label (`NameRun.labelled?_eq_none`).
-/

namespace LazeEdit

variable {t w : Text} {s : Site} {p q : Char → Bool} {a b c n : Nat}

/-! ### Marks -/

lemma solid_isColon : Solid isColon :=
  solid_pair (by decide) (by decide)

lemma solid_isOpenParen : Solid isOpenParen :=
  solid_pair (by decide) (by decide)

lemma solid_isOpenBrace : Solid isOpenBrace := by
  intro c hc
  have hbraces : openBraces.all (! isBlank ·) := by decide
  simpa using List.all_eq_true.mp hbraces c (List.contains_iff_mem.mp hc)

lemma Solid.or (hp : Solid p) (hq : Solid q) : Solid fun c => p c || q c := by
  intro c hc
  obtain hc | hc := (Bool.or_eq_true _ _).mp hc
  · exact hp c hc
  · exact hq c hc

lemma solid_isNameOpener : Solid isNameOpener :=
  (solid_isColon.or solid_isOpenParen).or solid_isOpenBrace

/-- The next character is not of two classes that have none in common. -/
lemma NextChar.disjoint (h : NextChar t p a b) (hp : Solid p) (h' : NextChar t q a c) (hq : Solid q)
    (hpq : ∀ x, p x → ¬ q x) : False := by
  obtain rfl := h.unique hp h' hq
  obtain ⟨x, hpx, hqx⟩ := h.char.both h'.char
  exact hpq x hpx hqx

lemma not_isOpenParen_of_isColon {x : Char} (h : isColon x) : ¬ isOpenParen x := by
  rw [isColon, Bool.or_eq_true, beq_iff_eq, beq_iff_eq] at h
  obtain rfl | rfl := h
  · decide
  · decide

namespace Site

/-- Passing blanks and a character succeeds just when the next character is of the class. -/
lemma exists_char?_iff (hp : Solid p) (ha : a ≤ t.length) :
    (∃ s', (ofOffset t a).skipBlanks.char? p = some s') ↔ ∃ b, NextChar t p a b := by
  have hoffset := ofOffset_offset ha
  constructor
  · rintro ⟨s', hs'⟩
    have hnext := ((ofOffset_in t a).nextChar hs').1
    rw [hoffset] at hnext
    exact ⟨_, hnext⟩
  · rintro ⟨b, hnext⟩
    rw [← hoffset] at hnext
    exact ⟨_, (hnext.char? hp (ofOffset_in t a)).2⟩

/-! ### What stands before a place -/

/-- A place has a character of a class before it, if any, just when it is the start or one stands at
the offset before. -/
lemma In.before_all_iff (h : s.In t) (p : Char → Bool) :
    s.before.all p ↔ s.offset = 0 ∨ CharAt t p (s.offset - 1) := by
  cases ho : s.offset with
  | zero =>
    have hbefore : s.before = none := by
      rw [h.before, ho]
      rfl
    rw [hbefore]
    exact ⟨fun _ => .inl rfl, fun _ => rfl⟩
  | succ o =>
    have hlt : o < t.length := by
      have := h.bound
      omega
    rw [h.before_succ ho, List.getElem?_eq_getElem hlt, Nat.add_sub_cancel]
    constructor
    · exact fun hp => .inr ⟨_, List.getElem?_eq_getElem hlt, hp⟩
    · rintro (h0 | ⟨x, hx, hp⟩)
      · cases h0
      · cases (List.getElem?_eq_getElem hlt).symm.trans hx
        exact hp

/-- A place is behind no name just when no name character stands at the offset before. -/
lemma In.not_afterName_iff (h : s.In t) :
    ¬ s.afterName ↔ (0 < s.offset → ¬ CharAt t isNameChar (s.offset - 1)) := by
  refine ⟨h.not_charAt_pred, ?_⟩
  intro halone hafter
  rw [afterName] at hafter
  cases hbefore : s.before with
  | none =>
    rw [hbefore] at hafter
    cases hafter
  | some x =>
    rw [hbefore] at hafter
    have hpos : 0 < s.offset := by
      by_contra hzero
      rw [h.before, Nat.eq_zero_of_not_pos hzero] at hbefore
      cases hbefore
    have hx := h.before_succ (o := s.offset - 1) (by omega)
    exact halone hpos ⟨x, hx.symm.trans hbefore, hafter⟩

end Site

/-! ### Runs -/

/-- A maximal run of name characters between two offsets, the first of which may begin a name. -/
structure NameRun (t : Text) (a b : Nat) : Prop where
  lt : a < b
  begins : CharAt t isNameStart a
  names : ∀ i, a ≤ i → i < b → CharAt t isNameChar i
  alone : 0 < a → ¬ CharAt t isNameChar (a - 1)
  ends : ¬ CharAt t isNameChar b

instance (t : Text) (a b : Nat) : Decidable (NameRun t a b) :=
  decidable_of_iff
    (a < b ∧ CharAt t isNameStart a ∧ (∀ i < b, a ≤ i → CharAt t isNameChar i) ∧
      (0 < a → ¬ CharAt t isNameChar (a - 1)) ∧ ¬ CharAt t isNameChar b)
    ⟨fun ⟨hlt, hbegins, hnames, halone, hends⟩ =>
        ⟨hlt, hbegins, fun i hle hi => hnames i hi hle, halone, hends⟩,
      fun h => ⟨h.lt, h.begins, fun i hi hle => h.names i hle hi, h.alone, h.ends⟩⟩

/-- What is read as a name behind no name is a run. -/
lemma nameRun_of_leadingName? (hs : s.In t) (hafter : ¬ s.afterName)
    (h : leadingName? s.rest = some w) : NameRun t s.offset (s.offset + w.length) := by
  have hword := wordAt_of_leadingName? hs hafter h
  exact ⟨hword.lt, hword.begins, hword.names, hs.not_charAt_pred hafter, hword.ends⟩

namespace NameRun

variable {a' b' i : Nat}

lemma wordAt (h : NameRun t a b) : WordAt t a b := by
  refine ⟨h.lt, h.begins, h.names, h.ends, ?_, fun _ => h.alone⟩
  intro i hi hstart
  have hpred := h.alone (by omega)
  refine ⟨a - 1, ?_, by omega, hpred⟩
  by_contra hle
  obtain rfl : i = a - 1 := by omega
  exact hpred (hstart.imp fun c => isNameChar_of_isNameStart)

/-- Two runs that share an offset are the same. -/
lemma eq_of_overlap (h : NameRun t a b) (h' : NameRun t a' b') (hi : a ≤ i ∧ i < b)
    (hi' : a' ≤ i ∧ i < b') : a = a' ∧ b = b' :=
  h.wordAt.eq_of_overlap h'.wordAt hi hi'

lemma ofOffset_offset (h : NameRun t a b) : (Site.ofOffset t a).offset = a :=
  h.begins.ofOffset_offset

lemma not_afterName (h : NameRun t a b) : ¬ (Site.ofOffset t a).afterName := by
  rw [(Site.ofOffset_in t a).not_afterName_iff, h.ofOffset_offset]
  exact h.alone

/-- A run is read as a name. -/
lemma leadingName? (h : NameRun t a b) :
    LazeEdit.leadingName? (Site.ofOffset t a).rest = some (slice t a b) := by
  obtain ⟨w, hw⟩ := exists_leadingName? h.begins
  have hin := Site.ofOffset_in t a
  have hrun := nameRun_of_leadingName? hin h.not_afterName hw
  have hpiece := hin.nameIn hw
  rw [h.ofOffset_offset] at hrun hpiece
  obtain ⟨_, rfl⟩ := hrun.eq_of_overlap h ⟨Nat.le_refl a, hrun.lt⟩ ⟨Nat.le_refl a, h.lt⟩
  have hpos : 0 < w.length := (leadingName?_spec hw).2.1
  exact hw.trans (congrArg some (hpiece.slice_eq hpos).symm)

lemma length_slice (h : NameRun t a b) : (slice t a b).length = b - a :=
  LazeEdit.length_slice h.wordAt.le_length

lemma stop_eq (h : NameRun t a b) : Piece.stop ⟨a, slice t a b⟩ = b := by
  have hlt := h.lt
  show a + (slice t a b).length = b
  rw [h.length_slice]
  omega

lemma not_blank (h : NameRun t a b) : ¬ CharAt t isBlank a := by
  intro hblank
  obtain ⟨x, hx, hstart⟩ := hblank.both h.begins
  exact not_isNameChar_of_isBlank hx (isNameChar_of_isNameStart hstart)

/-- The place behind a run. -/
lemma advance_eq (h : NameRun t a b) :
    (Site.ofOffset t a).advance (slice t a b).length = .ofOffset t b := by
  rw [(Site.ofOffset_in t a).behindName h.leadingName?, h.ofOffset_offset]
  exact congrArg (Site.ofOffset t) h.stop_eq

end NameRun

/-! ### Labels -/

/-- A word at one offset labels what stands at another: between the two stand only a colon and
blanks around it. -/
structure Labels (t w : Text) (a n : Nat) : Prop where
  word : w <+: t.drop a
  colon : ∃ c, NextChar t isColon (a + w.length) c ∧ Blanks t (c + 1) n

/-- What is read as a label, and where the blanks behind it end. -/
lemma Site.In.labels {s' : Site} (hs : s.In t) (h : s.labelled? w = some s') :
    Labels t w s.offset s'.offset ∧ ¬ CharAt t isBlank s'.offset := by
  obtain ⟨behind, hbehind, h⟩ := Option.bind_eq_some_iff.mp h
  obtain ⟨colon, hcolon, h⟩ := Option.bind_eq_some_iff.mp h
  cases h
  have hin := hs.word? hbehind
  have hcolonIn := (hin.skipWhile isBlank).char? hcolon
  obtain ⟨hnext, rfl⟩ := hin.nextChar hcolon
  obtain ⟨hbegin, rfl⟩ := Site.word?_eq_some hbehind
  have hblanks := hcolonIn.blanks
  rw [hnext.char.ofOffset_succ_offset] at hblanks
  rw [hs.rest] at hbegin
  rw [Site.advance_offset] at hnext
  exact ⟨⟨hbegin, _, hnext, hblanks⟩, hcolonIn.not_blank⟩

namespace Labels

variable {n' x y : Nat}

lemma lt (h : Labels t w a n) : a + w.length < n := by
  obtain ⟨c, hnext, hblanks⟩ := h.colon
  have hle := hnext.blanks.le
  have hlt := hblanks.le
  omega

lemma le_length (h : Labels t w a n) : a ≤ t.length := by
  obtain ⟨c, hnext, _⟩ := h.colon
  have hle := hnext.blanks.le
  have hlt := hnext.char.lt_length
  omega

/-- A label is read where it stands, to the end of the blanks behind it. -/
lemma labelled? (h : Labels t w a n) (hn : ¬ CharAt t isBlank n) :
    (Site.ofOffset t a).labelled? w = some (.ofOffset t n) := by
  obtain ⟨c, hnext, hblanks⟩ := h.colon
  have hin := Site.ofOffset_in t a
  have hoffset := Site.ofOffset_offset h.le_length
  have hbegin : w <+: (Site.ofOffset t a).rest := by
    rw [hin.rest, hoffset]
    exact h.word
  have hbehind := hin.advance hbegin.length_le
  rw [← hoffset, ← Site.advance_offset] at hnext
  rw [← hnext.char.ofOffset_succ_offset] at hblanks
  rw [Site.labelled?, Site.word?, if_pos (List.isPrefixOf_iff_prefix.mpr hbegin)]
  simp only [Option.bind_eq_bind, Option.bind_some, (hnext.char? solid_isColon hbehind).2,
    (Site.ofOffset_in t (c + 1)).skipBlanks_eq hblanks hn]
  rfl

/-- A label labels one offset at which no blank stands. -/
lemma unique (h : Labels t w a n) (hn : ¬ CharAt t isBlank n) (h' : Labels t w a n')
    (hn' : ¬ CharAt t isBlank n') : n = n' := by
  obtain ⟨c, hnext, hblanks⟩ := h.colon
  obtain ⟨c', hnext', hblanks'⟩ := h'.colon
  obtain rfl := hnext.unique solid_isColon hnext' solid_isColon
  obtain hlt | heq | hlt := Nat.lt_trichotomy n n'
  · exact absurd (hblanks'.blank n hblanks.le hlt) hn
  · exact heq
  · exact absurd (hblanks.blank n' hblanks'.le hlt) hn'

/-- No name character stands before what is labelled. -/
lemma alone (h : Labels t w a n) : ¬ CharAt t isNameChar (n - 1) := by
  obtain ⟨c, hnext, hblanks⟩ := h.colon
  intro hname
  obtain hlt | heq := Nat.lt_or_eq_of_le hblanks.le
  · obtain ⟨x, hx, hblank⟩ := hname.both (hblanks.blank (n - 1) (by omega) (by omega))
    exact not_isNameChar_of_isBlank hblank hx
  · rw [← heq, Nat.add_sub_cancel] at hname
    obtain ⟨x, hx, hcolon⟩ := hname.both hnext.char
    exact not_isNameChar_of_isColon hcolon hx

/-- A label that is a name and stands behind no name is a run. -/
lemma nameRun (h : Labels t w a n) (hw : isName w)
    (halone : 0 < a → ¬ CharAt t isNameChar (a - 1)) : NameRun t a (a + w.length) := by
  obtain ⟨c, hnext, _⟩ := h.colon
  have hin := Site.ofOffset_in t a
  have hoffset := Site.ofOffset_offset h.le_length
  have hbegin : w <+: (Site.ofOffset t a).rest := by
    rw [hin.rest, hoffset]
    exact h.word
  have hend : ¬ CharAt t isNameChar (a + w.length) := by
    intro hname
    obtain hlt | heq := Nat.lt_or_eq_of_le hnext.blanks.le
    · obtain ⟨x, hx, hblank⟩ := hname.both (hnext.blanks.blank _ (Nat.le_refl _) hlt)
      exact not_isNameChar_of_isBlank hblank hx
    · rw [heq] at hname
      obtain ⟨x, hx, hcolon⟩ := hname.both hnext.char
      exact not_isNameChar_of_isColon hcolon hx
  have hname : leadingName? (Site.ofOffset t a).rest = some w := by
    apply leadingName?_of_beginning hw hbegin
    rwa [hin.charAt_rest, hoffset]
  have hafter : ¬ (Site.ofOffset t a).afterName := by
    rwa [hin.not_afterName_iff, hoffset]
  have hrun := nameRun_of_leadingName? hin hafter hname
  rwa [hoffset] at hrun

/-- A run that begins inside a label is the labelling word. -/
lemma eq_of_run (h : Labels t w a n) (hlabel : NameRun t a (a + w.length)) (hrun : NameRun t x y)
    (hx : a ≤ x) (hxn : x < n) : x = a ∧ y = a + w.length := by
  obtain ⟨c, hnext, hblanks⟩ := h.colon
  have hname := hrun.begins.imp fun c => isNameChar_of_isNameStart
  have hnot : ∀ {p : Char → Bool}, (∀ z, p z → ¬ isNameChar z) → ¬ CharAt t p x := by
    intro p hp hat
    obtain ⟨z, hz, hpz⟩ := hname.both hat
    exact hp z hpz hz
  by_cases hword : x < a + w.length
  · exact hrun.eq_of_overlap hlabel ⟨Nat.le_refl x, hrun.lt⟩ ⟨hx, hword⟩
  · obtain hlt | rfl | hlt := Nat.lt_trichotomy x c
    · exact absurd (hnext.blanks.blank x (by omega) hlt) (hnot fun _ => not_isNameChar_of_isBlank)
    · exact absurd hnext.char (hnot fun _ => not_isNameChar_of_isColon)
    · exact absurd (hblanks.blank x (by omega) hxn) (hnot fun _ => not_isNameChar_of_isBlank)

end Labels

/-- A run that no colon follows is no label. -/
lemma NameRun.labelled?_eq_none (h : NameRun t a b) (hw : isName w)
    (hcolon : ∀ c, ¬ NextChar t isColon b c) : (Site.ofOffset t a).labelled? w = none := by
  rw [Option.eq_none_iff_forall_ne_some]
  intro s' hs'
  have hlabels := ((Site.ofOffset_in t a).labels hs').1
  rw [h.ofOffset_offset] at hlabels
  have hrun := hlabels.nameRun hw h.alone
  obtain ⟨_, rfl⟩ := h.eq_of_overlap hrun ⟨Nat.le_refl a, h.lt⟩ ⟨Nat.le_refl a, hrun.lt⟩
  obtain ⟨c, hnext, _⟩ := hlabels.colon
  exact hcolon c hnext

end LazeEdit
