import LazeEdit.Classification.Passes
import LazeEdit.Proofs.Lexicon.Classes
import LazeEdit.Proofs.Text.Search

/-!
# Words

A word of a text is a run of name characters from the first character of the run that may begin a
name (`WordAt`). Two words that share an offset are the same word. Each name that a recogniser finds
is a word: the recognisers of classes, functions, variables and types look behind them for the end
of a name and read a name to its end (`wordAt_of_leadingName?`), and the search for all names looks
at no offset inside a name that it has found (`Found.wordAt`).
-/

namespace LazeEdit

/-! ### Names -/

/-- What a leading name says: it begins the text, with a character that may begin a name, and ends
where the name characters end. -/
lemma leadingName?_spec {t w : Text} (h : leadingName? t = some w) :
    w <+: t ∧ 0 < w.length ∧ (∀ c ∈ w, isNameChar c) ∧ CharAt t isNameStart 0 ∧
      ¬ CharAt t isNameChar w.length := by
  cases t with
  | nil => cases h
  | cons c cs =>
    rw [leadingName?] at h
    split at h
    case isFalse => cases h
    case isTrue hc =>
      cases h
      have hcs : ∀ d ∈ cs.takeWhile isNameChar, isNameChar d := fun d hd =>
        List.mem_takeWhile_imp hd
      refine ⟨?_, Nat.succ_pos _, ?_, ⟨c, rfl, hc⟩, not_charAt_takeWhile_length cs isNameChar⟩
      · exact (List.cons_prefix_cons).mpr ⟨rfl, List.takeWhile_prefix _⟩
      · intro d hd
        obtain rfl | hd := List.mem_cons.mp hd
        · exact isNameChar_of_isNameStart hc
        · exact hcs d hd

/-- A beginning of a text that is a name is its leading name when no name character follows. -/
lemma leadingName?_of_beginning {t w : Text} (hw : isName w) (hp : w <+: t)
    (hend : ¬ CharAt t isNameChar w.length) : leadingName? t = some w := by
  rw [isName_iff] at hw
  obtain ⟨_, _, hnames, ⟨c, hc, hstart⟩, _⟩ := leadingName?_spec hw
  cases w with
  | nil => cases hw
  | cons d ds =>
    cases hc
    obtain ⟨rest, rfl⟩ := hp
    rw [List.cons_append, leadingName?, if_pos hstart, List.takeWhile_append_of_pos
      (fun e he => hnames e (List.mem_cons_of_mem c he))]
    have hrest : rest.takeWhile isNameChar = [] := by
      cases rest with
      | nil => rfl
      | cons e es =>
        apply List.takeWhile_cons_of_neg
        intro he
        apply hend
        exact ⟨e, by simp, he⟩
    rw [hrest, List.append_nil]

/-- A leading name is a name. -/
lemma isName_of_leadingName? {t w : Text} (h : leadingName? t = some w) : isName w := by
  cases t with
  | nil => cases h
  | cons c cs =>
    rw [leadingName?] at h
    split at h
    case isFalse => cases h
    case isTrue hc =>
      cases h
      rw [isName_iff, leadingName?, if_pos hc, List.takeWhile_idem]

lemma isNameChar_of_mem_name {w : Text} (hw : isName w) : ∀ c ∈ w, isNameChar c := by
  obtain ⟨_, _, hnames, _⟩ := leadingName?_spec (isName_iff.mp hw)
  exact hnames

/-! ### Words of a text -/

/-- A word between two offsets of a text: a run of name characters to its end, from the first
character of the run that may begin a name. A word that begins like a number stands behind no name
character. -/
structure WordAt (t : Text) (a b : Nat) : Prop where
  lt : a < b
  begins : CharAt t isNameStart a
  names : ∀ i, a ≤ i → i < b → CharAt t isNameChar i
  ends : ¬ CharAt t isNameChar b
  first : ∀ i, i < a → CharAt t isNameStart i → ∃ j, i < j ∧ j < a ∧ ¬ CharAt t isNameChar j
  clear : CharAt t isMarkedDigit a → 0 < a → ¬ CharAt t isNameChar (a - 1)

/-- Two words that share an offset begin together. -/
lemma WordAt.le_of_overlap {t : Text} {a b a' b' i : Nat} (h : WordAt t a b) (h' : WordAt t a' b')
    (hi : i < b) (hi' : a' ≤ i) : a' ≤ a := by
  by_contra hlt
  obtain ⟨j, hj, hj', hname⟩ := h'.first a (by omega) h.begins
  exact hname (h.names j (by omega) (by omega))

/-- Two words that share an offset are the same. -/
lemma WordAt.eq_of_overlap {t : Text} {a b a' b' i : Nat} (h : WordAt t a b) (h' : WordAt t a' b')
    (hi : a ≤ i ∧ i < b) (hi' : a' ≤ i ∧ i < b') : a = a' ∧ b = b' := by
  have ha : a = a' :=
    Nat.le_antisymm (h'.le_of_overlap h hi'.2 hi.1) (h.le_of_overlap h' hi.2 hi'.1)
  subst ha
  refine ⟨rfl, ?_⟩
  obtain hlt | rfl | hlt := Nat.lt_trichotomy b b'
  · exact absurd (h'.names b (by omega) hlt) h.ends
  · rfl
  · exact absurd (h.names b' (by omega) hlt) h'.ends

/-- A word ends inside its text. -/
lemma WordAt.le_length {t : Text} {a b : Nat} (h : WordAt t a b) : b ≤ t.length := by
  have hlt := h.lt
  have hlast := (h.names (b - 1) (by omega) (by omega)).lt_length
  omega

/-- The name characters of a leading name, at their offsets in the text. -/
lemma charAt_of_leadingName? {t w : Text} {s : Site} (hs : s.In t)
    (h : leadingName? s.rest = some w) {i : Nat} (hi : s.offset ≤ i)
    (hi' : i < s.offset + w.length) : CharAt t isNameChar i := by
  obtain ⟨hbegin, _, hnames, _, _⟩ := leadingName?_spec h
  obtain ⟨k, rfl⟩ := Nat.exists_eq_add_of_le hi
  exact (hs.charAt_rest _ k).mp (charAt_of_beginning hbegin hnames (by omega))

/-- A leading name ends where the name characters of the text end. -/
lemma not_charAt_of_leadingName? {t w : Text} {s : Site} (hs : s.In t)
    (h : leadingName? s.rest = some w) : ¬ CharAt t isNameChar (s.offset + w.length) := by
  obtain ⟨_, _, _, _, hend⟩ := leadingName?_spec h
  exact fun hat => hend ((hs.charAt_rest _ _).mpr hat)

/-- A leading name begins with a character that may begin a name. -/
lemma charAt_start_of_leadingName? {t w : Text} {s : Site} (hs : s.In t)
    (h : leadingName? s.rest = some w) : CharAt t isNameStart s.offset := by
  obtain ⟨_, _, _, hstart, _⟩ := leadingName?_spec h
  exact (hs.charAt_rest _ 0).mp hstart

/-- No name character stands before a place that is not behind a name. -/
lemma Site.In.not_charAt_pred {t : Text} {s : Site} (hs : s.In t) (h : ¬ s.afterName)
    (hpos : 0 < s.offset) : ¬ CharAt t isNameChar (s.offset - 1) := by
  rintro ⟨c, hc, hname⟩
  apply h
  rw [Site.afterName, hs.before_succ (o := s.offset - 1) (by omega), hc]
  exact hname

/-- The leading name at a place that is not behind a name is a word. -/
lemma wordAt_of_leadingName? {t w : Text} {s : Site} (hs : s.In t) (hafter : ¬ s.afterName)
    (h : leadingName? s.rest = some w) : WordAt t s.offset (s.offset + w.length) := by
  obtain ⟨_, hpos, _, _, _⟩ := leadingName?_spec h
  refine ⟨by omega, charAt_start_of_leadingName? hs h, fun i => charAt_of_leadingName? hs h,
    not_charAt_of_leadingName? hs h, ?_, fun _ => hs.not_charAt_pred hafter⟩
  intro i hi hstart
  have hpred := hs.not_charAt_pred hafter (by omega)
  refine ⟨s.offset - 1, ?_, by omega, hpred⟩
  by_contra hle
  obtain rfl : i = s.offset - 1 := by omega
  exact hpred (hstart.imp fun c => isNameChar_of_isNameStart)

/-! ### Labels -/

/-- What a label says: behind the word, the colon and the blanks stands a place of the text that is
not behind a name. -/
lemma Site.In.labelled? {t w : Text} {s n : Site} (hs : s.In t) (h : s.labelled? w = some n) :
    n.In t ∧ ¬ n.afterName := by
  obtain ⟨behind, hbehind, h⟩ := Option.bind_eq_some_iff.mp h
  obtain ⟨colon, hcolon, h⟩ := Option.bind_eq_some_iff.mp h
  cases h
  have hcolonIn := ((hs.word? hbehind).skipWhile isBlank).char? hcolon
  refine ⟨hcolonIn.skipWhile isBlank, ?_⟩
  obtain ⟨c, cs, hrest, hc, rfl⟩ := Site.char?_eq_some hcolon
  rw [Site.afterName]
  obtain hbefore | ⟨d, hbefore, hd⟩ := (behind.skipBlanks.advance 1).skipWhile_before isBlank
  · have hcolonBefore : (behind.skipBlanks.advance 1).before = some c := by
      show behind.skipBlanks.rest[0]? = some c
      rw [hrest]
      rfl
    rw [Site.skipBlanks, hbefore, hcolonBefore]
    exact not_isNameChar_of_isColon hc
  · rw [Site.skipBlanks, hbefore]
    exact not_isNameChar_of_isBlank hd

/-- What stands before a colon and blanks is no name character. -/
lemma not_charAt_of_colon {s s' : Site} (h : s.skipBlanks.char? isColon = some s') :
    ¬ CharAt s.rest isNameChar 0 := by
  obtain ⟨c, cs, hrest, hc, _⟩ := Site.char?_eq_some h
  rw [Site.skipBlanks, Site.skipWhile, Site.advance_rest] at hrest
  rintro ⟨d, hd, hname⟩
  cases hs : s.rest with
  | nil =>
    rw [hs] at hd
    cases hd
  | cons e es =>
    rw [hs] at hd hrest
    cases hd
    rw [List.takeWhile_cons_of_neg (fun hb => not_isNameChar_of_isBlank hb hname)] at hrest
    cases hrest
    exact not_isNameChar_of_isColon hc hname

/-- A name that a colon follows is the whole name at its place. -/
lemma leadingName?_of_colon {s colon : Site} {w : Text} (hw : isName w)
    (hbegin : w <+: s.rest)
    (hcolon : (s.advance w.length).skipBlanks.char? isColon = some colon) :
    leadingName? s.rest = some w := by
  apply leadingName?_of_beginning hw hbegin
  have hend := not_charAt_of_colon hcolon
  rwa [Site.advance_rest, charAt_drop] at hend

/-! ### What the recognisers find -/

/-- A piece of a text is a word of it. -/
def Piece.IsWord (t : Text) (p : Piece) : Prop :=
  WordAt t p.offset p.stop

/-- The name of a class is a word. -/
lemma isWord_of_findClass {t : Text} {s : Site} {f : ClassForm} {n : Nat} (hs : s.In t)
    (h : findClass s = some (f, n)) : f.name.IsWord t ∧ isName f.name.text := by
  rw [findClass] at h
  split at h
  case isTrue => cases h
  case isFalse =>
    obtain ⟨behind, hlabel, h⟩ := Option.bind_eq_some_iff.mp h
    obtain ⟨name, hname, h⟩ := Option.bind_eq_some_iff.mp h
    cases h
    obtain ⟨hin, hafter⟩ := hs.labelled? hlabel
    exact ⟨wordAt_of_leadingName? hin hafter hname, isName_of_leadingName? hname⟩

/-- A type that labels what follows it is a word when the types are names. -/
lemma isWord_of_findType {t : Text} {types : List Text} {s : Site} {p : Piece} {n : Nat}
    (htypes : ∀ w ∈ types, isName w) (hs : s.In t) (h : findType types s = some (p, n)) :
    p.IsWord t := by
  rw [findType] at h
  split at h
  case isTrue => cases h
  case isFalse hafter =>
    obtain ⟨w, hw, h⟩ := List.exists_of_findSome?_eq_some h
    obtain ⟨behind, hbehind, h⟩ := Option.bind_eq_some_iff.mp h
    obtain ⟨colon, hcolon, h⟩ := Option.bind_eq_some_iff.mp h
    cases h
    obtain ⟨hbegin, rfl⟩ := Site.word?_eq_some hbehind
    apply wordAt_of_leadingName? hs hafter
    exact leadingName?_of_colon (htypes w hw) hbegin hcolon

/-- A called name is a word when it stands behind no name. -/
lemma isWord_of_calledName? {t : Text} {s : Site} {p : Piece} (hs : s.In t)
    (hafter : ¬ s.afterName) (h : s.calledName? = some p) : p.IsWord t := by
  obtain ⟨name, hname, h⟩ := Option.bind_eq_some_iff.mp h
  obtain ⟨_, _, h⟩ := Option.bind_eq_some_iff.mp h
  cases h
  exact wordAt_of_leadingName? hs hafter hname

/-- The name of a function, with the declaring word before it or without, is a word when the whole
stands behind no name. -/
lemma isWord_of_functionName? {t : Text} {s : Site} {keyword : Option Piece} {p : Piece}
    (hs : s.In t) (hafter : ¬ s.afterName) (h : s.functionName? = some (keyword, p)) :
    p.IsWord t := by
  obtain h | h := eq_some_or_of_orElse h
  · obtain ⟨n, hlabel, h⟩ := Option.bind_eq_some_iff.mp h
    obtain ⟨name, hname, h⟩ := Option.bind_eq_some_iff.mp h
    cases h
    obtain ⟨hin, hafter⟩ := hs.labelled? hlabel
    exact isWord_of_calledName? hin hafter hname
  · obtain ⟨name, hname, h⟩ := Option.map_eq_some_iff.mp h
    cases h
    exact isWord_of_calledName? hs hafter hname

/-- The name of a function that is declared or called is a word. -/
lemma isWord_of_findFunction {t : Text} {types : List Text} {s : Site} {f : FunctionForm} {n : Nat}
    (hs : s.In t) (h : findFunction types s = some (f, n)) : f.name.IsWord t := by
  rw [findFunction] at h
  split at h
  case isTrue => cases h
  case isFalse hafter =>
    obtain h | h := eq_some_or_of_orElse h
    · obtain ⟨w, _, h⟩ := List.exists_of_findSome?_eq_some h
      obtain ⟨behind, hlabel, h⟩ := Option.bind_eq_some_iff.mp h
      obtain ⟨⟨keyword, name⟩, hname, h⟩ := Option.bind_eq_some_iff.mp h
      cases h
      obtain ⟨hin, hafter⟩ := hs.labelled? hlabel
      exact isWord_of_functionName? hin hafter hname
    · obtain ⟨⟨keyword, name⟩, hname, h⟩ := Option.map_eq_some_iff.mp h
      cases h
      exact isWord_of_functionName? hs hafter hname

/-- A place behind a separator is behind no name. -/
lemma Site.not_afterName_of_separator {s : Site} {p : Char → Bool} (h : s.before.all p)
    (hp : ∀ c, p c → isSeparator c) : ¬ s.afterName := by
  intro hafter
  rw [afterName] at hafter
  cases hbefore : s.before with
  | none =>
    rw [hbefore] at hafter
    cases hafter
  | some c =>
    rw [hbefore] at hafter h
    exact not_isNameChar_of_isSeparator (hp c h) hafter

/-- The name of a variable that is declared is a word. -/
lemma isWord_of_findDeclared {t : Text} {types : List Text} {s : Site} {f : VariableForm} {n : Nat}
    (hs : s.In t) (h : findDeclared types s = some (f, n)) : f.name.IsWord t := by
  rw [findDeclared] at h
  split at h
  case isFalse => cases h
  case isTrue =>
    obtain ⟨w, _, h⟩ := List.exists_of_findSome?_eq_some h
    obtain ⟨behind, hlabel, h⟩ := Option.bind_eq_some_iff.mp h
    obtain ⟨name, hname, h⟩ := Option.bind_eq_some_iff.mp h
    obtain ⟨hin, hafter⟩ := hs.labelled? hlabel
    split at h
    · cases h
    · cases h
      exact wordAt_of_leadingName? hin hafter hname

/-- The name of a variable that is used is a word. -/
lemma isWord_of_findUsed {t : Text} {s : Site} {f : VariableForm} {n : Nat} (hs : s.In t)
    (h : findUsed s = some (f, n)) : f.name.IsWord t := by
  rw [findUsed] at h
  split at h
  case isFalse => cases h
  case isTrue hbefore =>
    have hafter := Site.not_afterName_of_separator hbefore
      fun c hc => (Bool.and_eq_true_iff.mp hc).1
    obtain ⟨name, hname, h⟩ := Option.bind_eq_some_iff.mp h
    split at h
    · cases h
    · cases h
      exact wordAt_of_leadingName? hs hafter hname

/-- The name of a variable is a word. -/
lemma isWord_of_findVariable {t : Text} {types : List Text} {s : Site} {f : VariableForm} {n : Nat}
    (hs : s.In t) (h : findVariable types s = some (f, n)) : f.name.IsWord t := by
  obtain h | h := eq_some_or_of_orElse h
  · exact isWord_of_findDeclared hs h
  · exact isWord_of_findUsed hs h

/-! ### The search for all names -/

/-- What the search for all names finds at an offset. -/
lemma Found.leadingName? {t : Text} {p : Piece} {a n : Nat} (h : Found findWord t p a n) :
    p.offset = a ∧ n = p.text.length ∧ leadingName? (Site.ofOffset t a).rest = some p.text := by
  obtain ⟨w, hw, e⟩ := Option.map_eq_some_iff.mp h.finds
  cases e
  exact ⟨Site.ofOffset_offset h.inside.le, rfl, hw⟩

/-- A name stands wherever a character may begin one. -/
lemma exists_leadingName? {t : Text} {i : Nat} (h : CharAt t isNameStart i) :
    ∃ w, leadingName? (Site.ofOffset t i).rest = some w := by
  have hlt := h.lt_length
  obtain ⟨c, hc, hstart⟩ := h
  rw [List.getElem?_eq_getElem hlt] at hc
  refine ⟨c :: (t.drop (i + 1)).takeWhile isNameChar, ?_⟩
  rw [(Site.ofOffset_in t i).rest, Site.ofOffset_offset hlt.le, ← List.getElem_cons_drop hlt,
    Option.some.inj hc, leadingName?, if_pos hstart]

/-- The search for all names finds the names from the first character that may begin one. -/
lemma Found.first {t : Text} {p : Piece} {a n : Nat} (h : Found findWord t p a n) {i : Nat}
    (hi : i < a) (hstart : CharAt t isNameStart i) :
    ∃ j, i < j ∧ j < a ∧ ¬ CharAt t isNameChar j := by
  obtain ⟨_, _, hname⟩ := h.leadingName?
  have ha := Site.ofOffset_offset h.inside.le
  have hastart := charAt_start_of_leadingName? (Site.ofOffset_in t a) hname
  rw [ha] at hastart
  have hachar := hastart.imp fun c => isNameChar_of_isNameStart
  -- the find at `o`, at or before `i`, ends before `a` and where the name characters end
  have ends : ∀ o q m, Found findWord t q o m → o ≤ i → i < o + m →
      ∃ j, i < j ∧ j < a ∧ ¬ CharAt t isNameChar j := by
    intro o q m hf hoi him
    obtain ⟨_, rfl, hq⟩ := hf.leadingName?
    have hend := not_charAt_of_leadingName? (Site.ofOffset_in t o) hq
    rw [Site.ofOffset_offset hf.inside.le] at hend
    have hle := hf.looks.next_le h.looks (by omega)
    rw [hf.stride_eq] at hle
    have hne : o + q.text.length ≠ a := fun e => hend (e ▸ hachar)
    exact ⟨o + q.text.length, him, by omega, hend⟩
  have hlt := hstart.lt_length
  obtain hlook | ⟨q, o, m, hf, hoi, him⟩ := looks_or_covered findWord hlt.le
  · obtain ⟨w, hw⟩ := exists_leadingName? hstart
    refine ends i _ _ ⟨hlook, hlt, by rw [findWord, hw]; rfl⟩ le_rfl ?_
    have hpos := (leadingName?_spec hw).2.1
    omega
  · exact ends o q m hf hoi.le him

/-- What the search for all names finds is a word when it does not begin like a number. -/
lemma Found.isWord {t : Text} {p : Piece} {a n : Nat} (h : Found findWord t p a n)
    (hclear : ¬ CharAt t isMarkedDigit a) : p.IsWord t := by
  obtain ⟨rfl, _, hname⟩ := h.leadingName?
  have hin := Site.ofOffset_in t p.offset
  have ho := Site.ofOffset_offset h.inside.le
  obtain ⟨_, hpos, _, _, _⟩ := leadingName?_spec hname
  have hstart := charAt_start_of_leadingName? hin hname
  have hnames := fun i => charAt_of_leadingName? (i := i) hin hname
  have hend := not_charAt_of_leadingName? hin hname
  rw [ho] at hstart hnames hend
  exact ⟨Nat.lt_add_of_pos_right hpos, hstart, hnames, hend, fun i => h.first,
    fun hc => absurd hc hclear⟩

/-- The search for all names finds each name that stands behind no name. -/
lemma mem_words_of_leadingName? {t w : Text} {s : Site} (hs : s.In t) (hafter : ¬ s.afterName)
    (h : leadingName? s.rest = some w) : ⟨s.offset, w⟩ ∈ occurrences findWord t := by
  have hlt := (charAt_start_of_leadingName? hs h).lt_length
  obtain hlook | ⟨q, o, m, hf, hos, hsm⟩ := looks_or_covered findWord hlt.le
  · refine mem_occurrences.mpr ⟨s.offset, w.length, hlook, hlt, ?_⟩
    rw [← hs.eq_ofOffset, findWord, h]
    rfl
  · -- a name that covers the place would stand before it
    obtain ⟨_, rfl, hq⟩ := hf.leadingName?
    have ho := Site.ofOffset_offset hf.inside.le
    have hpred := charAt_of_leadingName? (Site.ofOffset_in t o) hq (i := s.offset - 1) (by omega)
      (by omega)
    exact absurd hpred (hs.not_charAt_pred hafter (by omega))

end LazeEdit
