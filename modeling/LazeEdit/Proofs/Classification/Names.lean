import LazeEdit.Proofs.Classification.Lexemes

/-!
# Names in their places

What the recognisers say of a name beside its range. The name is the text at its offset
(`Piece.In`), so that two names of one range are one name. It stands at the end of what is found.
The name of a function stands before an opening parenthesis, and that of a declared variable does
not (`Called`).
-/

namespace LazeEdit

variable {t : Text} {s : Site}

/-! ### Pieces of a text -/

/-- A piece is the text at its offset. -/
def Piece.In (t : Text) (p : Piece) : Prop :=
  p.text <+: t.drop p.offset

lemma Piece.In.stop_le {p : Piece} (h : p.In t) (hpos : 0 < p.text.length) : p.stop ≤ t.length := by
  have hlen := h.length_le
  rw [List.length_drop] at hlen
  rw [Piece.stop]
  omega

lemma Piece.In.slice_eq {p : Piece} (h : p.In t) (hpos : 0 < p.text.length) :
    slice t p.offset p.stop = p.text := by
  rw [LazeEdit.slice_eq (h.stop_le hpos), Piece.stop, Nat.add_sub_cancel_left]
  exact (List.prefix_iff_eq_take.mp h).symm

/-- Pieces of one range are the same text. -/
lemma Piece.In.text_eq {p q : Piece} (hp : p.In t) (hq : q.In t) (hoffset : p.offset = q.offset)
    (hlen : p.text.length = q.text.length) : p.text = q.text := by
  have hp' := List.prefix_iff_eq_take.mp hp
  rw [hoffset, hlen, ← List.prefix_iff_eq_take.mp hq] at hp'
  exact hp'

namespace Site

lemma In.pieceIn (h : s.In t) {w : Text} (hw : w <+: s.rest) : Piece.In t ⟨s.offset, w⟩ := by
  rw [h.rest] at hw
  exact hw

lemma In.nameIn (h : s.In t) {w : Text} (hw : leadingName? s.rest = some w) :
    Piece.In t ⟨s.offset, w⟩ :=
  h.pieceIn (leadingName?_spec hw).1

lemma In.behindName (h : s.In t) {w : Text} (hw : leadingName? s.rest = some w) :
    s.advance w.length = .ofOffset t (s.offset + w.length) := by
  have hin := h.advance (leadingName?_spec hw).1.length_le
  rw [hin.eq_ofOffset, advance_offset]

lemma labelled?_eq_some {w : Text} {n : Site} (h : s.labelled? w = some n) :
    w <+: s.rest ∧ s.offset ≤ n.offset ∧
      ∃ colon, (s.advance w.length).skipBlanks.char? isColon = some colon := by
  obtain ⟨behind, hbehind, h⟩ := Option.bind_eq_some_iff.mp h
  obtain ⟨colon, hcolon, h⟩ := Option.bind_eq_some_iff.mp h
  cases h
  obtain ⟨hbegin, rfl⟩ := word?_eq_some hbehind
  obtain ⟨_, _, _, _, rfl⟩ := char?_eq_some hcolon
  refine ⟨hbegin, ?_, _, hcolon⟩
  simp only [skipBlanks, skipWhile, advance_offset]
  omega

/-- A label that is a name is the whole name at its place. -/
lemma leadingName?_of_labelled? {w : Text} {n : Site} (hw : isName w)
    (h : s.labelled? w = some n) : leadingName? s.rest = some w := by
  obtain ⟨hbegin, _, colon, hcolon⟩ := labelled?_eq_some h
  exact leadingName?_of_colon hw hbegin hcolon

end Site

/-! ### What the recognisers find -/

/-- An opening parenthesis follows an offset, perhaps behind blanks. -/
def Called (t : Text) (o : Nat) : Prop :=
  ∃ inner, (Site.ofOffset t o).skipBlanks.char? isOpenParen = some inner

lemma Called.charAt {o : Nat} (h : Called t o) : ∃ i, CharAt t isOpenParen i := by
  obtain ⟨inner, hinner⟩ := h
  exact ⟨_, ((Site.ofOffset_in t o).skipWhile isBlank).charAt_of_char? hinner⟩

lemma findClass_eq_some {f : ClassForm} {n : Nat} (hs : s.In t) (h : findClass s = some (f, n)) :
    f.name.In t ∧ f.offset = s.offset ∧ s.offset ≤ f.name.offset ∧
      f.name.stop = s.offset + n := by
  rw [findClass] at h
  split at h
  case isTrue => cases h
  case isFalse =>
    obtain ⟨behind, hlabel, h⟩ := Option.bind_eq_some_iff.mp h
    obtain ⟨name, hname, h⟩ := Option.bind_eq_some_iff.mp h
    cases h
    obtain ⟨_, hle, _⟩ := Site.labelled?_eq_some hlabel
    refine ⟨(hs.labelled? hlabel).1.nameIn hname, rfl, hle, ?_⟩
    show behind.offset + name.length = _
    omega

lemma findType_eq_some {types : List Text} {p : Piece} {n : Nat} (hs : s.In t)
    (h : findType types s = some (p, n)) : p.In t ∧ p.text ∈ types := by
  rw [findType] at h
  split at h
  case isTrue => cases h
  case isFalse =>
    obtain ⟨w, hw, h⟩ := List.exists_of_findSome?_eq_some h
    obtain ⟨behind, hbehind, h⟩ := Option.bind_eq_some_iff.mp h
    obtain ⟨colon, hcolon, h⟩ := Option.bind_eq_some_iff.mp h
    cases h
    exact ⟨hs.pieceIn (Site.word?_eq_some hbehind).1, hw⟩

lemma calledName?_eq_some {p : Piece} (hs : s.In t) (h : s.calledName? = some p) :
    Called t p.stop := by
  obtain ⟨name, hname, h⟩ := Option.bind_eq_some_iff.mp h
  obtain ⟨inner, hinner, h⟩ := Option.bind_eq_some_iff.mp h
  cases h
  rw [hs.behindName hname] at hinner
  exact ⟨inner, hinner⟩

lemma functionName?_eq_some {keyword : Option Piece} {p : Piece} (hs : s.In t)
    (h : s.functionName? = some (keyword, p)) : Called t p.stop := by
  obtain h | h := eq_some_or_of_orElse h
  · obtain ⟨n, hlabel, h⟩ := Option.bind_eq_some_iff.mp h
    obtain ⟨name, hname, h⟩ := Option.bind_eq_some_iff.mp h
    cases h
    exact calledName?_eq_some (hs.labelled? hlabel).1 hname
  · obtain ⟨name, hname, h⟩ := Option.map_eq_some_iff.mp h
    cases h
    exact calledName?_eq_some hs hname

lemma findFunction_eq_some {types : List Text} {f : FunctionForm} {n : Nat} (hs : s.In t)
    (h : findFunction types s = some (f, n)) : Called t f.name.stop := by
  rw [findFunction] at h
  split at h
  case isTrue => cases h
  case isFalse =>
    obtain h | h := eq_some_or_of_orElse h
    · obtain ⟨w, _, h⟩ := List.exists_of_findSome?_eq_some h
      obtain ⟨behind, hlabel, h⟩ := Option.bind_eq_some_iff.mp h
      obtain ⟨⟨keyword, name⟩, hname, h⟩ := Option.bind_eq_some_iff.mp h
      cases h
      exact functionName?_eq_some (hs.labelled? hlabel).1 hname
    · obtain ⟨⟨keyword, name⟩, hname, h⟩ := Option.map_eq_some_iff.mp h
      cases h
      exact functionName?_eq_some hs hname

/-- The name of a variable is the text at its offset, with which the find ends; no opening
parenthesis follows the name of a declared one. -/
structure VariableForm.Reads (t : Text) (o n : Nat) (f : VariableForm) : Prop where
  name : f.name.In t
  le : o ≤ f.name.offset
  stop : f.name.stop = o + n
  free : ∀ type name, f = .declared type name → ¬ Called t name.stop

lemma findDeclared_eq_some {types : List Text} {f : VariableForm} {n : Nat} (hs : s.In t)
    (h : findDeclared types s = some (f, n)) : f.Reads t s.offset n := by
  rw [findDeclared] at h
  split at h
  case isFalse => cases h
  case isTrue =>
    obtain ⟨w, _, h⟩ := List.exists_of_findSome?_eq_some h
    obtain ⟨behind, hlabel, h⟩ := Option.bind_eq_some_iff.mp h
    obtain ⟨name, hname, h⟩ := Option.bind_eq_some_iff.mp h
    obtain ⟨hin, _⟩ := hs.labelled? hlabel
    obtain ⟨_, hle, _⟩ := Site.labelled?_eq_some hlabel
    split at h
    case h_1 => cases h
    case h_2 hfree =>
      cases h
      rw [hin.behindName hname] at hfree
      refine ⟨hin.nameIn hname, hle, ?_, ?_⟩
      · show behind.offset + name.length = _
        omega
      · rintro _ _ ⟨⟩ ⟨inner, hinner⟩
        rw [Piece.stop, hfree] at hinner
        cases hinner

lemma findUsed_eq_some {f : VariableForm} {n : Nat} (hs : s.In t)
    (h : findUsed s = some (f, n)) : f.Reads t s.offset n := by
  rw [findUsed] at h
  split at h
  case isFalse => cases h
  case isTrue =>
    obtain ⟨name, hname, h⟩ := Option.bind_eq_some_iff.mp h
    split at h
    case h_1 => cases h
    case h_2 =>
      cases h
      refine ⟨hs.nameIn hname, Nat.le_refl _, rfl, ?_⟩
      intro _ _ e
      cases e

lemma findVariable_eq_some {types : List Text} {f : VariableForm} {n : Nat} (hs : s.In t)
    (h : findVariable types s = some (f, n)) : f.Reads t s.offset n := by
  obtain h | h := eq_some_or_of_orElse h
  · exact findDeclared_eq_some hs h
  · exact findUsed_eq_some hs h

lemma Found.variableName {types : List Text} {f : VariableForm} {o n : Nat}
    (h : Found (findVariable types) t f o n) :
    f.Reads t o n ∧ f.name.offset < f.name.stop := by
  have hin := Site.ofOffset_in t o
  have hreads := findVariable_eq_some hin h.finds
  rw [Site.ofOffset_offset h.inside.le] at hreads
  exact ⟨hreads, (isWord_of_findVariable hin h.finds).lt⟩

/-- Variables whose names begin at one offset are found together. -/
lemma variableForm_eq {types : List Text} {f g : VariableForm}
    (hf : f ∈ occurrences (findVariable types) t)
    (hg : g ∈ occurrences (findVariable types) t) (h : f.name.offset = g.name.offset) : f = g := by
  obtain ⟨o, n, hf⟩ := mem_occurrences.mp hf
  obtain ⟨o', n', hg⟩ := mem_occurrences.mp hg
  obtain ⟨hreads, hlt⟩ := hf.variableName
  obtain ⟨hreads', hlt'⟩ := hg.variableName
  rw [hreads.stop] at hlt
  rw [hreads'.stop, ← h] at hlt'
  exact hf.form_eq hg ⟨hreads.le, hlt⟩ ⟨h ▸ hreads'.le, hlt'⟩

/-- The span of a variable begins with its name. -/
lemma token?_eq_some {reserved : List Text} {f : VariableForm} {s : TokenSpan}
    (h : f.token? reserved = some s) :
    s.start = f.name.offset ∧ s.type = .variableName := by
  unfold VariableForm.token? at h
  split at h
  case isTrue => cases h
  case isFalse =>
    cases f with
    | declared type name =>
      cases h
      exact ⟨rfl, rfl⟩
    | used name =>
      cases h
      exact ⟨rfl, rfl⟩

/-! ### Places where no name begins -/

section AtNames

variable {α : Type} {find : Finder α} {types : List Text}

/-- A recogniser finds something only where a name begins. -/
def Finder.AtNames (find : Finder α) : Prop :=
  ∀ s, leadingName? s.rest = none → find s = none

lemma Finder.AtNames.feed (h : find.AtNames) (offset : Nat) (before : Option Char) (t : Text) :
    find ⟨offset, before, '\n' :: t⟩ = none :=
  h _ rfl

lemma Site.word?_eq_none {w : Text} (hw : isName w) (h : leadingName? s.rest = none) :
    s.word? w = none := by
  cases hword : s.word? w with
  | none => rfl
  | some behind =>
    obtain ⟨hbegin, _⟩ := word?_eq_some hword
    obtain ⟨_, _, _, ⟨c, hc, hstart⟩, _⟩ := leadingName?_spec (isName_iff.mp hw)
    obtain ⟨cs, rfl⟩ := List.head?_eq_some_iff.mp (List.head?_eq_getElem? ▸ hc)
    obtain ⟨rest, hrest⟩ := hbegin
    rw [← hrest, List.cons_append, leadingName?, if_pos hstart] at h
    cases h

lemma Site.labelled?_eq_none {w : Text} (hw : isName w) (h : leadingName? s.rest = none) :
    s.labelled? w = none := by
  rw [labelled?, word?_eq_none hw h]
  rfl

lemma findClass_atNames : findClass.AtNames := by
  intro s hs
  rw [findClass, Site.labelled?_eq_none (by decide) hs]
  exact ite_self none

lemma findWord_atNames : findWord.AtNames := by
  intro s hs
  rw [findWord, hs]
  rfl

lemma findType_atNames (htypes : ∀ w ∈ types, isName w) : (findType types).AtNames := by
  intro s hs
  rw [findType]
  split
  · rfl
  · rw [List.findSome?_eq_none_iff]
    intro w hw
    rw [Site.word?_eq_none (htypes w hw) hs]
    rfl

lemma findFunction_atNames (htypes : ∀ w ∈ types, isName w) : (findFunction types).AtNames := by
  intro s hs
  have hname : s.functionName? = none := by
    rw [Site.functionName?, Site.labelled?_eq_none (by decide) hs, Site.calledName?, hs]
    rfl
  rw [findFunction]
  split
  · rfl
  · rw [hname]
    refine congrArg (· <|> none) (List.findSome?_eq_none_iff.mpr ?_)
    intro w hw
    rw [Site.labelled?_eq_none (htypes w hw) hs]
    rfl

lemma findDeclared_atNames (htypes : ∀ w ∈ types, isName w) : (findDeclared types).AtNames := by
  intro s hs
  rw [findDeclared]
  split
  · rw [List.findSome?_eq_none_iff]
    intro w hw
    rw [Site.labelled?_eq_none (htypes w hw) hs]
    rfl
  · rfl

lemma findUsed_atNames : findUsed.AtNames := by
  intro s hs
  rw [findUsed, hs]
  exact ite_self none

lemma findVariable_atNames (htypes : ∀ w ∈ types, isName w) : (findVariable types).AtNames := by
  intro s hs
  rw [findVariable, findDeclared_atNames htypes s hs, findUsed_atNames s hs]
  rfl

end AtNames

end LazeEdit
