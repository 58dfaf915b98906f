import LazeEdit.Proofs.Classification.Runs

/-!
# Types

The types that label what follows them are the runs of name characters that are types and that a
colon follows (`TypeRun`). The recogniser of types tries the longer ones first, but the order does
not matter: a type is a name, and the colon behind it ends the run of name characters, so that only
the whole name at a place can be found there (`findType_eq_some_iff`).
-/

namespace LazeEdit

variable {t : Text} {types : List Text} {s : Site} {p : Piece} {a b n : Nat}

/-! ### The type at a place -/

/-- What one type gives at a place. -/
lemma word?_colon_iff {w : Text} {x : Piece × Nat} :
    (do
      let behind ← s.word? w
      let _ ← behind.skipBlanks.char? isColon
      return ((⟨s.offset, w⟩ : Piece), w.length)) = some x ↔
    (w <+: s.rest ∧ ∃ colon, (s.advance w.length).skipBlanks.char? isColon = some colon) ∧
      x = (⟨s.offset, w⟩, w.length) := by
  constructor
  · intro h
    obtain ⟨behind, hbehind, h⟩ := Option.bind_eq_some_iff.mp h
    obtain ⟨colon, hcolon, h⟩ := Option.bind_eq_some_iff.mp h
    cases h
    obtain ⟨hbegin, rfl⟩ := Site.word?_eq_some hbehind
    exact ⟨⟨hbegin, colon, hcolon⟩, rfl⟩
  · rintro ⟨⟨hbegin, colon, hcolon⟩, rfl⟩
    rw [Site.word?, if_pos (List.isPrefixOf_iff_prefix.mpr hbegin)]
    simp only [Option.bind_eq_bind, Option.bind_some, hcolon]
    rfl

/-- The type that is found at a place is the name that stands there, whatever the order in which the
types are tried. -/
lemma findType_eq_some_iff (htypes : ∀ w ∈ types, isName w) :
    findType types s = some (p, n) ↔
      ¬ s.afterName ∧ leadingName? s.rest = some p.text ∧ p.text ∈ types ∧
        (∃ colon, (s.advance p.text.length).skipBlanks.char? isColon = some colon) ∧
        p.offset = s.offset ∧ n = p.text.length := by
  constructor
  · intro h
    rw [findType] at h
    split at h
    case isTrue => cases h
    case isFalse hafter =>
      obtain ⟨w, hw, h⟩ := List.exists_of_findSome?_eq_some h
      obtain ⟨⟨hbegin, colon, hcolon⟩, e⟩ := word?_colon_iff.mp h
      cases e
      have hname := leadingName?_of_colon (htypes w hw) hbegin hcolon
      exact ⟨hafter, hname, hw, ⟨colon, hcolon⟩, rfl, rfl⟩
  · rintro ⟨hafter, hname, hmem, hcolon, hoffset, rfl⟩
    obtain ⟨offset, w⟩ := p
    obtain rfl : offset = s.offset := hoffset
    rw [findType, if_neg hafter]
    apply findSome?_of_unique hmem
    · exact word?_colon_iff.mpr ⟨⟨(leadingName?_spec hname).1, hcolon⟩, rfl⟩
    · intro v hv hne
      rw [Option.eq_none_iff_forall_ne_some]
      intro x hx
      obtain ⟨⟨hbegin, colon, hcolon'⟩, _⟩ := word?_colon_iff.mp hx
      have hother := leadingName?_of_colon (htypes v hv) hbegin hcolon'
      exact hne (Option.some.inj (hother.symm.trans hname))

/-- What is found does not depend on the order of the types, nor on how often one is given. -/
lemma findType_congr {others : List Text} (htypes : ∀ w ∈ types, isName w)
    (h : ∀ w, w ∈ others ↔ w ∈ types) : findType others = findType types := by
  have hothers : ∀ w ∈ others, isName w := fun w hw => htypes w ((h w).mp hw)
  funext s
  apply Option.ext
  rintro ⟨p, n⟩
  rw [findType_eq_some_iff hothers, findType_eq_some_iff htypes, h]

/-! ### The types of a text -/

/-- A type that labels what follows it: a maximal run of name characters that is one of some types
and that a colon follows. -/
structure TypeRun (t : Text) (types : List Text) (a b : Nat) : Prop where
  lt : a < b
  names : ∀ i, a ≤ i → i < b → CharAt t isNameChar i
  alone : 0 < a → ¬ CharAt t isNameChar (a - 1)
  ends : ¬ CharAt t isNameChar b
  known : slice t a b ∈ types
  colon : ∃ c, NextChar t isColon b c

lemma TypeRun.nameRun (h : TypeRun t types a b) (htypes : ∀ w ∈ types, isName w) :
    NameRun t a b := by
  have hlt := h.lt
  have hle : b ≤ t.length := by
    have hlast := (h.names (b - 1) (by omega) (by omega)).lt_length
    omega
  obtain ⟨_, _, _, ⟨c, hc, hstart⟩, _⟩ :=
    leadingName?_spec (isName_iff.mp (htypes _ h.known))
  rw [getElem?_slice hle (by omega)] at hc
  exact ⟨hlt, ⟨c, hc, hstart⟩, h.names, h.alone, h.ends⟩

/-- What is found is a type of the text. -/
lemma Found.typeRun {o : Nat} (h : Found (findType types) t p o n)
    (htypes : ∀ w ∈ types, isName w) :
    p.offset = o ∧ p.text.length = n ∧ TypeRun t types p.offset p.stop := by
  have hin := Site.ofOffset_in t o
  obtain ⟨hafter, hname, hmem, hcolon, hoffset, hlength⟩ :=
    (findType_eq_some_iff htypes).mp h.finds
  rw [Site.ofOffset_offset h.inside.le] at hoffset
  subst hoffset
  have hstart := Site.ofOffset_offset h.inside.le
  have hrun := nameRun_of_leadingName? hin hafter hname
  have hpiece := hin.nameIn hname
  rw [hin.behindName hname] at hcolon
  rw [hstart] at hrun hpiece hcolon
  have htext := hpiece.slice_eq (leadingName?_spec hname).2.1
  refine ⟨rfl, hlength.symm, hrun.lt, hrun.names, hrun.alone, hrun.ends, htext ▸ hmem, ?_⟩
  exact (Site.exists_char?_iff solid_isColon hrun.wordAt.le_length).mp hcolon

/-- A type is found where it begins. -/
lemma TypeRun.findType (h : TypeRun t types a b) (htypes : ∀ w ∈ types, isName w) :
    LazeEdit.findType types (.ofOffset t a) = some (⟨a, slice t a b⟩, (slice t a b).length) := by
  have hrun := h.nameRun htypes
  rw [findType_eq_some_iff htypes]
  refine ⟨hrun.not_afterName, hrun.leadingName?, h.known, ?_, hrun.ofOffset_offset.symm, rfl⟩
  rw [hrun.advance_eq]
  exact (Site.exists_char?_iff solid_isColon hrun.wordAt.le_length).mpr h.colon

/-- The types that are found are those of the text. -/
lemma exists_type_iff (htypes : ∀ w ∈ types, isName w) :
    (∃ p ∈ occurrences (findType types) t, p.offset = a ∧ p.stop = b) ↔ TypeRun t types a b := by
  constructor
  · rintro ⟨p, hp, rfl, rfl⟩
    obtain ⟨o, n, hfound⟩ := mem_occurrences.mp hp
    exact (hfound.typeRun htypes).2.2
  · intro h
    have hrun := h.nameRun htypes
    have hlt := hrun.begins.lt_length
    obtain hlook | ⟨p, o, n, hfound, ho, hn⟩ := looks_or_covered (findType types) hlt.le
    · exact ⟨_, mem_occurrences.mpr ⟨a, _, hlook, hlt, h.findType htypes⟩, rfl, hrun.stop_eq⟩
    · -- a find that passes over the run is a run itself, so that it begins with it
      obtain ⟨rfl, rfl, hother⟩ := hfound.typeRun htypes
      obtain ⟨e, _⟩ := hrun.eq_of_overlap (hother.nameRun htypes) ⟨Nat.le_refl a, hrun.lt⟩
        ⟨ho.le, hn⟩
      omega

/-- A type that begins where one is found is not longer. -/
lemma length_le_of_mem_types (htypes : ∀ w ∈ types, isName w)
    (hp : p ∈ occurrences (findType types) t) {w : Text} (hw : w ∈ types)
    (hbegin : w <+: t.drop p.offset) : w.length ≤ p.text.length := by
  obtain ⟨o, n, hfound⟩ := mem_occurrences.mp hp
  have hends := (hfound.typeRun htypes).2.2.ends
  by_contra hlt
  apply hends
  rw [Piece.stop, ← charAt_drop]
  exact charAt_of_beginning hbegin (isNameChar_of_mem_name (htypes w hw)) (Nat.lt_of_not_le hlt)

/-! ### The types of a document -/

lemma TypeRun.congr {others : List Text} (h : ∀ w, w ∈ others ↔ w ∈ types) :
    TypeRun t others a b ↔ TypeRun t types a b := by
  constructor
  · rintro ⟨hlt, hnames, halone, hends, hknown, hcolon⟩
    exact ⟨hlt, hnames, halone, hends, (h _).mp hknown, hcolon⟩
  · rintro ⟨hlt, hnames, halone, hends, hknown, hcolon⟩
    exact ⟨hlt, hnames, halone, hends, (h _).mpr hknown, hcolon⟩

/-- The search for types finds, for classes whose names are names, just the runs of name characters
that are a type of the language or the name of a class and that a colon follows. It finds the same
for every list of the same class names, and never a type where a longer one begins. -/
theorem types_exact (t : Text) {classNames : List Text} (hnames : ∀ w ∈ classNames, isName w) :
    (∀ a b, (∃ p ∈ occurrences (findType (typeForms classNames)) t, p.offset = a ∧ p.stop = b) ↔
      TypeRun t (builtinTypeForms ++ classNames) a b) ∧
    (∀ others : List Text, (∀ w, w ∈ others ↔ w ∈ classNames) →
      occurrences (findType (typeForms others)) t
        = occurrences (findType (typeForms classNames)) t) ∧
    ∀ p ∈ occurrences (findType (typeForms classNames)) t,
      ∀ w ∈ builtinTypeForms ++ classNames, w <+: t.drop p.offset → w.length ≤ p.text.length := by
  have htypes : ∀ w ∈ typeForms classNames, isName w := fun _ => isName_of_mem_typeForms hnames
  refine ⟨fun a b => ?_, fun others h => ?_, fun p hp w hw => ?_⟩
  · rw [exists_type_iff htypes]
    exact TypeRun.congr fun _ => mem_typeForms
  · rw [findType_congr htypes]
    intro w
    rw [mem_typeForms, mem_typeForms, List.mem_append, List.mem_append, h]
  · exact length_le_of_mem_types htypes hp (mem_typeForms.mpr hw)

/-- Types that begin like other ones: the name of a class, a type of the language, and the same name
of a class inside a longer name that no colon follows. -/
def extendedTypes : Text :=
  ['整', '数', '型', '\u3000', '：', '整', '数', '3', '2', ':', '整', '数', '型', 'x', ';']

/-- Of types that begin at one place the longest is found, in whatever order they are given. -/
theorem types_extendedTypes :
    let classNames : List Text := [['整', '数', '型'], ['整'], ['整', '数', '型']]
    (∀ w ∈ classNames, isName w) ∧
    (∃ p ∈ occurrences (findType (typeForms classNames)) extendedTypes,
      p.offset = 0 ∧ p.stop = 3) ∧
    (∃ p ∈ occurrences (findType (typeForms classNames)) extendedTypes,
      p.offset = 5 ∧ p.stop = 9) ∧
    (¬ ∃ p ∈ occurrences (findType (typeForms classNames)) extendedTypes,
      p.offset = 10 ∧ p.stop = 13) ∧
    occurrences (findType (typeForms [['整', '数', '型'], ['整']])) extendedTypes
      = occurrences (findType (typeForms classNames)) extendedTypes := by
  intro classNames
  have hnames : ∀ w ∈ classNames, isName w := by decide
  obtain ⟨hfound, hsame, _⟩ := types_exact extendedTypes hnames
  have hlong : NameRun extendedTypes 0 3 := by decide
  have hbuiltin : NameRun extendedTypes 5 9 := by decide
  refine ⟨hnames, (hfound 0 3).mpr ?_, (hfound 5 9).mpr ?_, ?_, hsame _ ?_⟩
  · exact ⟨hlong.lt, hlong.names, hlong.alone, hlong.ends, by decide, 4, by decide⟩
  · exact ⟨hbuiltin.lt, hbuiltin.names, hbuiltin.alone, hbuiltin.ends, by decide, 9, by decide⟩
  · intro h
    have hends := ((hfound 10 13).mp h).ends
    revert hends
    decide
  · intro w
    simp only [classNames, List.mem_cons]
    tauto

end LazeEdit
