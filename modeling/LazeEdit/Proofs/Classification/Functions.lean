import LazeEdit.Proofs.Classification.Runs

/-!
# Functions

The names of functions in a document are the runs of name characters before an opening parenthesis
(`CalledRun`), and the declared ones are those that the declaring word labels (`DeclaredAt`). The
search for functions goes on behind each find, and a find may begin before its name, at a type or at
the declaring word. These are labels, and a colon follows them, so that no called name is passed
over with them (`FunctionForm.Reads.run_cases`). Where the declaring word labels a called name, the
search looks at the word, or has begun at a type that labels it; in both cases it finds the name as
a declared one (`exists_found_declared`), unless the declaring word is the name of a class.
-/

namespace LazeEdit

variable {t : Text} {types : List Text} {s : Site} {f g : FunctionForm} {a b o n : Nat}

/-! ### Called and declared names -/

/-- A called name: a run of name characters before an opening parenthesis. -/
structure CalledRun (t : Text) (a b : Nat) : Prop where
  run : NameRun t a b
  paren : ∃ i, NextChar t isOpenParen b i

/-- The declaring word labels what stands at an offset, and stands behind no name itself. -/
def DeclaredAt (t : Text) (a : Nat) : Prop :=
  ∃ k, Labels t functionWord k a ∧ (0 < k → ¬ CharAt t isNameChar (k - 1))

lemma CalledRun.not_colon (h : CalledRun t a b) (c : Nat) : ¬ NextChar t isColon b c := by
  intro hcolon
  obtain ⟨i, hparen⟩ := h.paren
  exact hcolon.disjoint solid_isColon hparen solid_isOpenParen fun _ => not_isOpenParen_of_isColon

/-- The declaring word is a run wherever it labels a declared name. -/
lemma nameRun_functionWord {k : Nat} (h : Labels t functionWord k a)
    (halone : 0 < k → ¬ CharAt t isNameChar (k - 1)) : NameRun t k (k + functionWord.length) :=
  h.nameRun (by decide) halone

/-! ### What is found -/

/-- What stands between the start of a find and its name: a type of the document may label what is
behind it, and the declaring word may label the name. -/
def FunctionForm.LabelledFrom (t : Text) (types : List Text) (o : Nat) (f : FunctionForm) : Prop :=
  ∃ m, (m = o ∨ ∃ w ∈ types, Labels t w o m) ∧
    (f.keyword = none ∧ f.name.offset = m ∨
      f.keyword.isSome ∧ Labels t functionWord m f.name.offset)

/-- What a find says of the text. -/
structure FunctionForm.Reads (t : Text) (types : List Text) (o n : Nat) (f : FunctionForm) :
    Prop where
  alone : 0 < o → ¬ CharAt t isNameChar (o - 1)
  text : f.name.text = slice t f.name.offset f.name.stop
  called : CalledRun t f.name.offset f.name.stop
  stop : f.name.stop = o + n
  labels : f.LabelledFrom t types o

/-- No name character stands before what a type labels, nor before what stands at the start. -/
lemma alone_of_labels {m : Nat} (halone : 0 < o → ¬ CharAt t isNameChar (o - 1))
    (h : m = o ∨ ∃ w ∈ types, Labels t w o m) : 0 < m → ¬ CharAt t isNameChar (m - 1) := by
  obtain rfl | ⟨w, _, hlabels⟩ := h
  · exact halone
  · exact fun _ => hlabels.alone

lemma FunctionForm.LabelledFrom.le (h : f.LabelledFrom t types o) : o ≤ f.name.offset := by
  obtain ⟨m, htype, hkeyword⟩ := h
  have hm : o ≤ m := by
    obtain rfl | ⟨w, _, hlabels⟩ := htype
    · exact Nat.le_refl _
    · have := hlabels.lt
      omega
  obtain ⟨_, rfl⟩ | ⟨_, hlabels⟩ := hkeyword
  · exact hm
  · have := hlabels.lt
    omega

lemma calledRun_of_calledName? {p : Piece} (hs : s.In t) (hafter : ¬ s.afterName)
    (h : s.calledName? = some p) :
    p.offset = s.offset ∧ p.text = slice t p.offset p.stop ∧ CalledRun t p.offset p.stop := by
  have hparen := calledName?_eq_some hs h
  obtain ⟨name, hname, h⟩ := Option.bind_eq_some_iff.mp h
  obtain ⟨_, _, h⟩ := Option.bind_eq_some_iff.mp h
  cases h
  have hrun := nameRun_of_leadingName? hs hafter hname
  have hpos : 0 < name.length := (leadingName?_spec hname).2.1
  refine ⟨rfl, ((hs.nameIn hname).slice_eq hpos).symm, hrun, ?_⟩
  exact (Site.exists_char?_iff solid_isOpenParen hrun.wordAt.le_length).mp hparen

lemma calledRun_of_functionName? {keyword : Option Piece} {p : Piece} (hs : s.In t)
    (hafter : ¬ s.afterName) (h : s.functionName? = some (keyword, p)) :
    p.text = slice t p.offset p.stop ∧ CalledRun t p.offset p.stop ∧
      (keyword = none ∧ p.offset = s.offset ∨
        keyword.isSome ∧ Labels t functionWord s.offset p.offset) := by
  obtain h | h := eq_some_or_of_orElse h
  · obtain ⟨n, hlabel, h⟩ := Option.bind_eq_some_iff.mp h
    obtain ⟨name, hname, h⟩ := Option.bind_eq_some_iff.mp h
    cases h
    obtain ⟨hin, hafter⟩ := hs.labelled? hlabel
    obtain ⟨hoffset, htext, hcalled⟩ := calledRun_of_calledName? hin hafter hname
    have hlabels := (hs.labels hlabel).1
    rw [← hoffset] at hlabels
    exact ⟨htext, hcalled, .inr ⟨rfl, hlabels⟩⟩
  · obtain ⟨name, hname, h⟩ := Option.map_eq_some_iff.mp h
    cases h
    obtain ⟨hoffset, htext, hcalled⟩ := calledRun_of_calledName? hs hafter hname
    exact ⟨htext, hcalled, .inl ⟨rfl, hoffset⟩⟩

lemma reads_of_findFunction (hs : s.In t) (h : findFunction types s = some (f, n)) :
    f.Reads t types s.offset n := by
  rw [findFunction] at h
  split at h
  case isTrue => cases h
  case isFalse hafter =>
    -- the find ends with the name, wherever it begins
    have hreads : ∀ g : FunctionForm, g.name.text = slice t g.name.offset g.name.stop →
        CalledRun t g.name.offset g.name.stop → g.LabelledFrom t types s.offset →
        g.Reads t types s.offset (g.name.stop - s.offset) := by
      intro g htext hcalled hlabels
      have hle := hlabels.le
      have hlt := hcalled.run.lt
      exact ⟨hs.not_charAt_pred hafter, htext, hcalled, by omega, hlabels⟩
    obtain h | h := eq_some_or_of_orElse h
    · obtain ⟨w, hw, h⟩ := List.exists_of_findSome?_eq_some h
      obtain ⟨behind, hlabel, h⟩ := Option.bind_eq_some_iff.mp h
      obtain ⟨⟨keyword, name⟩, hname, h⟩ := Option.bind_eq_some_iff.mp h
      cases h
      obtain ⟨hin, hafter⟩ := hs.labelled? hlabel
      obtain ⟨htext, hcalled, hkeyword⟩ := calledRun_of_functionName? hin hafter hname
      exact hreads ⟨s.offset, some ⟨s.offset, w⟩, keyword, name⟩ htext hcalled
        ⟨behind.offset, .inr ⟨w, hw, (hs.labels hlabel).1⟩, hkeyword⟩
    · obtain ⟨⟨keyword, name⟩, hname, h⟩ := Option.map_eq_some_iff.mp h
      cases h
      obtain ⟨htext, hcalled, hkeyword⟩ := calledRun_of_functionName? hs hafter hname
      exact hreads ⟨s.offset, none, keyword, name⟩ htext hcalled ⟨s.offset, .inl rfl, hkeyword⟩

lemma Found.functionReads (h : Found (findFunction types) t f o n) : f.Reads t types o n := by
  have hreads := reads_of_findFunction (Site.ofOffset_in t o) h.finds
  rwa [Site.ofOffset_offset h.inside.le] at hreads

/-- Functions whose names begin at one offset are found together. -/
lemma Found.function_eq {o' n' : Nat} (hf : Found (findFunction types) t f o n)
    (hg : Found (findFunction types) t g o' n') (h : f.name.offset = g.name.offset) : f = g := by
  have hreads := hf.functionReads
  have hreads' := hg.functionReads
  have hlt := hreads.called.run.lt
  have hlt' := hreads'.called.run.lt
  rw [hreads.stop] at hlt
  rw [hreads'.stop, ← h] at hlt'
  exact hf.form_eq hg ⟨hreads.labels.le, hlt⟩ ⟨h ▸ hreads'.labels.le, hlt'⟩

/-- A run that begins in a find is its name or has a colon behind it; when it is not the first, it
is the declaring word that labels the name. -/
lemma FunctionForm.Reads.run_cases {x y : Nat} (h : f.Reads t types o n)
    (htypes : ∀ w ∈ types, isName w) (hrun : NameRun t x y) (hle : o ≤ x) (hlt : x < o + n) :
    x = f.name.offset ∧ y = f.name.stop ∨
      (∃ c, NextChar t isColon y c) ∧
        (o < x → f.keyword.isSome ∧ Labels t functionWord x f.name.offset) := by
  obtain ⟨m, htype, hkeyword⟩ := h.labels
  by_cases hname : f.name.offset ≤ x
  · rw [← h.stop] at hlt
    exact .inl (hrun.eq_of_overlap h.called.run ⟨Nat.le_refl x, hrun.lt⟩ ⟨hname, hlt⟩)
  right
  by_cases hm : m ≤ x
  · obtain ⟨_, rfl⟩ | ⟨hsome, hlabels⟩ := hkeyword
    · exact absurd hm hname
    have hword := nameRun_functionWord hlabels (alone_of_labels h.alone htype)
    obtain ⟨rfl, rfl⟩ := hlabels.eq_of_run hword hrun hm (by omega)
    obtain ⟨c, hnext, _⟩ := hlabels.colon
    exact ⟨⟨c, hnext⟩, fun _ => ⟨hsome, hlabels⟩⟩
  · obtain rfl | ⟨w, hw, hlabels⟩ := htype
    · exact absurd hle hm
    obtain ⟨rfl, rfl⟩ :=
      hlabels.eq_of_run (hlabels.nameRun (htypes w hw) h.alone) hrun hle (by omega)
    obtain ⟨c, hnext, _⟩ := hlabels.colon
    exact ⟨⟨c, hnext⟩, fun hlt => absurd hlt (Nat.lt_irrefl x)⟩

/-! ### What there is to find -/

lemma CalledRun.calledName? (h : CalledRun t a b) :
    (Site.ofOffset t a).calledName? = some ⟨a, slice t a b⟩ := by
  obtain ⟨inner, hinner⟩ :=
    (Site.exists_char?_iff solid_isOpenParen h.run.wordAt.le_length).mpr h.paren
  rw [Site.calledName?, h.run.leadingName?]
  simp only [Option.bind_eq_bind, Option.bind_some, h.run.advance_eq, hinner,
    h.run.ofOffset_offset]
  rfl

/-- Where no type is a label, a function is read without one. -/
lemma findFunction_of_unlabelled (hafter : ¬ s.afterName)
    (htypes : ∀ w ∈ types, s.labelled? w = none) {keyword : Option Piece} {name : Piece}
    (h : s.functionName? = some (keyword, name)) :
    findFunction types s = some (⟨s.offset, none, keyword, name⟩, name.stop - s.offset) := by
  rw [findFunction, if_neg hafter]
  dsimp only
  rw [List.findSome?_eq_none_iff.mpr, h]
  · rfl
  · intro w hw
    rw [htypes w hw]
    rfl

/-- A called name is found where it begins. -/
lemma CalledRun.findFunction (h : CalledRun t a b) (htypes : ∀ w ∈ types, isName w) :
    ∃ n, LazeEdit.findFunction types (.ofOffset t a)
      = some (⟨(Site.ofOffset t a).offset, none, none, ⟨a, slice t a b⟩⟩, n) := by
  refine ⟨_, findFunction_of_unlabelled h.run.not_afterName ?_ ?_⟩
  · exact fun w hw => h.run.labelled?_eq_none (htypes w hw) h.not_colon
  · rw [Site.functionName?, h.run.labelled?_eq_none (by decide) h.not_colon, h.calledName?]
    rfl

/-- A called name that the declaring word labels is found from the declaring word on. -/
lemma CalledRun.findFunction_labelled {k : Nat} (h : CalledRun t a b)
    (hlabels : Labels t functionWord k a) (halone : 0 < k → ¬ CharAt t isNameChar (k - 1))
    (htypes : ∀ w ∈ types, isName w) (hfree : functionWord ∉ types) :
    ∃ keyword n, LazeEdit.findFunction types (.ofOffset t k)
      = some (⟨(Site.ofOffset t k).offset, none, some keyword, ⟨a, slice t a b⟩⟩, n) := by
  have hword := nameRun_functionWord hlabels halone
  have hlabel := hlabels.labelled? h.run.not_blank
  refine ⟨(Site.ofOffset t k).pieceTo (.ofOffset t a), _,
    findFunction_of_unlabelled hword.not_afterName ?_ ?_⟩
  · intro w hw
    rw [Option.eq_none_iff_forall_ne_some]
    intro s' hs'
    -- both are the name at this place
    have hname := Site.leadingName?_of_labelled? (htypes w hw) hs'
    have hname' := Site.leadingName?_of_labelled? (by decide) hlabel
    cases hname.symm.trans hname'
    exact hfree hw
  · rw [Site.functionName?, hlabel]
    simp only [Option.bind_eq_bind, Option.bind_some, h.calledName?]
    rfl

/-- The names that are found are the called ones. -/
lemma exists_found_iff (htypes : ∀ w ∈ types, isName w) :
    (∃ f o n, Found (findFunction types) t f o n ∧ f.name.offset = a ∧ f.name.stop = b) ↔
      CalledRun t a b := by
  constructor
  · rintro ⟨f, o, n, hf, rfl, rfl⟩
    exact hf.functionReads.called
  · intro h
    have hlt := h.run.begins.lt_length
    obtain hlook | ⟨f, o, n, hf, ho, hn⟩ := looks_or_covered (findFunction types) hlt.le
    · obtain ⟨n, hfind⟩ := h.findFunction htypes
      exact ⟨_, a, n, ⟨hlook, hlt, hfind⟩, rfl, h.run.stop_eq⟩
    · obtain ⟨hoffset, hstop⟩ | ⟨⟨c, hcolon⟩, _⟩ :=
        hf.functionReads.run_cases htypes h.run ho.le hn
      · exact ⟨f, o, n, hf, hoffset.symm, hstop.symm⟩
      · exact absurd hcolon (h.not_colon c)

/-- A called name that the declaring word labels is found with the word, unless the word is a
type. -/
lemma exists_found_declared (htypes : ∀ w ∈ types, isName w) (hfree : functionWord ∉ types)
    (h : CalledRun t a b) (hdeclared : DeclaredAt t a) :
    ∃ f o n, Found (findFunction types) t f o n ∧ f.name.offset = a ∧ f.keyword.isSome := by
  obtain ⟨k, hlabels, halone⟩ := hdeclared
  have hword := nameRun_functionWord hlabels halone
  have hlt := hword.begins.lt_length
  obtain hlook | ⟨f, o, n, hf, ho, hn⟩ := looks_or_covered (findFunction types) hlt.le
  · obtain ⟨keyword, n, hfind⟩ := h.findFunction_labelled hlabels halone htypes hfree
    exact ⟨_, k, n, ⟨hlook, hlt, hfind⟩, rfl, rfl⟩
  · -- the find that passes over the declaring word begins at a type that labels it
    have hreads := hf.functionReads
    obtain ⟨hoffset, hstop⟩ | ⟨_, hkeyword⟩ := hreads.run_cases htypes hword ho.le hn
    · obtain ⟨c, hcolon, _⟩ := hlabels.colon
      rw [hstop] at hcolon
      exact absurd hcolon (hreads.called.not_colon c)
    · obtain ⟨hsome, hlabels'⟩ := hkeyword ho
      refine ⟨f, o, n, hf, ?_, hsome⟩
      exact hlabels'.unique hreads.called.run.not_blank hlabels h.run.not_blank

/-- A found name is declared just when the declaring word labels it, unless the word is a type. -/
lemma Found.keyword_isSome_iff (hf : Found (findFunction types) t f o n)
    (htypes : ∀ w ∈ types, isName w) (hfree : functionWord ∉ types) :
    f.keyword.isSome ↔ DeclaredAt t f.name.offset := by
  have hreads := hf.functionReads
  constructor
  · intro hsome
    obtain ⟨m, htype, ⟨hnone, _⟩ | ⟨_, hlabels⟩⟩ := hreads.labels
    · rw [hnone] at hsome
      cases hsome
    · exact ⟨m, hlabels, alone_of_labels hreads.alone htype⟩
  · intro hdeclared
    obtain ⟨g, o', n', hg, hoffset, hsome⟩ :=
      exists_found_declared htypes hfree hreads.called hdeclared
    rwa [hf.function_eq hg hoffset.symm]

/-! ### Spans and records -/

/-- The functions that classifying a document finds. -/
def functionForms (t : Text) : List FunctionForm :=
  occurrences (findFunction (typeForms (classify t).classNames)) t

/-- The variables that classifying a document finds. -/
def variableForms (t : Text) : List VariableForm :=
  occurrences (findVariable (typeForms (classify t).classNames)) t

/-- The types that a document may name are names. -/
lemma isName_of_mem_types {w : Text} (hw : w ∈ typeForms (classify t).classNames) : isName w :=
  isName_of_mem_typeForms (fun _ => isName_of_mem_classNames (t := t)) hw

lemma functionWord_not_mem_types (h : functionWord ∉ (classify t).classNames) :
    functionWord ∉ typeForms (classify t).classNames := by
  rw [mem_typeForms, List.mem_append]
  rintro (hbuiltin | hclass)
  · revert hbuiltin
    decide
  · exact h hclass

lemma type_of_wordToken? {p : Piece} {s : TokenSpan} (h : wordToken? p = some s) :
    s.type = .control ∨ s.type = .keyword := by
  rw [wordToken?] at h
  split at h
  case isTrue =>
    cases h
    exact .inl rfl
  case isFalse =>
    split at h
    case isTrue =>
      cases h
      exact .inr rfl
    case isFalse => cases h

/-- The spans on the names of functions and variables come from the passes over these. -/
lemma pass_of_nameType {s : TokenSpan} (h : s ∈ (classify t).tokens)
    (hname : s.type ∈ [.builtin, .functionName, .variableName]) :
    (∃ f ∈ functionForms t, f.token? = some s) ∨
      ∃ f ∈ variableForms t, f.token? (reservedForms (classify t).classNames) = some s := by
  simp only [classify, List.mem_append, or_assoc] at h
  obtain h | h | h | h | h | h | h | h := h
  · obtain ⟨turn, e⟩ := type_of_mem_bracketTokensFrom h
    simp [e] at hname
  · obtain ⟨f, _, rfl⟩ := List.mem_map.mp h
    simp [ClassForm.token, Piece.token] at hname
  · obtain ⟨p, _, h⟩ := List.mem_filterMap.mp h
    obtain e | e := type_of_wordToken? h <;> simp [e] at hname
  · exact .inl (List.mem_filterMap.mp h)
  · exact .inr (List.mem_filterMap.mp h)
  · obtain ⟨p, _, rfl⟩ := List.mem_map.mp h
    simp [Piece.token] at hname
  · obtain ⟨f, _, rfl⟩ := List.mem_map.mp h
    simp [NumberForm.token, Piece.token] at hname
  · obtain ⟨p, _, rfl⟩ := List.mem_map.mp h
    simp [Piece.token] at hname

lemma mem_tokens_of_functionForm {s : TokenSpan} (hf : f ∈ functionForms t)
    (h : f.token? = some s) : s ∈ (classify t).tokens := by
  have hmem : s ∈ (functionForms t).filterMap FunctionForm.token? :=
    List.mem_filterMap.mpr ⟨f, hf, h⟩
  simp only [classify, List.mem_append]
  exact .inl (.inl (.inl (.inl (.inr hmem))))

/-- The kind and the modifiers of the span on a called name: a function that is always there has its
own kind, a control word has no such span, and any other name is that of a function and marked when
it is declared. -/
inductive FunctionToken (name : Text) (declared : Prop) : TokenType → Modifiers → Prop where
  | builtin :
    name ∈ builtinFunctionForms →
    FunctionToken name declared .builtin .none
  | declared :
    name ∉ controlForms →
    name ∉ builtinFunctionForms →
    declared →
    FunctionToken name declared .functionName (.only .declaration)
  | called :
    name ∉ controlForms →
    name ∉ builtinFunctionForms →
    ¬ declared →
    FunctionToken name declared .functionName .none

lemma FunctionToken.type_cases {name : Text} {declared : Prop} {type : TokenType}
    {modifiers : Modifiers} (h : FunctionToken name declared type modifiers) :
    type = .builtin ∨ type = .functionName := by
  cases h with
  | builtin => exact .inl rfl
  | declared => exact .inr rfl
  | called => exact .inr rfl

/-- A span that stands where a piece does is a span of the piece. -/
lemma Piece.eq_token {p : Piece} {s : TokenSpan} (h : s.At p.offset p.stop) :
    s = p.token s.type s.modifiers := by
  obtain ⟨start, length, type, modifiers⟩ := s
  obtain ⟨hstart, hstop⟩ := h
  rw [TokenSpan.stop, Piece.stop] at hstop
  dsimp only at hstart hstop
  rw [token, TokenSpan.mk.injEq]
  exact ⟨hstart, by omega, rfl, rfl⟩

/-- The span of a found function. -/
lemma functionToken?_iff {declared : Prop} (hdeclared : f.keyword.isSome ↔ declared)
    {s : TokenSpan} :
    f.token? = some s ↔
      s.At f.name.offset f.name.stop ∧ FunctionToken f.name.text declared s.type s.modifiers := by
  rw [FunctionForm.token?]
  constructor
  · intro h
    split at h
    case isTrue => cases h
    case isFalse hcontrol =>
      rw [List.contains_iff_mem] at hcontrol
      split at h
      case isTrue hbuiltin =>
        cases h
        exact ⟨f.name.token_at _ _, .builtin (List.contains_iff_mem.mp hbuiltin)⟩
      case isFalse hbuiltin =>
        rw [List.contains_iff_mem] at hbuiltin
        cases h
        refine ⟨f.name.token_at _ _, ?_⟩
        split
        case isTrue hsome => exact .declared hcontrol hbuiltin (hdeclared.mp hsome)
        case isFalse hnone => exact .called hcontrol hbuiltin fun h => hnone (hdeclared.mpr h)
  · rintro ⟨hat, htoken⟩
    rw [Piece.eq_token hat]
    obtain ⟨start, length, type, modifiers⟩ := s
    cases htoken with
    | builtin hbuiltin =>
      have hcontrol : ∀ w ∈ builtinFunctionForms, ¬ controlForms.contains w := by decide
      rw [if_neg (hcontrol _ hbuiltin), if_pos (List.contains_iff_mem.mpr hbuiltin)]
      rfl
    | declared hcontrol hbuiltin h =>
      rw [← List.contains_iff_mem] at hcontrol hbuiltin
      rw [if_neg hcontrol, if_neg hbuiltin, if_pos (hdeclared.mpr h)]
      rfl
    | called hcontrol hbuiltin h =>
      rw [← List.contains_iff_mem] at hcontrol hbuiltin
      rw [if_neg hcontrol, if_neg hbuiltin, if_neg fun hsome => h (hdeclared.mp hsome)]
      rfl

/-- The records of functions are those of the declared ones that are found. -/
lemma mem_functions_iff {d : Declaration} :
    d ∈ (classify t).functions ↔
      ∃ f ∈ functionForms t, f.keyword.isSome ∧ d = ⟨f.name.text, f.offset, f.name.stop, none⟩ := by
  show d ∈ (functionForms t).filterMap FunctionForm.declaration? ↔ _
  rw [List.mem_filterMap]
  refine exists_congr fun f => and_congr_right fun _ => ?_
  rw [FunctionForm.declaration?]
  split
  case isTrue hsome =>
    rw [Option.some.injEq, eq_comm]
    exact (and_iff_right hsome).symm
  case isFalse hnone =>
    refine ⟨(fun h => nomatch h), fun h => absurd h.1 hnone⟩

/-! ### The functions of a document -/

lemma exists_functionForm_iff :
    (∃ f ∈ functionForms t, f.name.offset = a ∧ f.name.stop = b) ↔ CalledRun t a b := by
  rw [← exists_found_iff fun w => isName_of_mem_types (t := t)]
  constructor
  · rintro ⟨f, hf, hname⟩
    obtain ⟨o, n, hfound⟩ := mem_occurrences.mp hf
    exact ⟨f, o, n, hfound, hname⟩
  · rintro ⟨f, o, n, hfound, hname⟩
    exact ⟨f, mem_occurrences.mpr ⟨o, n, hfound⟩, hname⟩

/-- The name of a found function is the text of the run on which it stands. -/
lemma text_of_mem_functionForms (hf : f ∈ functionForms t) :
    f.name.text = slice t f.name.offset f.name.stop ∧ CalledRun t f.name.offset f.name.stop := by
  obtain ⟨o, n, hfound⟩ := mem_occurrences.mp hf
  exact ⟨hfound.functionReads.text, hfound.functionReads.called⟩

/-- A found function is declared just when the declaring word labels its name. -/
lemma keyword_isSome_iff (hclass : functionWord ∉ (classify t).classNames)
    (hf : f ∈ functionForms t) : f.keyword.isSome ↔ DeclaredAt t f.name.offset := by
  obtain ⟨o, n, hfound⟩ := mem_occurrences.mp hf
  exact hfound.keyword_isSome_iff (fun w => isName_of_mem_types) (functionWord_not_mem_types hclass)

/-- The spans on the names of functions. -/
lemma mem_tokens_function_iff (hclass : functionWord ∉ (classify t).classNames) {s : TokenSpan}
    (hat : s.At a b) :
    s ∈ (classify t).tokens ∧ (s.type = .builtin ∨ s.type = .functionName) ↔
      CalledRun t a b ∧ FunctionToken (slice t a b) (DeclaredAt t a) s.type s.modifiers := by
  constructor
  · rintro ⟨hs, htype⟩
    have hname : s.type ∈ [TokenType.builtin, .functionName, .variableName] := by
      obtain e | e := htype <;> simp [e]
    obtain ⟨f, hf, htoken⟩ | ⟨f, _, htoken⟩ := pass_of_nameType hs hname
    · obtain ⟨hat', htoken⟩ := (functionToken?_iff (keyword_isSome_iff hclass hf)).mp htoken
      obtain ⟨rfl, rfl⟩ := hat.unique hat'
      obtain ⟨htext, hcalled⟩ := text_of_mem_functionForms hf
      rw [htext] at htoken
      exact ⟨hcalled, htoken⟩
    · have e := (token?_eq_some htoken).2
      rw [e] at htype
      obtain h | h := htype <;> cases h
  · rintro ⟨hcalled, htoken⟩
    obtain ⟨f, hf, rfl, rfl⟩ := exists_functionForm_iff.mpr hcalled
    rw [← (text_of_mem_functionForms hf).1] at htoken
    have hspan := (functionToken?_iff (keyword_isSome_iff hclass hf)).mpr ⟨hat, htoken⟩
    exact ⟨mem_tokens_of_functionForm hf hspan, htoken.type_cases⟩

/-- The records of functions. -/
lemma exists_record_iff (hclass : functionWord ∉ (classify t).classNames) :
    (∃ d ∈ (classify t).functions, d.name = slice t a b ∧ d.stop = b) ↔
      CalledRun t a b ∧ DeclaredAt t a := by
  constructor
  · rintro ⟨d, hd, hname, hstop⟩
    obtain ⟨f, hf, hsome, rfl⟩ := mem_functions_iff.mp hd
    obtain ⟨htext, hcalled⟩ := text_of_mem_functionForms hf
    obtain rfl : f.name.stop = b := Int.ofNat.inj hstop
    -- names that end together are as long as each other, so that they begin together
    have hlength := congrArg List.length (htext.symm.trans hname)
    rw [hcalled.run.length_slice, length_slice hcalled.run.wordAt.le_length] at hlength
    have hlt := hcalled.run.lt
    obtain rfl : f.name.offset = a := by omega
    exact ⟨hcalled, (keyword_isSome_iff hclass hf).mp hsome⟩
  · rintro ⟨hcalled, hdeclared⟩
    obtain ⟨f, hf, rfl, rfl⟩ := exists_functionForm_iff.mpr hcalled
    have hsome := (keyword_isSome_iff hclass hf).mpr hdeclared
    exact ⟨_, mem_functions_iff.mpr ⟨f, hf, hsome, rfl⟩, (text_of_mem_functionForms hf).1, rfl⟩

/-- The search for functions finds the runs of name characters before an opening parenthesis, and
nothing else. Each has the span that its name is to have, and is recorded just when the declaring
word labels it. This holds of every document in which no class has the declaring word for its
name. -/
theorem functions_exact {t : Text} (hclass : functionWord ∉ (classify t).classNames) (a b : Nat) :
    ((∃ f ∈ functionForms t, f.name.offset = a ∧ f.name.stop = b) ↔ CalledRun t a b) ∧
    (∀ s : TokenSpan, s.At a b →
      (s ∈ (classify t).tokens ∧ (s.type = .builtin ∨ s.type = .functionName) ↔
        CalledRun t a b ∧ FunctionToken (slice t a b) (DeclaredAt t a) s.type s.modifiers)) ∧
    ((∃ d ∈ (classify t).functions, d.name = slice t a b ∧ d.stop = b) ↔
      CalledRun t a b ∧ DeclaredAt t a) :=
  ⟨exists_functionForm_iff, fun _ => mem_tokens_function_iff hclass, exists_record_iff hclass⟩

/-- A name that the second of two declaring words labels, behind a type. -/
def chainedDeclaration : Text :=
  ['整', '数', ':', '関', '数', ':', '関', '数', ' ', '：', 'f', ' ', '(']

/-- The function is recognised through the second declaring word. -/
theorem functions_chainedDeclaration :
    functionWord ∉ (classify chainedDeclaration).classNames ∧
    ⟨10, 1, .functionName, .only .declaration⟩ ∈ (classify chainedDeclaration).tokens ∧
    ∃ d ∈ (classify chainedDeclaration).functions, d.name = ['f'] ∧ d.stop = 11 := by
  have hclass : functionWord ∉ (classify chainedDeclaration).classNames := by decide
  have hcalled : CalledRun chainedDeclaration 10 11 := ⟨by decide, 12, by decide⟩
  have hdeclared : DeclaredAt chainedDeclaration 10 :=
    ⟨6, ⟨by decide, 9, by decide, by decide⟩, by decide⟩
  obtain ⟨_, hspan, hrecord⟩ := functions_exact hclass 10 11
  have htoken := (hspan ⟨10, 1, .functionName, .only .declaration⟩ ⟨rfl, rfl⟩).mpr
    ⟨hcalled, .declared (by decide) (by decide) hdeclared⟩
  exact ⟨hclass, htoken.1, hrecord.mpr ⟨hcalled, hdeclared⟩⟩

end LazeEdit
