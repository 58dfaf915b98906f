import LazeEdit.Proofs.Classification.Functions

/-!
# References

The variables that a document uses are its runs of name characters that stand behind a separator
other than a colon and are no label, call or head of a block (`UsedRun`). Declarations and uses are
looked for together, and the search goes on behind each find. What a find passes over before its
name is a type, which a colon follows, so that no use is passed over with it
(`VariableForm.Stands.run_cases`). A run that could be a use is therefore found as one, unless it is
the name of a declaration (`exists_used_iff`).
-/

namespace LazeEdit

variable {t : Text} {types : List Text} {s : Site} {f : VariableForm} {a b o n : Nat}

/-- A used name: a run behind a separator that is no colon, which no character follows that makes it
a label, a call or the head of a block. -/
structure UsedRun (t : Text) (a b : Nat) : Prop where
  run : NameRun t a b
  before : a = 0 ∨ CharAt t (fun c => isSeparator c && !isColon c) (a - 1)
  after : ¬ ∃ i, NextChar t isNameOpener b i

lemma UsedRun.not_colon (h : UsedRun t a b) (c : Nat) : ¬ NextChar t isColon b c := by
  intro hcolon
  have hopener : ∀ x, isColon x → isNameOpener x := by
    intro x hx
    rw [isNameOpener, hx]
    rfl
  exact h.after ⟨c, hcolon.blanks, hcolon.char.imp hopener⟩

/-! ### What is found -/

/-- What a find that begins at an offset says of the runs of the text: a declared name is labelled
by a type, and a used one stands for itself. -/
inductive VariableForm.Stands (t : Text) (types : List Text) (o : Nat) : VariableForm → Prop where
  | declared {w : Text} {name : Piece} :
    w ∈ types →
    (0 < o → ¬ CharAt t isNameChar (o - 1)) →
    Labels t w o name.offset →
    NameRun t name.offset name.stop →
    Stands t types o (.declared ⟨o, w⟩ name)
  | used {name : Piece} :
    name.offset = o →
    UsedRun t o name.stop →
    Stands t types o (.used name)

lemma stands_of_findDeclared (hs : s.In t) (h : findDeclared types s = some (f, n)) :
    f.Stands t types s.offset := by
  rw [findDeclared] at h
  split at h
  case isFalse => cases h
  case isTrue hbefore =>
    have hafter := Site.not_afterName_of_separator hbefore fun _ => id
    obtain ⟨w, hw, h⟩ := List.exists_of_findSome?_eq_some h
    obtain ⟨behind, hlabel, h⟩ := Option.bind_eq_some_iff.mp h
    obtain ⟨name, hname, h⟩ := Option.bind_eq_some_iff.mp h
    obtain ⟨hin, hbehind⟩ := hs.labelled? hlabel
    split at h
    case h_1 => cases h
    case h_2 =>
      cases h
      exact .declared hw (hs.not_charAt_pred hafter) (hs.labels hlabel).1
        (nameRun_of_leadingName? hin hbehind hname)

lemma stands_of_findUsed (hs : s.In t) (h : findUsed s = some (f, n)) :
    f.Stands t types s.offset := by
  rw [findUsed] at h
  split at h
  case isFalse => cases h
  case isTrue hbefore =>
    have hafter := Site.not_afterName_of_separator hbefore
      fun c hc => (Bool.and_eq_true_iff.mp hc).1
    obtain ⟨name, hname, h⟩ := Option.bind_eq_some_iff.mp h
    have hrun := nameRun_of_leadingName? hs hafter hname
    split at h
    case h_1 => cases h
    case h_2 hfree =>
      cases h
      rw [hs.behindName hname] at hfree
      refine .used rfl ⟨hrun, (hs.before_all_iff _).mp hbefore, ?_⟩
      intro hopener
      obtain ⟨_, hchar⟩ :=
        (Site.exists_char?_iff solid_isNameOpener hrun.wordAt.le_length).mpr hopener
      cases hfree.symm.trans hchar

lemma Found.stands (h : Found (findVariable types) t f o n) : f.Stands t types o := by
  have hin := Site.ofOffset_in t o
  have hoffset := Site.ofOffset_offset h.inside.le
  obtain hfind | hfind := eq_some_or_of_orElse h.finds
  · exact hoffset ▸ stands_of_findDeclared hin hfind
  · exact hoffset ▸ stands_of_findUsed hin hfind

/-- A run that begins in a find is its name or has a colon behind it. -/
lemma VariableForm.Stands.run_cases {x y : Nat} (h : f.Stands t types o)
    (htypes : ∀ w ∈ types, isName w) (hrun : NameRun t x y) (hle : o ≤ x) (hlt : x < f.name.stop) :
    x = f.name.offset ∧ y = f.name.stop ∨ ∃ c, NextChar t isColon y c := by
  cases h with
  | @declared w name hw halone hlabels hname =>
    by_cases hx : name.offset ≤ x
    · exact .inl (hrun.eq_of_overlap hname ⟨Nat.le_refl x, hrun.lt⟩ ⟨hx, hlt⟩)
    · have htype := hlabels.nameRun (htypes w hw) halone
      obtain ⟨_, rfl⟩ := hlabels.eq_of_run htype hrun hle (Nat.lt_of_not_le hx)
      obtain ⟨c, hnext, _⟩ := hlabels.colon
      exact .inr ⟨c, hnext⟩
  | used hoffset hused =>
    subst hoffset
    exact .inl (hrun.eq_of_overlap hused.run ⟨Nat.le_refl x, hrun.lt⟩ ⟨hle, hlt⟩)

/-! ### What there is to find -/

/-- A used name is found where it begins. -/
lemma UsedRun.findVariable (h : UsedRun t a b) (htypes : ∀ w ∈ types, isName w) :
    ∃ n, LazeEdit.findVariable types (.ofOffset t a) = some (.used ⟨a, slice t a b⟩, n) := by
  have hin := Site.ofOffset_in t a
  have hdeclared : findDeclared types (.ofOffset t a) = none := by
    rw [findDeclared]
    split
    case isFalse => rfl
    case isTrue =>
      rw [List.findSome?_eq_none_iff]
      intro w hw
      rw [h.run.labelled?_eq_none (htypes w hw) h.not_colon]
      rfl
  have hbefore : (Site.ofOffset t a).before.all fun c => isSeparator c && !isColon c := by
    rw [hin.before_all_iff, h.run.ofOffset_offset]
    exact h.before
  have hafter : (Site.ofOffset t b).skipBlanks.char? isNameOpener = none := by
    rw [Option.eq_none_iff_forall_ne_some]
    intro s' hs'
    exact h.after ((Site.exists_char?_iff solid_isNameOpener h.run.wordAt.le_length).mp ⟨s', hs'⟩)
  refine ⟨(slice t a b).length, ?_⟩
  rw [LazeEdit.findVariable, hdeclared, findUsed, if_pos hbefore, h.run.leadingName?]
  simp only [Option.bind_eq_bind, Option.bind_some, h.run.advance_eq, hafter,
    h.run.ofOffset_offset]
  rfl

/-- The uses that are found are the used names that are not those of declarations. -/
lemma exists_used_iff :
    (∃ name, .used name ∈ variableForms t ∧ name.offset = a ∧ name.stop = b) ↔
      UsedRun t a b ∧
        ¬ ∃ type name, .declared type name ∈ variableForms t ∧ name.offset = a ∧ name.stop = b := by
  have htypes : ∀ w ∈ typeForms (classify t).classNames, isName w := fun _ => isName_of_mem_types
  constructor
  · rintro ⟨name, hmem, rfl, rfl⟩
    refine ⟨?_, ?_⟩
    · obtain ⟨o, n, hfound⟩ := mem_occurrences.mp hmem
      cases hfound.stands with
      | used hoffset hused => exact hoffset ▸ hused
    · rintro ⟨type, name', hmem', hoffset, _⟩
      cases variableForm_eq hmem hmem' hoffset.symm
  · rintro ⟨hused, hfree⟩
    have hlt := hused.run.begins.lt_length
    obtain hlook | ⟨f, o, n, hf, ho, hn⟩ := looks_or_covered (findVariable _) hlt.le
    · obtain ⟨n, hfind⟩ := hused.findVariable htypes
      exact ⟨_, mem_occurrences.mpr ⟨a, n, hlook, hlt, hfind⟩, rfl, hused.run.stop_eq⟩
    · -- the find that passes over the run has it for its name, since no colon follows it
      rw [← hf.variableName.1.stop] at hn
      obtain ⟨hoffset, hstop⟩ | ⟨c, hcolon⟩ := hf.stands.run_cases htypes hused.run ho.le hn
      · have hmem : f ∈ variableForms t := mem_occurrences.mpr ⟨o, n, hf⟩
        cases f with
        | declared type name => exact absurd ⟨type, name, hmem, hoffset.symm, hstop.symm⟩ hfree
        | used name => exact ⟨name, hmem, hoffset.symm, hstop.symm⟩
      · exact absurd hcolon (hused.not_colon c)

/-! ### Spans -/

lemma mem_tokens_of_variableForm {s : TokenSpan} (hf : f ∈ variableForms t)
    (h : f.token? (reservedForms (classify t).classNames) = some s) : s ∈ (classify t).tokens := by
  have hmem : s ∈ (variableForms t).filterMap
      (VariableForm.token? (reservedForms (classify t).classNames)) :=
    List.mem_filterMap.mpr ⟨f, hf, h⟩
  simp only [classify, List.mem_append]
  exact .inl (.inl (.inl (.inr hmem)))

/-- A span of a variable without the mark of a declaration is that of a use. -/
lemma used_of_token? {reserved : List Text} {s : TokenSpan} (h : f.token? reserved = some s)
    (hs : ¬ s.modifiers.has .declaration) :
    ∃ name, f = .used name ∧ name.text ∉ reserved ∧ s = name.token .variableName := by
  unfold VariableForm.token? at h
  split at h
  case isTrue => cases h
  case isFalse hfree =>
    rw [List.contains_iff_mem] at hfree
    cases f with
    | declared type name =>
      cases h
      have hmark : (Modifiers.only .declaration).has .declaration := by decide
      exact absurd hmark hs
    | used name =>
      cases h
      exact ⟨name, rfl, hfree, rfl⟩

lemma token?_used {reserved : List Text} {name : Piece} (h : name.text ∉ reserved) :
    (VariableForm.used name).token? reserved = some (name.token .variableName) := by
  rw [← List.contains_iff_mem] at h
  exact if_neg h

/-- The spans on the names of variables come from the search for these. -/
lemma variablePass_of_variableName {s : TokenSpan} (h : s ∈ (classify t).tokens)
    (htype : s.type = .variableName) :
    ∃ f ∈ variableForms t, f.token? (reservedForms (classify t).classNames) = some s := by
  obtain ⟨f, _, htoken⟩ | hvariable := pass_of_nameType h (by simp [htype])
  · have hfunction := ((functionToken?_iff Iff.rfl).mp htoken).2.type_cases
    rw [htype] at hfunction
    obtain e | e := hfunction <;> cases e
  · exact hvariable

lemma text_of_used {name : Piece} (hf : .used name ∈ variableForms t) :
    slice t name.offset name.stop = name.text := by
  obtain ⟨o, n, hfound⟩ := mem_occurrences.mp hf
  obtain ⟨hreads, hlt⟩ := hfound.variableName
  exact hreads.name.slice_eq (Nat.pos_of_lt_add_right hlt)

/-- A span on the name of a variable that is not marked as declared stands between two offsets just
when a run of name characters stands there that is used, that is no control word, keyword or type of
the document, and that is not the name of a declaration found by the same search. -/
theorem references_exact (t : Text) (a b : Nat) :
    (∃ s ∈ (classify t).tokens,
      s.type = .variableName ∧ ¬ s.modifiers.has .declaration ∧ s.At a b) ↔
    UsedRun t a b ∧
      slice t a b ∉ controlForms ++ keywordForms ++ builtinTypeForms ++ (classify t).classNames ∧
      ¬ ∃ type name, .declared type name ∈ variableForms t ∧ name.offset = a ∧ name.stop = b := by
  constructor
  · rintro ⟨s, hs, htype, hmark, hat⟩
    obtain ⟨f, hf, htoken⟩ := variablePass_of_variableName hs htype
    obtain ⟨name, rfl, hfree, rfl⟩ := used_of_token? htoken hmark
    obtain ⟨rfl, rfl⟩ := hat.unique (name.token_at _ _)
    obtain ⟨hrun, hdeclared⟩ := exists_used_iff.mp ⟨name, hf, rfl, rfl⟩
    rw [reservedForms, List.mem_eraseDups, ← text_of_used hf] at hfree
    exact ⟨hrun, hfree, hdeclared⟩
  · rintro ⟨hrun, hfree, hdeclared⟩
    obtain ⟨name, hf, rfl, rfl⟩ := exists_used_iff.mpr ⟨hrun, hdeclared⟩
    rw [← List.mem_eraseDups, ← reservedForms, text_of_used hf] at hfree
    have hmem := mem_tokens_of_variableForm hf (token?_used hfree)
    have hmark : ¬ Modifiers.none.has .declaration := by decide
    exact ⟨_, hmem, rfl, hmark, name.token_at _ _⟩

end LazeEdit
