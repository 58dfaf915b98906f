import LazeEdit.Proofs.Classification.Names
import LazeEdit.Proofs.Lexicon.Operators
import LazeEdit.Proofs.Token.Echo

/-!
# Classifying an echo

At places of two texts in lockstep each recogniser of names finds the same form, moved. With this,
and with numbers, operators and brackets taken one by one, each recogniser of the classification is
steady: it finds in an echo what it finds in the text, moved, and nothing at a line feed. The forms
are equal but for their offsets, with two exceptions that nothing depends on: the declaring word of
a function holds the colon behind it, and an operator is spelt in its own widths. So the passes give
the same spans and declarations, moved (`classify_echo`).
-/

namespace LazeEdit

/-- A piece of text further on. -/
def Piece.moved (k : Nat) (p : Piece) : Piece :=
  { p with offset := p.offset + k }

@[simp] lemma Piece.moved_text (k : Nat) (p : Piece) : (p.moved k).text = p.text := rfl

@[simp] lemma Piece.moved_offset (k : Nat) (p : Piece) : (p.moved k).offset = p.offset + k := rfl

lemma Piece.token_moved (k : Nat) (p : Piece) (type : TokenType) (modifiers : Modifiers) :
    (p.moved k).token type modifiers = (p.token type modifiers).moved k := by
  simp only [token, moved, TokenSpan.moved, Int.natCast_add]

lemma Piece.stop_moved (k : Nat) (p : Piece) : (p.moved k).stop = p.stop + k :=
  Nat.add_right_comm p.offset k p.text.length

variable {k : Nat} {t t' u : Text} {s s' : Site}

/-! ### Lists that correspond -/

/-- Values of corresponding elements that move with the elements. -/
lemma map_of_forall₂ {α β : Type} {R : α → α → Prop} {xs ys : List α} {f : α → β} {g : β → β}
    (h : List.Forall₂ R xs ys) (hf : ∀ x y, R x y → f y = g (f x)) :
    ys.map f = (xs.map f).map g := by
  induction h with
  | nil => rfl
  | cons hxy _ ih => rw [List.map_cons, List.map_cons, List.map_cons, ih, hf _ _ hxy]

/-- Values of corresponding elements that are there for both and move with the elements. -/
lemma filterMap_of_forall₂ {α β : Type} {R : α → α → Prop} {xs ys : List α} {f : α → Option β}
    {g : β → β} (h : List.Forall₂ R xs ys) (hf : ∀ x y, R x y → f y = (f x).map g) :
    ys.filterMap f = (xs.filterMap f).map g := by
  induction h with
  | nil => rfl
  | @cons x y xs ys hxy _ ih =>
    rw [List.filterMap_cons, List.filterMap_cons, hf x y hxy, ih]
    cases f x with
    | none => rfl
    | some b => rfl

/-! ### Recognisers in lockstep -/

/-- The declaration of a class further on. -/
def ClassForm.moved (k : Nat) (f : ClassForm) : ClassForm :=
  ⟨f.offset + k, f.name.moved k⟩

/-- A function name and the same one further on. What the declaring word covers may differ. -/
structure FunctionForm.Echo (k : Nat) (f g : FunctionForm) : Prop where
  offset : g.offset = f.offset + k
  keyword : g.keyword.isSome = f.keyword.isSome
  name : g.name = f.name.moved k

/-- A variable further on. -/
def VariableForm.moved (k : Nat) : VariableForm → VariableForm
  | declared type name => declared (type.moved k) (name.moved k)
  | used name => used (name.moved k)

namespace Site.Lockstep

variable {Exact Loose : Site → Site → Prop} {types : List Text}

lemma labelled? {w : Text} (h : Lockstep k Exact Loose) (hs : Loose s s') (hw : isName w) :
    Option.Rel Loose (s.labelled? w) (s'.labelled? w) := by
  apply rel_bind (h.word? hs hw)
  intro behind behind' hbehind
  apply rel_bind (h.char? (h.skipBlanks (h.loose hbehind)) (by decide))
  rintro colon colon' ⟨_, hcolon⟩
  exact .some (h.skipBlanks (h.loose hcolon))

lemma findClass (h : Lockstep k Exact Loose) (hs : Exact s s') :
    Option.Rel (fun x y => y.1 = x.1.moved k ∧ x.2 = y.2) (findClass s) (findClass s') := by
  rw [LazeEdit.findClass, LazeEdit.findClass, h.afterName hs]
  split
  · exact .none
  · apply rel_bind (h.labelled? (h.loose hs) (by decide))
    intro n n' hn
    apply rel_bind (h.name hn)
    rintro w _ ⟨rfl, hn, _⟩
    refine .some ⟨?_, ?_⟩
    · simp only [ClassForm.moved, Piece.moved, h.offset hs, h.offset hn]
    · simp only [h.offset hs, h.offset hn]
      omega

lemma findWord (h : Lockstep k Exact Loose) (hs : Exact s s') :
    Option.Rel (fun x y => y.1 = x.1.moved k ∧ x.2 = y.2) (findWord s) (findWord s') := by
  apply rel_map (h.name (h.loose hs))
  rintro w _ ⟨rfl, _⟩
  exact ⟨by rw [h.offset hs]; rfl, rfl⟩

lemma findType (h : Lockstep k Exact Loose) (hs : Exact s s') (htypes : ∀ w ∈ types, isName w) :
    Option.Rel (fun x y => y.1 = x.1.moved k ∧ x.2 = y.2) (findType types s)
      (findType types s') := by
  rw [LazeEdit.findType, LazeEdit.findType, h.afterName hs]
  split
  · exact .none
  · apply rel_findSome?
    intro w hw
    apply rel_bind (h.word? (h.loose hs) (htypes w hw))
    intro behind behind' hbehind
    apply rel_bind (h.char? (h.skipBlanks (h.loose hbehind)) (by decide))
    intro colon colon' _
    exact .some ⟨by rw [h.offset hs]; rfl, rfl⟩

lemma calledName? (h : Lockstep k Exact Loose) (hs : Loose s s') :
    Option.Rel (fun p q => q = p.moved k) s.calledName? s'.calledName? := by
  apply rel_bind (h.name hs)
  rintro w _ ⟨rfl, hs, hbehind⟩
  apply rel_bind (h.char? (h.skipBlanks (h.loose hbehind)) (by decide))
  intro paren paren' _
  exact .some (by rw [h.offset hs]; rfl)

lemma functionName? (h : Lockstep k Exact Loose) (hs : Loose s s') :
    Option.Rel (fun x y => y.1.isSome = x.1.isSome ∧ y.2 = x.2.moved k) s.functionName?
      s'.functionName? := by
  apply rel_orElse
  · apply rel_bind (h.labelled? hs (by decide))
    intro n n' hn
    apply rel_bind (h.calledName? hn)
    intro name name' hname
    exact .some ⟨rfl, hname⟩
  · apply rel_map (h.calledName? hs)
    intro name name' hname
    exact ⟨rfl, hname⟩

lemma findFunction (h : Lockstep k Exact Loose) (hs : Exact s s')
    (htypes : ∀ w ∈ types, isName w) :
    Option.Rel (fun x y => x.1.Echo k y.1 ∧ x.2 = y.2) (findFunction types s)
      (findFunction types s') := by
  have form : ∀ {type type' : Option Piece} {x y : Option Piece × Piece},
      y.1.isSome = x.1.isSome ∧ y.2 = x.2.moved k →
      FunctionForm.Echo k ⟨s.offset, type, x.1, x.2⟩ ⟨s'.offset, type', y.1, y.2⟩ ∧
        x.2.stop - s.offset = y.2.stop - s'.offset := by
    rintro type type' x y ⟨hkeyword, hname⟩
    refine ⟨⟨h.offset hs, hkeyword, hname⟩, ?_⟩
    rw [hname, h.offset hs, Piece.stop_moved]
    omega
  rw [LazeEdit.findFunction, LazeEdit.findFunction, h.afterName hs]
  split
  · exact .none
  · apply rel_orElse
    · apply rel_findSome?
      intro w hw
      apply rel_bind (h.labelled? (h.loose hs) (htypes w hw))
      intro n n' hn
      apply rel_bind (h.functionName? hn)
      intro x y hxy
      exact .some (form hxy)
    · apply rel_map (h.functionName? (h.loose hs))
      intro x y hxy
      exact form hxy

lemma findDeclared (h : Lockstep k Exact Loose) (hs : Exact s s')
    (htypes : ∀ w ∈ types, isName w) :
    Option.Rel (fun x y => y.1 = x.1.moved k ∧ x.2 = y.2) (findDeclared types s)
      (findDeclared types s') := by
  rw [LazeEdit.findDeclared, LazeEdit.findDeclared, h.before hs (by decide) (by decide)]
  split
  · apply rel_findSome?
    intro w hw
    apply rel_bind (h.labelled? (h.loose hs) (htypes w hw))
    intro n n' hn
    apply rel_bind (h.name hn)
    rintro _ name ⟨rfl, hn, hbehind⟩
    have hparen := h.char? (p := isOpenParen) (h.skipBlanks (h.loose hbehind)) (by decide)
    generalize (n.advance name.length).skipBlanks.char? isOpenParen = paren at hparen ⊢
    generalize (n'.advance name.length).skipBlanks.char? isOpenParen = paren' at hparen ⊢
    cases hparen with
    | some _ => exact .none
    | none =>
      refine .some ⟨?_, ?_⟩
      · simp only [VariableForm.moved, Piece.moved, h.offset hs, h.offset hn]
      · simp only [h.offset hs, h.offset hn]
        omega
  · exact .none

lemma findUsed (h : Lockstep k Exact Loose) (hs : Exact s s') :
    Option.Rel (fun x y => y.1 = x.1.moved k ∧ x.2 = y.2) (findUsed s) (findUsed s') := by
  rw [LazeEdit.findUsed, LazeEdit.findUsed, h.before hs (by decide) (by decide)]
  split
  · apply rel_bind (h.name (h.loose hs))
    rintro _ name ⟨rfl, _, hbehind⟩
    have hopener := h.char? (p := isNameOpener) (h.skipBlanks (h.loose hbehind)) (by decide)
    generalize (s.advance name.length).skipBlanks.char? isNameOpener = opener at hopener ⊢
    generalize (s'.advance name.length).skipBlanks.char? isNameOpener = opener' at hopener ⊢
    cases hopener with
    | some _ => exact .none
    | none => exact .some ⟨by simp only [VariableForm.moved, Piece.moved, h.offset hs], rfl⟩
  · exact .none

lemma findVariable (h : Lockstep k Exact Loose) (hs : Exact s s')
    (htypes : ∀ w ∈ types, isName w) :
    Option.Rel (fun x y => y.1 = x.1.moved k ∧ x.2 = y.2) (findVariable types s)
      (findVariable types s') :=
  rel_orElse (h.findDeclared hs htypes) (h.findUsed hs)

end Site.Lockstep

/-! ### Recognisers of names -/

section Names

variable {types : List Text}

lemma steady_findClass (k : Nat) : findClass.Steady k (fun f g => g = f.moved k) where
  feed := findClass_atNames.feed
  echo := fun _ _ => (Site.Echo.lockstep k).findClass

lemma steady_findWord (k : Nat) : findWord.Steady k (fun p q => q = p.moved k) where
  feed := findWord_atNames.feed
  echo := fun _ _ => (Site.Echo.lockstep k).findWord

lemma steady_findType (k : Nat) (htypes : ∀ w ∈ types, isName w) :
    (findType types).Steady k (fun p q => q = p.moved k) where
  feed := (findType_atNames htypes).feed
  echo := fun _ _ h => (Site.Echo.lockstep k).findType h htypes

lemma steady_findFunction (k : Nat) (htypes : ∀ w ∈ types, isName w) :
    (findFunction types).Steady k (FunctionForm.Echo k) where
  feed := (findFunction_atNames htypes).feed
  echo := fun _ _ h => (Site.Echo.lockstep k).findFunction h htypes

lemma steady_findVariable (k : Nat) (htypes : ∀ w ∈ types, isName w) :
    (findVariable types).Steady k (fun f g => g = f.moved k) where
  feed := (findVariable_atNames htypes).feed
  echo := fun _ _ h => (Site.Echo.lockstep k).findVariable h htypes

end Names

/-! ### Numbers and operators -/

/-- A number further on. -/
def NumberForm.moved (k : Nat) (f : NumberForm) : NumberForm :=
  { f with piece := f.piece.moved k }

lemma markedNumber?_widened {mark digit : Char → Bool} (hmark : OneWidth mark)
    (hdigit : OneWidth digit) (h : List.Forall₂ Widened t u) :
    markedNumber? mark digit u = markedNumber? mark digit t := by
  have hzero : OneWidth (· == '0') := by decide
  match t, u, h with
  | _, _, .nil => rfl
  | _, _, .cons _ .nil => rfl
  | z :: m :: cs, z' :: m' :: cs', .cons hz (.cons hm hcs) =>
    rw [markedNumber?, markedNumber?, takeWhile_eq_of_oneWidth hdigit hcs,
      ← hz.apply hzero.widthFree, ← hm.apply hmark.widthFree]
    split
    case isFalse => rfl
    case isTrue hmarks =>
      rw [Bool.and_eq_true, Bool.and_eq_true] at hmarks
      rw [hz.eq_of_oneWidth hzero hmarks.1.1, hm.eq_of_oneWidth hmark hmarks.1.2]

lemma plainNumber?_widened (h : List.Forall₂ Widened t u) : plainNumber? u = plainNumber? t := by
  have hdigit : OneWidth isDigit := by decide
  cases h with
  | nil => rfl
  | @cons c d t u hcd h =>
    rw [plainNumber?, plainNumber?, ← hcd.apply hdigit.widthFree,
      takeWhile_eq_of_oneWidth (by decide) h]
    split
    case isTrue hc => rw [hcd.eq_of_oneWidth hdigit hc]
    case isFalse => rfl

lemma leadingNumber?_widened (h : List.Forall₂ Widened t u) :
    leadingNumber? u = leadingNumber? t := by
  rw [leadingNumber?, leadingNumber?, plainNumber?_widened h,
    markedNumber?_widened (by decide) (by decide) h,
    markedNumber?_widened (by decide) (by decide) h]

lemma steady_findNumber (k : Nat) : findNumber.Steady k (fun f g => g = f.moved k) where
  feed := by
    intro offset before t
    have hnumber : leadingNumber? ('\n' :: t) = none := by
      cases t <;> rfl
    rw [findNumber, hnumber]
    split <;> rfl
  echo := by
    intro s s' h
    rw [findNumber, findNumber, h.afterName_eq, leadingNumber?_widened h.rest]
    split
    · exact .none
    · cases leadingNumber? s.rest with
      | none => exact .none
      | some found => exact .some ⟨by rw [h.offset]; rfl, rfl⟩

/-- Operators are found in an echo, each over the same length. -/
lemma steady_findOperator (k : Nat) : findOperator.Steady k
    (fun p q => q.offset = p.offset + k ∧ q.text.length = p.text.length) where
  feed := by
    intro offset before t
    have hoperator : leadingOperator? ('\n' :: t) = none := by
      rw [leadingOperator?, List.find?_eq_none]
      intro w hw hbegin
      obtain ⟨hne, hchars⟩ := of_mem_operators hw
      obtain ⟨c, hc, hchar⟩ := charAt_of_beginning (List.isPrefixOf_iff_prefix.mp hbegin) hchars
        (List.length_pos_iff.mpr hne)
      cases hc
      cases hchar
    rw [findOperator, hoperator]
    rfl
  echo := by
    intro s s' h
    have hnarrow : s.rest.map narrow = s'.rest.map narrow := by
      have hwidth : WidthFree narrow := by decide
      have hsame := h.rest.imp fun c d hcd => hcd.apply hwidth
      rwa [← List.forall₂_eq_eq_eq, List.forall₂_map_left_iff, List.forall₂_map_right_iff]
    have hlength := length_leadingOperator? hnarrow
    rw [findOperator, findOperator]
    cases hv : leadingOperator? s.rest with
    | none =>
      rw [hv] at hlength
      rw [Option.map_eq_none_iff.mp hlength.symm]
      exact .none
    | some v =>
      rw [hv] at hlength
      obtain ⟨w, hw, hlen⟩ := Option.map_eq_some_iff.mp hlength.symm
      rw [hw]
      exact .some ⟨⟨h.offset, hlen⟩, hlen.symm⟩

/-! ### Brackets -/

lemma bracketTokensFrom_feeds (n offset : Nat) (depth : Int) (u : Text) :
    bracketTokensFrom depth offset (List.replicate n '\n' ++ u)
      = bracketTokensFrom depth (offset + n) u := by
  induction n generalizing offset with
  | zero => rfl
  | succ n ih =>
    rw [List.replicate_succ, List.cons_append, bracketTokensFrom]
    exact (ih (offset + 1)).trans (by rw [Nat.add_right_comm]; rfl)

/-- The brackets of an echo are those of the text, moved. -/
lemma bracketTokens_echo (h : Echoes k t t') :
    bracketTokens t' = (bracketTokens t).map (TokenSpan.moved k) := by
  obtain ⟨u, rfl, htu⟩ := h
  have hopen : WidthFree isOpenBracket := by decide
  have hclose : WidthFree isCloseBracket := by decide
  rw [bracketTokens, bracketTokens, bracketTokensFrom_feeds]
  generalize (0 : Int) = depth
  generalize 0 = offset
  induction htu generalizing depth offset with
  | nil => rfl
  | @cons c d t u hcd _ ih =>
    rw [bracketTokensFrom, bracketTokensFrom, ← hcd.apply hopen, ← hcd.apply hclose,
      Nat.add_right_comm]
    have hspan : ∀ type modifiers, (⟨(offset + k : Nat), 1, type, modifiers⟩ : TokenSpan)
        = TokenSpan.moved k ⟨offset, 1, type, modifiers⟩ := by
      intro type modifiers
      rw [TokenSpan.moved, Int.natCast_add]
    split
    · rw [List.map_cons, ih, hspan]
    split
    · rw [List.map_cons, ih, hspan]
    · exact ih depth (offset + 1)

/-! ### Spans and declarations -/

/-- A declaration further on. -/
def Declaration.moved (k : Nat) (d : Declaration) : Declaration :=
  { d with offset := d.offset + k, stop := d.stop + k }

/-- A classification further on. -/
def Classification.moved (k : Nat) (c : Classification) : Classification where
  tokens := c.tokens.map (·.moved k)
  classes := c.classes.map (·.moved k)
  functions := c.functions.map (·.moved k)
  bindings := c.bindings.map (·.moved k)
  access := c.access.map fun (offset, access) => (offset + k, access)

lemma ClassForm.declaration_moved (k : Nat) (f : ClassForm) :
    (f.moved k).declaration = f.declaration.moved k := by
  simp only [declaration, moved, Declaration.moved, Piece.stop_moved, Int.natCast_add]
  rfl

lemma wordToken?_moved (k : Nat) (p : Piece) :
    wordToken? (p.moved k) = (wordToken? p).map (·.moved k) := by
  simp only [wordToken?, Piece.moved_text, Piece.token_moved, apply_ite (Option.map _)]
  rfl

lemma accessChange?_moved (k : Nat) (p : Piece) :
    accessChange? (p.moved k)
      = (accessChange? p).map fun (offset, access) => (offset + k, access) := by
  simp only [accessChange?, Piece.moved_text, Piece.moved_offset, Int.natCast_add,
    apply_ite (Option.map _)]
  rfl

lemma FunctionForm.Echo.token?_eq {f g : FunctionForm} (h : f.Echo k g) :
    g.token? = f.token?.map (·.moved k) := by
  simp only [token?, h.keyword, h.name, Piece.moved_text, Piece.token_moved,
    apply_ite (Option.map _)]
  rfl

lemma FunctionForm.Echo.declaration?_eq {f g : FunctionForm} (h : f.Echo k g) :
    g.declaration? = f.declaration?.map (·.moved k) := by
  simp only [declaration?, h.keyword, h.name, h.offset, Piece.moved_text, Piece.stop_moved,
    Int.natCast_add, apply_ite (Option.map _)]
  rfl

lemma VariableForm.token?_moved (k : Nat) (reserved : List Text) (f : VariableForm) :
    (f.moved k).token? reserved = (f.token? reserved).map (·.moved k) := by
  have hname : (f.moved k).name.text = f.name.text := by
    cases f <;> rfl
  rw [token?.eq_def, token?.eq_def, hname]
  split
  · rfl
  · cases f with
    | declared type name => exact congrArg some (name.token_moved k _ _)
    | used name => exact congrArg some (name.token_moved k _ _)

lemma VariableForm.declaration?_moved (k : Nat) (reserved : List Text) (f : VariableForm) :
    (f.moved k).declaration? reserved = (f.declaration? reserved).map (·.moved k) := by
  cases f with
  | declared type name =>
    simp only [declaration?, moved, Piece.moved_text, Piece.moved_offset, Piece.stop_moved,
      Int.natCast_add, apply_ite (Option.map _)]
    rfl
  | used name => rfl

/-- An echo is classified as its text is, moved. -/
theorem classify_echo (h : Echoes k t t') : classify t' = (classify t).moved k := by
  have hclasses := (steady_findClass k).occurrences h
  have hwords := (steady_findWord k).occurrences h
  have hdeclared : (occurrences findClass t').map ClassForm.declaration
      = ((occurrences findClass t).map ClassForm.declaration).map (·.moved k) :=
    map_of_forall₂ hclasses (by rintro f _ rfl; exact f.declaration_moved k)
  -- the classes have the same names, so the later passes look for the same types
  have hnames : ((occurrences findClass t').map ClassForm.declaration).map Declaration.name
      = ((occurrences findClass t).map ClassForm.declaration).map Declaration.name := by
    rw [hdeclared, List.map_map]
    rfl
  have htypes := fun w => isName_of_mem_typeForms (w := w) fun v =>
    isName_of_mem_classNames (t := t)
  have hfunctions := (steady_findFunction k htypes).occurrences h
  have hvariables := (steady_findVariable k htypes).occurrences h
  have hclassTokens : (occurrences findClass t').map ClassForm.token
      = ((occurrences findClass t).map ClassForm.token).map (·.moved k) :=
    map_of_forall₂ hclasses (by rintro f _ rfl; exact f.name.token_moved k _ _)
  have htypeTokens := map_of_forall₂ (f := (Piece.token · .typeName)) (g := (·.moved k))
    ((steady_findType k htypes).occurrences h) (by rintro p _ rfl; exact p.token_moved k _ _)
  have hnumberTokens : (occurrences findNumber t').map NumberForm.token
      = ((occurrences findNumber t).map NumberForm.token).map (·.moved k) :=
    map_of_forall₂ ((steady_findNumber k).occurrences h)
      (by rintro f _ rfl; exact f.piece.token_moved k _ _)
  have hoperatorTokens : (occurrences findOperator t').map (Piece.token · .operator)
      = ((occurrences findOperator t).map (Piece.token · .operator)).map (·.moved k) := by
    apply map_of_forall₂ ((steady_findOperator k).occurrences h)
    rintro p q ⟨hoffset, hlength⟩
    rw [Piece.token, Piece.token, hoffset, hlength, Int.natCast_add]
    rfl
  simp only [classify, Classification.moved, List.map_append, hnames, Classification.mk.injEq]
  refine ⟨?_, hdeclared, ?_, ?_, ?_⟩
  · rw [bracketTokens_echo h, hclassTokens,
      filterMap_of_forall₂ hwords (by rintro p _ rfl; exact wordToken?_moved k p),
      filterMap_of_forall₂ hfunctions (fun f g hfg => hfg.token?_eq),
      filterMap_of_forall₂ hvariables (by rintro f _ rfl; exact f.token?_moved k _),
      htypeTokens, hnumberTokens, hoperatorTokens]
  · exact filterMap_of_forall₂ hfunctions fun f g hfg => hfg.declaration?_eq
  · exact filterMap_of_forall₂ hvariables (by rintro f _ rfl; exact f.declaration?_moved k _)
  · exact filterMap_of_forall₂ hwords (by rintro p _ rfl; exact accessChange?_moved k p)

end LazeEdit
