import LazeEdit.Proofs.Analysis.Tokens
import LazeEdit.Proofs.Classification.Names
import LazeEdit.Proofs.Scope.Declarations

/-!
# Declarations

An analysis tells the declarations of a document twice, by its events and by its highlighted spans,
and the two agree (`analyze_declarations`). The events come from the classification and are sorted;
that keeps the declarations in their order. The spans are merged, and a span could be lost to one
of its range. `LaterPass` says what the passes behind those of brackets and classes give. No other
span on the name of a declared variable ranks as high: such a name is neither reserved nor called
(`eq_nameToken`). The name of a class may be a keyword, whose span has the same rank, but the spans
of classes are given before those of the later passes, and merging keeps the first
(`not_pair_sublist`).
-/

namespace LazeEdit

variable {t : Text} {s k : TokenSpan}

/-! ### Where spans come from -/

/-- What the passes behind those of brackets and classes give: the spans of words, functions,
variables, types, numbers and operators. -/
inductive LaterPass (t : Text) : TokenSpan → Prop where
  | word {p : Piece} {type : TokenType} :
    p.In t →
    p.text ∈ controlForms ++ keywordForms →
    type = .control ∨ type = .keyword →
    LaterPass t (p.token type)
  | functionName {p : Piece} {type : TokenType} {modifiers : Modifiers} :
    Called t p.stop →
    type = .builtin ∨ type = .functionName →
    LaterPass t (p.token type modifiers)
  | variableName {f : VariableForm} {s : TokenSpan} :
    f ∈ occurrences (findVariable (typeForms (classify t).classNames)) t →
    f.token? (reservedForms (classify t).classNames) = some s →
    LaterPass t s
  | typeName {p : Piece} :
    p.In t →
    p.text ∈ typeForms (classify t).classNames →
    LaterPass t (p.token .typeName)
  | number {f : NumberForm} :
    LaterPass t f.token
  | operator {p : Piece} :
    LaterPass t (p.token .operator)

lemma laterPass_of_wordToken? {p : Piece} (hp : p ∈ occurrences findWord t)
    (h : wordToken? p = some s) : LaterPass t s := by
  obtain ⟨a, n, hf⟩ := mem_occurrences.mp hp
  obtain ⟨rfl, _, hname⟩ := hf.leadingName?
  have hin := (Site.ofOffset_in t p.offset).nameIn hname
  rw [Site.ofOffset_offset hf.inside.le] at hin
  rw [wordToken?] at h
  split at h
  case isTrue hcontrol =>
    cases h
    exact .word hin (List.mem_append_left _ (List.contains_iff_mem.mp hcontrol)) (.inl rfl)
  case isFalse =>
    split at h
    case isTrue hkeyword =>
      cases h
      exact .word hin (List.mem_append_right _ (List.contains_iff_mem.mp hkeyword)) (.inr rfl)
    case isFalse => cases h

lemma laterPass_of_functionToken? {types : List Text} {f : FunctionForm}
    (hf : f ∈ occurrences (findFunction types) t) (h : f.token? = some s) :
    LaterPass t s := by
  obtain ⟨a, n, hfound⟩ := mem_occurrences.mp hf
  have hcalled := findFunction_eq_some (Site.ofOffset_in t a) hfound.finds
  rw [FunctionForm.token?] at h
  split at h
  case isTrue => cases h
  case isFalse =>
    split at h
    · cases h
      exact .functionName hcalled (.inl rfl)
    · cases h
      exact .functionName hcalled (.inr rfl)

/-- The spans of a classification are those of the brackets, then those of the classes, and then
those of the later passes. -/
lemma exists_laterPasses (t : Text) : ∃ later, (∀ s ∈ later, LaterPass t s) ∧
    (classify t).tokens
      = bracketTokens t ++ (occurrences findClass t).map ClassForm.token ++ later := by
  refine ⟨?later, ?passes, ?tokens⟩
  case tokens =>
    simp only [classify, List.append_assoc]
    rfl
  intro s h
  simp only [List.mem_append] at h
  obtain h | h | h | h | h | h := h
  · obtain ⟨p, hp, h⟩ := List.mem_filterMap.mp h
    exact laterPass_of_wordToken? hp h
  · obtain ⟨f, hf, h⟩ := List.mem_filterMap.mp h
    exact laterPass_of_functionToken? hf h
  · obtain ⟨f, hf, h⟩ := List.mem_filterMap.mp h
    exact .variableName hf h
  · obtain ⟨p, hp, rfl⟩ := List.mem_map.mp h
    obtain ⟨a, n, hfound⟩ := mem_occurrences.mp hp
    obtain ⟨hin, htype⟩ := findType_eq_some (Site.ofOffset_in t a) hfound.finds
    exact .typeName hin htype
  · obtain ⟨f, _, rfl⟩ := List.mem_map.mp h
    exact .number
  · obtain ⟨p, _, rfl⟩ := List.mem_map.mp h
    exact .operator

lemma pass_of_mem_tokens (h : s ∈ (classify t).tokens) :
    (∃ turn, s.type = .scope turn) ∨ (∃ f ∈ occurrences findClass t, f.token = s) ∨
      LaterPass t s := by
  obtain ⟨later, hlater, e⟩ := exists_laterPasses t
  rw [e, List.append_assoc] at h
  obtain h | h := List.mem_append.mp h
  · exact .inl (type_of_mem_bracketTokensFrom h)
  obtain h | h := List.mem_append.mp h
  · exact .inr (.inl (List.mem_map.mp h))
  · exact .inr (.inr (hlater s h))

/-! ### The order of declarations -/

lemma Found.className {f : ClassForm} {o n : Nat} (h : Found findClass t f o n) :
    f.name.In t ∧ f.offset = o ∧ o ≤ f.name.offset ∧ f.name.stop = o + n ∧
      f.name.offset < f.name.stop := by
  have hin := Site.ofOffset_in t o
  have hfind := findClass_eq_some hin h.finds
  rw [Site.ofOffset_offset h.inside.le] at hfind
  obtain ⟨hname, hoffset, hle, hstop⟩ := hfind
  exact ⟨hname, hoffset, hle, hstop, (isWord_of_findClass hin h.finds).1.lt⟩

lemma classForms_pairwise (t : Text) : (occurrences findClass t).Pairwise
    (fun f g => f.offset ≤ g.offset ∧ f.name.stop ≤ g.name.offset) := by
  apply occurrences_pairwise
  intro f g o n o' n' hf hg hlt hle
  obtain ⟨_, hoffset, _, hstop, _⟩ := hf.className
  obtain ⟨_, hoffset', hle', _, _⟩ := hg.className
  omega

section Variables

variable {types reserved : List Text} {f g : VariableForm}

lemma variableForms_pairwise (t : Text) (types : List Text) :
    (occurrences (findVariable types) t).Pairwise (fun f g => f.name.stop ≤ g.name.offset) := by
  apply occurrences_pairwise
  intro f g o n o' n' hf hg _ hle
  have hstop := hf.variableName.1.stop
  have hstart := hg.variableName.1.le
  omega

/-- The span of the name of a declared variable. -/
def Declaration.nameToken (d : Declaration) : TokenSpan :=
  ⟨d.offset, d.name.length, .variableName, .only .declaration⟩

/-- Whether a span is that of the name of a declared variable. -/
def TokenSpan.isDeclaredVariable (s : TokenSpan) : Bool :=
  s.type = .variableName && s.modifiers.has .declaration

lemma declaration?_eq_some {d : Declaration} (h : f.declaration? reserved = some d) :
    ∃ type name, f = .declared type name ∧ name.text ∉ reserved ∧
      d = ⟨name.text, name.offset, name.stop, some type.text⟩ := by
  cases f with
  | used name => cases h
  | declared type name =>
    rw [VariableForm.declaration?] at h
    split at h
    case isTrue => cases h
    case isFalse hfree =>
      cases h
      exact ⟨type, name, rfl, fun hmem => hfree (List.contains_iff_mem.mpr hmem), rfl⟩

lemma token?_of_declaration? {d : Declaration} (h : f.declaration? reserved = some d) :
    f.token? reserved = some d.nameToken := by
  obtain ⟨type, name, rfl, hfree, rfl⟩ := declaration?_eq_some h
  exact if_neg fun hmem => hfree (List.contains_iff_mem.mp hmem)

lemma exists_declaration? (h : f.token? reserved = some s) (hs : s.isDeclaredVariable) :
    ∃ d, f.declaration? reserved = some d ∧ d.nameToken = s := by
  unfold VariableForm.token? at h
  split at h
  case isTrue => cases h
  case isFalse hfree =>
    cases f with
    | used name =>
      cases h
      have hnone : Modifiers.none.has .declaration = false := by decide
      change (_ && Modifiers.none.has .declaration) = true at hs
      rw [hnone, Bool.and_false] at hs
      cases hs
    | declared type name =>
      cases h
      exact ⟨_, if_neg hfree, rfl⟩

end Variables

lemma bindings_pairwise (t : Text) :
    (classify t).bindings.Pairwise (fun d e => d.nameToken.stop ≤ e.nameToken.start) := by
  apply (variableForms_pairwise t _).filterMap
  intro f g hle d hd e he
  obtain ⟨_, name, rfl, _, rfl⟩ := declaration?_eq_some hd
  obtain ⟨_, name', rfl, _, rfl⟩ := declaration?_eq_some he
  exact Int.ofNat_le.mpr hle

/-! ### The kinds of spans -/

/-- The kinds of the spans that the later passes give. -/
def laterTypes : List TokenType :=
  [.control, .keyword, .builtin, .functionName, .variableName, .typeName, .number, .operator]

lemma LaterPass.type_mem (h : LaterPass t s) : s.type ∈ laterTypes := by
  cases h with
  | word _ _ hword => obtain rfl | rfl := hword <;> simp [Piece.token, laterTypes]
  | functionName _ hfunction => obtain rfl | rfl := hfunction <;> simp [Piece.token, laterTypes]
  | variableName _ htoken => simp [(token?_eq_some htoken).2, laterTypes]
  | typeName => simp [Piece.token, laterTypes]
  | number => simp [NumberForm.token, Piece.token, laterTypes]
  | operator => simp [Piece.token, laterTypes]

lemma LaterPass.type_ne (h : LaterPass t s) : s.type ≠ .className := by
  intro e
  exact absurd (e ▸ h.type_mem) (by decide)

lemma LaterPass.rank_pos (h : LaterPass t s) : 0 < s.type.rank := by
  have hpos : ∀ type ∈ laterTypes, 0 < type.rank := by decide
  exact hpos s.type h.type_mem

lemma type_of_mem_maskTokens (h : s ∈ maskTokens t (maskSpans t)) :
    s.type = .comment ∨ s.type = .string ∨ s.type = .char := by
  obtain ⟨m, _, _, _, _, _, _, _, htype, _⟩ :=
    (maskSpans_ordered t).source.exists_of_mem_maskTokens h
  rw [htype]
  rcases m.kind with _ | _ | ⟨_ | _ | _, _⟩ <;> simp [MaskKind.tokenType]

/-! ### What merging keeps -/

lemma Piece.of_sameRange {p q : Piece} {type type' : TokenType} {ms ms' : Modifiers}
    (h : (p.token type ms).SameRange (q.token type' ms')) :
    p.offset = q.offset ∧ p.text.length = q.text.length :=
  ⟨Int.ofNat.inj h.1, Int.ofNat.inj h.2⟩

/-- What shares its range with a span of the classification is a span of the classification. -/
lemma mem_tokens_of_sameRange (hk : k ∈ passSpans t) (hs : s ∈ (classify (maskText t)).tokens)
    (h : k.SameRange s) : k ∈ (classify (maskText t)).tokens := by
  obtain hk | hk := List.mem_append.mp hk
  · have hproper := proper_of_mem_passSpans (List.mem_append_right _ hs)
    have hcov := TokenSpan.covers_start hproper.2
    exact (not_covers_of_onLexeme hk (onLexeme_of_mem_tokens hs)
      ((h.covers_iff s.start).mpr hcov) hcov).elim
  · exact hk

/-- No span has the range of the name of a declared variable and ranks as high. -/
lemma eq_nameToken {d : Declaration} (hd : d ∈ (classify t).bindings)
    (hk : k ∈ (classify t).tokens) (hsame : k.SameRange d.nameToken)
    (hrank : k.type.rank ≤ d.nameToken.type.rank) : k = d.nameToken := by
  obtain ⟨f, hf, hd⟩ := List.mem_filterMap.mp hd
  have htoken := token?_of_declaration? hd
  obtain ⟨type, name, rfl, hfree, rfl⟩ := declaration?_eq_some hd
  obtain ⟨o, n, hfound⟩ := mem_occurrences.mp hf
  have hreads := hfound.variableName.1
  change k.SameRange (name.token .variableName (.only .declaration)) at hsame
  change k.type.rank ≤ 4 at hrank
  have hreserved : ∀ {p : Piece} {type : TokenType}, p.In t →
      (p.token type).SameRange (name.token .variableName (.only .declaration)) →
      p.text ∉ controlForms ++ keywordForms ++ builtinTypeForms ++ (classify t).classNames := by
    intro p type hp hsame hmem
    obtain ⟨hoffset, hlen⟩ := Piece.of_sameRange hsame
    rw [hp.text_eq hreads.name hoffset hlen] at hmem
    exact hfree (List.mem_eraseDups.mpr hmem)
  obtain ⟨turn, hturn⟩ | ⟨g, hg, rfl⟩ | hlater := pass_of_mem_tokens hk
  · rw [hturn] at hrank
    change 7 ≤ 4 at hrank
    omega
  · obtain ⟨_, _, hg'⟩ := mem_occurrences.mp hg
    refine absurd (List.mem_append_right _ ?_) (hreserved hg'.className.1 hsame)
    exact List.mem_map_of_mem (List.mem_map_of_mem hg)
  cases hlater with
  | word hp hmem =>
    exact absurd (List.mem_append_left _ (List.mem_append_left _ hmem)) (hreserved hp hsame)
  | @functionName p _ _ hcalled =>
    obtain ⟨hoffset, hlen⟩ := Piece.of_sameRange hsame
    rw [Piece.stop, hoffset, hlen] at hcalled
    exact absurd hcalled (hreads.free type name rfl)
  | @variableName g _ hg hgtoken =>
    have hstart := (token?_eq_some hgtoken).1.symm.trans hsame.1
    obtain rfl := variableForm_eq hg hf (Int.ofNat.inj hstart)
    exact Option.some.inj (hgtoken.symm.trans htoken)
  | typeName hp hmem =>
    rw [mem_typeForms] at hmem
    refine absurd ?_ (hreserved hp hsame)
    rw [List.append_assoc]
    exact List.mem_append_right _ hmem
  | number =>
    change 5 ≤ 4 at hrank
    omega
  | operator =>
    change 6 ≤ 4 at hrank
    omega

lemma mem_tokens_of_mem_bindings {d : Declaration} (hd : d ∈ (classify t).bindings) :
    d.nameToken ∈ (classify t).tokens := by
  obtain ⟨f, hf, hd⟩ := List.mem_filterMap.mp hd
  simp only [classify, List.mem_append]
  exact .inl (.inl (.inl (.inr (List.mem_filterMap.mpr ⟨f, hf, token?_of_declaration? hd⟩))))

lemma Declaration.isDeclaredVariable_nameToken (d : Declaration) :
    d.nameToken.isDeclaredVariable := by
  have hhas : (Modifiers.only .declaration).has .declaration = true := by decide
  show (true && (Modifiers.only .declaration).has .declaration) = true
  rw [hhas, Bool.true_and]

/-- A span that an analysis keeps is that of a comment or literal, or comes from the
classification. -/
lemma mem_tokens_of_rank_ne (h : s ∈ (analyze t).tokens) (hrank : s.type.rank ≠ 0) :
    s ∈ (classify (maskText t)).tokens := by
  obtain hmask | h := List.mem_append.mp (mem_of_mem_mergeSpans h)
  · obtain e | e | e := type_of_mem_maskTokens hmask <;> exact absurd (by rw [e]; rfl) hrank
  · exact h

/-- An analysis keeps the span of the name of a declared variable. -/
lemma nameToken_mem_analyze {d : Declaration} (hd : d ∈ (classify (maskText t)).bindings) :
    d.nameToken ∈ (analyze t).tokens := by
  have htoken := mem_tokens_of_mem_bindings hd
  have hpass : d.nameToken ∈ passSpans t := List.mem_append_right _ htoken
  obtain ⟨k, hk, hsame, hrank⟩ :=
    (passSpans_aligned t).exists_kept hpass (proper_of_mem_passSpans hpass)
  have hktoken := mem_tokens_of_sameRange (mem_of_mem_mergeSpans hk) htoken hsame
  rw [← eq_nameToken hd hktoken hsame hrank]
  exact hk

/-- Only the variable pass gives spans of declared variables. -/
lemma exists_binding (hs : s ∈ (classify t).tokens) (hdeclared : s.isDeclaredVariable) :
    ∃ d ∈ (classify t).bindings, d.nameToken = s := by
  have htype : s.type = .variableName := of_decide_eq_true (Bool.and_eq_true_iff.mp hdeclared).1
  obtain ⟨turn, hturn⟩ | ⟨g, hg, rfl⟩ | hlater := pass_of_mem_tokens hs
  · cases htype.symm.trans hturn
  · cases htype
  cases hlater with
  | word _ _ hword => obtain rfl | rfl := hword <;> cases htype
  | functionName _ hfunction => obtain rfl | rfl := hfunction <;> cases htype
  | variableName hf htoken =>
    obtain ⟨d, hd, rfl⟩ := exists_declaration? htoken hdeclared
    exact ⟨d, List.mem_filterMap.mpr ⟨_, hf, hd⟩, rfl⟩
  | typeName => cases htype
  | number => cases htype
  | operator => cases htype

/-- Spans that stand one behind the other and are the kept ones of a sort are all of these. -/
lemma filter_tokens_eq {p : TokenSpan → Bool} {us : List TokenSpan}
    (hus : us.Pairwise (fun a b => a.stop ≤ b.start))
    (h : ∀ s, s ∈ (analyze t).tokens ∧ p s ↔ s ∈ us) : (analyze t).tokens.filter p = us := by
  apply TokenSpan.eq_of_mem_iff ((mergeSpans_pairwise _).filter _) hus
  · intro s hs
    exact (proper_of_mem_passSpans (mem_of_mem_mergeSpans (List.mem_filter.mp hs).1)).2
  · intro s
    rw [List.mem_filter]
    exact h s

/-- The spans of declared variables that an analysis keeps are those of all declared variables. -/
lemma filter_tokens_bindings (t : Text) :
    (analyze t).tokens.filter TokenSpan.isDeclaredVariable
      = (classify (maskText t)).bindings.map Declaration.nameToken := by
  apply filter_tokens_eq (List.pairwise_map.mpr (bindings_pairwise _))
  intro s
  rw [List.mem_map]
  constructor
  · rintro ⟨hs, hdeclared⟩
    have htype : s.type = .variableName := of_decide_eq_true (Bool.and_eq_true_iff.mp hdeclared).1
    exact exists_binding (mem_tokens_of_rank_ne hs (by rw [htype]; decide)) hdeclared
  · rintro ⟨d, hd, rfl⟩
    exact ⟨nameToken_mem_analyze hd, d.isDeclaredVariable_nameToken⟩

/-- The spans of classes stand before those of the later passes. -/
lemma not_pair_sublist {f : ClassForm} (hk : LaterPass (maskText t) k) :
    ¬ [k, f.token].Sublist (passSpans t) := by
  intro h
  obtain ⟨later, hlater, e⟩ := exists_laterPasses (maskText t)
  rw [passSpans, e, ← List.append_assoc] at h
  obtain ⟨left, right, hpair, hleft, hright⟩ := List.sublist_append_iff.mp h
  cases left with
  | nil =>
    have hmem : f.token ∈ right := by
      rw [← List.nil_append right, ← hpair]
      exact List.mem_cons_of_mem k List.mem_cons_self
    exact (hlater _ (hright.subset hmem)).type_ne rfl
  | cons u us =>
    obtain rfl : k = u := (List.cons.inj hpair).1
    have hmem := hleft.subset List.mem_cons_self
    rw [← List.append_assoc, List.mem_append, List.mem_append] at hmem
    obtain (hmask | hbracket) | hclass := hmem
    · have hpos := hk.rank_pos
      obtain e | e | e := type_of_mem_maskTokens hmask <;> rw [e] at hpos <;> cases hpos
    · obtain ⟨turn, e⟩ := type_of_mem_bracketTokensFrom hbracket
      have hmem := hk.type_mem
      rw [e] at hmem
      simp [laterTypes] at hmem
    · obtain ⟨g, _, rfl⟩ := List.mem_map.mp hclass
      exact hk.type_ne rfl

lemma mem_tokens_of_mem_classForms {f : ClassForm} (hf : f ∈ occurrences findClass t) :
    f.token ∈ (classify t).tokens := by
  obtain ⟨later, _, e⟩ := exists_laterPasses t
  rw [e]
  exact List.mem_append_left _ (List.mem_append_right _ (List.mem_map_of_mem hf))

/-- An analysis keeps the span of the name of a class, also when the name is a keyword. -/
lemma token_mem_analyze {f : ClassForm} (hf : f ∈ occurrences findClass (maskText t)) :
    f.token ∈ (analyze t).tokens := by
  have htoken := mem_tokens_of_mem_classForms hf
  have hpass : f.token ∈ passSpans t := List.mem_append_right _ htoken
  obtain hmem | ⟨k, hk, hsame, hbefore⟩ :=
    (passSpans_aligned t).kept_or_earlier hpass (proper_of_mem_passSpans hpass)
  · exact hmem
  have hprec := List.pairwise_pair.mp ((mergeSort_pairwise _).sublist hbefore)
  have hrank : k.type.rank ≤ 1 := TokenSpan.rank_le_of_precedes hprec hsame.1
  have hktoken := mem_tokens_of_sameRange (mem_of_mem_mergeSpans hk) htoken hsame
  obtain ⟨turn, hturn⟩ | ⟨g, hg, rfl⟩ | hlater := pass_of_mem_tokens hktoken
  · rw [hturn] at hrank
    change 7 ≤ 1 at hrank
    omega
  · have e : g.token = f.token := TokenSpan.mk.injEq .. ▸ ⟨hsame.1, hsame.2, rfl, rfl⟩
    rw [← e]
    exact hk
  · -- of spans that tie, the one that is given first is considered first
    have htie : f.token.type.rank = k.type.rank := Nat.le_antisymm hlater.rank_pos hrank
    have hback : f.token.precedes k :=
      TokenSpan.precedes_iff.mpr (.inr ⟨hsame.1.symm, .inr ⟨htie, hsame.2.le⟩⟩)
    exact absurd (pair_sublist_of_mergeSort hprec hback hbefore) (not_pair_sublist hlater)

/-- The spans of classes that an analysis keeps are those of all classes. -/
lemma filter_tokens_classes (t : Text) :
    (analyze t).tokens.filter (·.type = .className)
      = (occurrences findClass (maskText t)).map ClassForm.token := by
  have hpairwise : ((occurrences findClass (maskText t)).map ClassForm.token).Pairwise
      (fun a b => a.stop ≤ b.start) :=
    List.pairwise_map.mpr ((classForms_pairwise _).imp fun h => Int.ofNat_le.mpr h.2)
  apply filter_tokens_eq hpairwise
  intro s
  rw [List.mem_map, decide_eq_true_iff]
  constructor
  · rintro ⟨hs, htype⟩
    have hs := mem_tokens_of_rank_ne hs (by rw [htype]; decide)
    obtain ⟨turn, hturn⟩ | hclass | hlater := pass_of_mem_tokens hs
    · cases htype.symm.trans hturn
    · exact hclass
    · exact absurd htype hlater.type_ne
  · rintro ⟨f, hf, rfl⟩
    exact ⟨token_mem_analyze hf, rfl⟩

/-! ### The declarations of a document -/

lemma spanText_of_pieceIn {p : Piece} {type : TokenType} {modifiers : Modifiers}
    (hp : p.In (maskText t)) (h : p.token type modifiers ∈ (classify (maskText t)).tokens) :
    (analyze t).spanText (p.token type modifiers) = p.text := by
  have hpos : 0 < p.text.length := Int.ofNat_lt.mp
    (proper_of_mem_passSpans (List.mem_append_right (maskTokens t (maskSpans t)) h)).2
  exact (spanText_of_onLexeme (onLexeme_of_mem_tokens h)).1.trans (hp.slice_eq hpos)

lemma spanText_nameToken {d : Declaration} (hd : d ∈ (classify (maskText t)).bindings) :
    (analyze t).spanText d.nameToken = d.name := by
  have htoken := mem_tokens_of_mem_bindings hd
  obtain ⟨f, hf, hd⟩ := List.mem_filterMap.mp hd
  obtain ⟨type, name, rfl, _, rfl⟩ := declaration?_eq_some hd
  obtain ⟨_, _, hfound⟩ := mem_occurrences.mp hf
  exact spanText_of_pieceIn hfound.variableName.1.name htoken

lemma spanText_classToken {f : ClassForm} (hf : f ∈ occurrences findClass (maskText t)) :
    (analyze t).spanText f.token = f.name.text := by
  obtain ⟨_, _, hfound⟩ := mem_occurrences.mp hf
  exact spanText_of_pieceIn hfound.className.1 (mem_tokens_of_mem_classForms hf)

lemma filter_events_bindings (t : Text) :
    (analyze t).events.filter (·.isDeclaration .value)
      = (classify (maskText t)).bindings.map (·.event .value) := by
  refine (filter_scopeEvents ?_).trans filter_events_value
  rw [filter_events_value, List.pairwise_map]
  apply (bindings_pairwise _).imp
  intro d e hle
  change d.offset + (d.name.length : Int) ≤ e.offset at hle
  change d.offset ≤ e.offset
  omega

lemma filter_events_classes (t : Text) :
    (analyze t).events.filter (·.isDeclaration .classType)
      = (classify (maskText t)).classes.map (·.plainEvent .classType) := by
  refine (filter_scopeEvents ?_).trans filter_events_classType
  rw [filter_events_classType, List.pairwise_map]
  apply List.pairwise_map.mpr
  exact (classForms_pairwise _).imp fun h => Int.ofNat_le.mpr h.1

/-- The events and the highlighted spans of a document tell the same declarations. The declared
variables are those of the spans that are marked so, in their order, with the offset and the text of
the span; the classes are the texts of the spans of classes and the names that the events declare.
-/
theorem analyze_declarations (t : Text) :
    ((analyze t).events.filter (·.isDeclaration .value)).map (fun e => (e.offset, e.name))
      = ((analyze t).tokens.filter TokenSpan.isDeclaredVariable).map
        (fun s => (s.start, (analyze t).spanText s)) ∧
    (analyze t).classes
      = ((analyze t).tokens.filter (·.type = .className)).map (analyze t).spanText ∧
    (analyze t).classes
      = ((analyze t).events.filter (·.isDeclaration .classType)).map ScopeEvent.name := by
  refine ⟨?_, ?_, ?_⟩
  · rw [filter_events_bindings, filter_tokens_bindings, List.map_map, List.map_map]
    apply List.map_congr_left
    intro d hd
    exact congrArg (Prod.mk d.offset) (spanText_nameToken hd).symm
  · rw [filter_tokens_classes, List.map_map]
    show ((occurrences findClass (maskText t)).map ClassForm.declaration).map Declaration.name = _
    rw [List.map_map]
    apply List.map_congr_left
    exact fun f hf => (spanText_classToken hf).symm
  · rw [filter_events_classes, List.map_map]
    rfl

end LazeEdit
