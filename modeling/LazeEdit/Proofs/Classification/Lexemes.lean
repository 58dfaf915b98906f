import LazeEdit.Proofs.Classification.Words
import LazeEdit.Proofs.Lexicon.Operators
import LazeEdit.Proofs.Token.Merge

/-!
# Lexemes

Every span that classification gives is a lexeme of the text: a bracket, a word, a number or an
operator (`onLexeme_of_mem_tokens`). The characters of a lexeme are of one kind and not blank.
Two lexemes that share an offset are the same stretch of text (`Lexeme.eq_of_overlap`): they are of
one kind, and inside a kind only words and numbers could meet. A number stands behind no name
character, and a word that begins like a number does not either, so that these never meet at all.
-/

namespace LazeEdit

/-! ### Numbers -/

/-- A number between two offsets of a text. -/
structure NumberAt (t : Text) (a b : Nat) : Prop where
  lt : a < b
  begins : CharAt t isDigit a
  alone : 0 < a → ¬ CharAt t isNameChar (a - 1)
  digits : (∀ i, a ≤ i → i < b → CharAt t isMarkedDigit i) ∨
    ∀ i, a ≤ i → i < b → CharAt t isPlainDigit i

/-- What a number with a base mark says, when the mark and the digits are those of such numbers. -/
lemma markedNumber?_spec {mark digit : Char → Bool} {t w : Text}
    (hmark : ∀ c, mark c → isMarkedDigit c) (hdigit : ∀ c, digit c → isMarkedDigit c)
    (h : markedNumber? mark digit t = some w) :
    w <+: t ∧ 0 < w.length ∧ CharAt t isDigit 0 ∧ ∀ c ∈ w, isMarkedDigit c := by
  unfold markedNumber? at h
  split at h
  case h_2 => cases h
  case h_1 z m cs =>
    dsimp only at h
    split at h
    case isFalse => cases h
    case isTrue hz =>
      cases h
      rw [Bool.and_eq_true, Bool.and_eq_true, beq_iff_eq] at hz
      obtain ⟨⟨rfl, hm⟩, _⟩ := hz
      refine ⟨?_, Nat.succ_pos _, ⟨'0', rfl, by decide⟩, ?_⟩
      · exact (List.prefix_append_right_inj ['0', m]).mpr (List.takeWhile_prefix digit)
      · intro c hc
        obtain rfl | hc := List.mem_cons.mp hc
        · decide
        obtain rfl | hc := List.mem_cons.mp hc
        · exact hmark _ hm
        · exact hdigit c (List.mem_takeWhile_imp hc)

/-- What a number without a base mark says. -/
lemma plainNumber?_spec {t w : Text} (h : plainNumber? t = some w) :
    w <+: t ∧ 0 < w.length ∧ CharAt t isDigit 0 ∧ ∀ c ∈ w, isPlainDigit c := by
  cases t with
  | nil => cases h
  | cons c cs =>
    rw [plainNumber?] at h
    split at h
    case isFalse => cases h
    case isTrue hc =>
      cases h
      refine ⟨?_, Nat.succ_pos _, ⟨c, rfl, hc⟩, ?_⟩
      · exact List.cons_prefix_cons.mpr ⟨rfl, List.takeWhile_prefix _⟩
      · intro d hd
        obtain rfl | hd := List.mem_cons.mp hd
        · rw [isPlainDigit, hc]
          rfl
        · exact List.mem_takeWhile_imp hd

/-- What a leading number says. -/
lemma leadingNumber?_spec {t w : Text} {base : Base} (h : leadingNumber? t = some (base, w)) :
    w <+: t ∧ 0 < w.length ∧ CharAt t isDigit 0 ∧
      ((∀ c ∈ w, isMarkedDigit c) ∨ ∀ c ∈ w, isPlainDigit c) := by
  have marked : ∀ {mark digit : Char → Bool}, (∀ c, mark c → isMarkedDigit c) →
      (∀ c, digit c → isMarkedDigit c) → markedNumber? mark digit t = some w →
      w <+: t ∧ 0 < w.length ∧ CharAt t isDigit 0 ∧
        ((∀ c ∈ w, isMarkedDigit c) ∨ ∀ c ∈ w, isPlainDigit c) := by
    intro mark digit hmark hdigit h
    obtain ⟨hbegin, hpos, hstart, hall⟩ := markedNumber?_spec hmark hdigit h
    exact ⟨hbegin, hpos, hstart, .inl hall⟩
  obtain h | h := eq_some_or_of_orElse h
  · obtain ⟨v, hv, e⟩ := Option.map_eq_some_iff.mp h
    cases e
    refine marked ?_ ?_ hv <;> intro c hc <;>
      rw [Bool.or_eq_true, beq_iff_eq, beq_iff_eq] at hc <;> obtain rfl | rfl := hc <;> decide
  obtain h | h := eq_some_or_of_orElse h
  · obtain ⟨v, hv, e⟩ := Option.map_eq_some_iff.mp h
    cases e
    refine marked ?_ ?_ hv
    · intro c hc
      rw [Bool.or_eq_true, beq_iff_eq, beq_iff_eq] at hc
      obtain rfl | rfl := hc <;> decide
    · intro c hc
      rw [isMarkedDigit, hc]
      rfl
  · obtain ⟨v, hv, e⟩ := Option.map_eq_some_iff.mp h
    cases e
    obtain ⟨hbegin, hpos, hstart, hall⟩ := plainNumber?_spec hv
    exact ⟨hbegin, hpos, hstart, .inr hall⟩

/-- What the search for numbers finds is a number. -/
lemma Found.numberAt {t : Text} {f : NumberForm} {a n : Nat} (h : Found findNumber t f a n) :
    f.piece.offset = a ∧ f.piece.text.length = n ∧ NumberAt t a (a + n) := by
  have hfind := h.finds
  have hin := Site.ofOffset_in t a
  have ho := Site.ofOffset_offset h.inside.le
  rw [findNumber] at hfind
  split at hfind
  case isTrue => cases hfind
  case isFalse hafter =>
    obtain ⟨⟨base, w⟩, hw, e⟩ := Option.map_eq_some_iff.mp hfind
    cases e
    obtain ⟨hbegin, hpos, hstart, hall⟩ := leadingNumber?_spec hw
    have hchars : ∀ {p : Char → Bool}, (∀ c ∈ w, p c) → ∀ i, a ≤ i → i < a + w.length →
        CharAt t p i := by
      intro p hp i hai hib
      obtain ⟨k, rfl⟩ := Nat.exists_eq_add_of_le hai
      have hat := (hin.charAt_rest p k).mp (charAt_of_beginning hbegin hp (by omega))
      rwa [ho] at hat
    refine ⟨ho, rfl, by omega, ?_, ?_, hall.imp hchars hchars⟩
    · have hat := (hin.charAt_rest isDigit 0).mp hstart
      rwa [ho] at hat
    · intro ha
      have hpred := hin.not_charAt_pred hafter
      rw [ho] at hpred
      exact hpred ha

/-- A number and a word share no offset. -/
lemma NumberAt.not_overlap_word {t : Text} {a b a' b' i : Nat} (h : NumberAt t a b)
    (h' : WordAt t a' b') (hi : a ≤ i ∧ i < b) (hi' : a' ≤ i ∧ i < b') : False := by
  obtain hlt | rfl | hlt := Nat.lt_trichotomy a' a
  · -- the number would stand behind a character of the word
    exact h.alone (by omega) (h'.names (a - 1) (by omega) (by omega))
  · obtain ⟨c, hdigit, hstart⟩ := h.begins.both h'.begins
    apply not_isPlainDigit_of_isNameStart hstart
    rw [isPlainDigit, hdigit]
    rfl
  · obtain hdigits | hdigits := h.digits
    · -- the word would begin like a number and stand behind a character of it
      apply h'.clear (hdigits a' (by omega) (by omega)) (by omega)
      exact (hdigits (a' - 1) (by omega) (by omega)).imp fun c => isNameChar_of_isMarkedDigit
    · obtain ⟨c, hdigit, hstart⟩ := (hdigits a' (by omega) (by omega)).both h'.begins
      exact not_isPlainDigit_of_isNameStart hstart hdigit

/-! ### Operators -/

/-- What the search for operators finds is not empty and made of the characters of operators. -/
lemma Found.operatorAt {t : Text} {p : Piece} {a n : Nat} (h : Found findOperator t p a n) :
    p.offset = a ∧ p.text.length = n ∧ 0 < n ∧
      ∀ i, a ≤ i → i < a + n → CharAt t isOperatorChar i := by
  obtain ⟨w, hw, e⟩ := Option.map_eq_some_iff.mp h.finds
  cases e
  have hin := Site.ofOffset_in t a
  have ho := Site.ofOffset_offset h.inside.le
  obtain ⟨hmem, hbegin⟩ := leadingOperator?_spec hw
  obtain ⟨hne, hall⟩ := of_mem_operators hmem
  refine ⟨ho, rfl, List.length_pos_iff.mpr hne, ?_⟩
  intro i hai hib
  obtain ⟨k, rfl⟩ := Nat.exists_eq_add_of_le hai
  have hat := (hin.charAt_rest isOperatorChar k).mp (charAt_of_beginning hbegin hall (by omega))
  rwa [ho] at hat

/-! ### Lexemes -/

/-- A lexeme of a kind between two offsets of a text. -/
inductive Lexeme (t : Text) : CharKind → Nat → Nat → Prop where
  | bracket {a : Nat} :
    CharAt t isBracket a →
    Lexeme t .bracket a (a + 1)
  | word {a b : Nat} :
    WordAt t a b →
    Lexeme t .solid a b
  | number {f : NumberForm} {a n : Nat} :
    Found findNumber t f a n →
    Lexeme t .solid a (a + n)
  | operator {p : Piece} {a n : Nat} :
    Found findOperator t p a n →
    Lexeme t .operator a (a + n)

namespace Lexeme

/-- A lexeme is not empty. -/
lemma lt {t : Text} {k : CharKind} {a b : Nat} (h : Lexeme t k a b) : a < b := by
  cases h with
  | bracket => exact Nat.lt_succ_self a
  | word hw => exact hw.lt
  | number hf => exact hf.numberAt.2.2.lt
  | operator hf =>
    have := hf.operatorAt.2.2.1
    omega

/-- A lexeme is not blank. -/
lemma ne_blank {t : Text} {k : CharKind} {a b : Nat} (h : Lexeme t k a b) : k ≠ .blank := by
  cases h <;> exact CharKind.noConfusion

/-- The characters of a lexeme are of its kind. -/
lemma charAt {t : Text} {k : CharKind} {a b i : Nat} (h : Lexeme t k a b) (hi : a ≤ i ∧ i < b) :
    CharAt t (fun c => charKind c = k) i := by
  cases h with
  | bracket hb =>
    obtain rfl : i = a := by omega
    exact hb.imp fun c hc => decide_eq_true (charKind_of_isBracket hc)
  | word hw =>
    exact (hw.names i hi.1 hi.2).imp fun c hc => decide_eq_true (charKind_of_isNameChar hc)
  | number hf =>
    obtain hdigits | hdigits := hf.numberAt.2.2.digits
    · exact (hdigits i hi.1 hi.2).imp fun c hc =>
        decide_eq_true (charKind_of_isNameChar (isNameChar_of_isMarkedDigit hc))
    · exact (hdigits i hi.1 hi.2).imp fun c hc => decide_eq_true (charKind_of_isPlainDigit hc)
  | operator hf =>
    exact (hf.operatorAt.2.2.2 i hi.1 hi.2).imp fun c hc =>
      decide_eq_true (charKind_of_isOperatorChar hc)

/-- A lexeme ends inside the text. -/
lemma le_length {t : Text} {k : CharKind} {a b : Nat} (h : Lexeme t k a b) : b ≤ t.length := by
  have hlt := h.lt
  have := (h.charAt (i := b - 1) (by omega)).lt_length
  omega

/-- Two lexemes that share an offset are the same. -/
lemma eq_of_overlap {t : Text} {k k' : CharKind} {a b a' b' i : Nat} (h : Lexeme t k a b)
    (h' : Lexeme t k' a' b') (hi : a ≤ i ∧ i < b) (hi' : a' ≤ i ∧ i < b') : a = a' ∧ b = b' := by
  obtain ⟨c, hc, hc'⟩ := (h.charAt hi).both (h'.charAt hi')
  obtain rfl : k = k' := (of_decide_eq_true hc).symm.trans (of_decide_eq_true hc')
  cases h with
  | bracket hb =>
    cases h' with
    | bracket hb' => omega
  | word hw =>
    cases h' with
    | word hw' => exact hw.eq_of_overlap hw' hi hi'
    | number hf' => exact (hf'.numberAt.2.2.not_overlap_word hw hi' hi).elim
  | number hf =>
    cases h' with
    | word hw' => exact (hf.numberAt.2.2.not_overlap_word hw' hi hi').elim
    | number hf' =>
      obtain ⟨rfl, rfl⟩ := hf.eq_of_overlap hf' hi hi'
      exact ⟨rfl, rfl⟩
  | operator hf =>
    cases h' with
    | operator hf' =>
      obtain ⟨rfl, rfl⟩ := hf.eq_of_overlap hf' hi hi'
      exact ⟨rfl, rfl⟩

end Lexeme

/-! ### Spans -/

/-- A span stands on a lexeme of a text. -/
def TokenSpan.OnLexeme (t : Text) (s : TokenSpan) : Prop :=
  ∃ k a b, s.At a b ∧ Lexeme t k a b

/-- The span of a piece stands where the piece does. -/
lemma Piece.token_at (p : Piece) (type : TokenType) (modifiers : Modifiers) :
    (p.token type modifiers).At p.offset p.stop :=
  ⟨rfl, rfl⟩

/-- The span of a word stands on a lexeme. -/
lemma Piece.IsWord.onLexeme {t : Text} {p : Piece} (h : p.IsWord t) (type : TokenType)
    (modifiers : Modifiers) : (p.token type modifiers).OnLexeme t :=
  ⟨.solid, p.offset, p.stop, p.token_at type modifiers, .word h⟩

/-- The spans of the brackets of the rest of a text stand on its brackets. -/
lemma exists_of_mem_bracketTokensFrom {rest : Text} {depth : Int} {offset : Nat} {s : TokenSpan}
    (h : s ∈ bracketTokensFrom depth offset rest) :
    ∃ i, CharAt rest isBracket i ∧ s.At (offset + i) (offset + i + 1) := by
  induction rest generalizing depth offset with
  | nil => cases h
  | cons c cs ih =>
    have later : ∀ {depth : Int}, s ∈ bracketTokensFrom depth (offset + 1) cs →
        ∃ i, CharAt (c :: cs) isBracket i ∧ s.At (offset + i) (offset + i + 1) := by
      intro depth h
      obtain ⟨i, hi, hat⟩ := ih h
      refine ⟨i + 1, hi, ?_⟩
      rwa [Nat.add_right_comm offset 1 i] at hat
    rw [bracketTokensFrom] at h
    split at h
    case isTrue hopen =>
      obtain rfl | h := List.mem_cons.mp h
      · exact ⟨0, ⟨c, rfl, by rw [isBracket, hopen]; rfl⟩, rfl, rfl⟩
      · exact later h
    case isFalse =>
      split at h
      case isTrue hclose =>
        obtain rfl | h := List.mem_cons.mp h
        · exact ⟨0, ⟨c, rfl, by rw [isBracket, hclose, Bool.or_true]⟩, rfl, rfl⟩
        · exact later h
      case isFalse => exact later h

/-- The spans of brackets are of the kinds of scopes. -/
lemma type_of_mem_bracketTokensFrom {rest : Text} {depth : Int} {offset : Nat} {s : TokenSpan}
    (h : s ∈ bracketTokensFrom depth offset rest) : ∃ turn, s.type = .scope turn := by
  induction rest generalizing depth offset with
  | nil => cases h
  | cons c cs ih =>
    rw [bracketTokensFrom] at h
    split at h
    · obtain rfl | h := List.mem_cons.mp h
      · exact ⟨_, rfl⟩
      · exact ih h
    split at h
    · obtain rfl | h := List.mem_cons.mp h
      · exact ⟨_, rfl⟩
      · exact ih h
    · exact ih h

/-- The span of a bracket stands on a lexeme. -/
lemma onLexeme_of_mem_bracketTokens {t : Text} {s : TokenSpan} (h : s ∈ bracketTokens t) :
    s.OnLexeme t := by
  obtain ⟨i, hi, hat⟩ := exists_of_mem_bracketTokensFrom h
  rw [Nat.zero_add] at hat
  exact ⟨.bracket, i, i + 1, hat, .bracket hi⟩

/-- The span of a control word or keyword stands on a lexeme. -/
lemma onLexeme_of_wordToken? {t : Text} {p : Piece} {s : TokenSpan}
    (hp : p ∈ occurrences findWord t) (h : wordToken? p = some s) : s.OnLexeme t := by
  obtain ⟨a, n, hf⟩ := mem_occurrences.mp hp
  have hword : p.text ∈ controlForms ++ keywordForms → p.IsWord t := by
    intro hmem
    apply hf.isWord
    rintro ⟨c, hc, hdigit⟩
    obtain ⟨_, _, hname⟩ := hf.leadingName?
    obtain ⟨hbegin, hpos, _⟩ := leadingName?_spec hname
    have hin := Site.ofOffset_in t a
    have hget := List.prefix_iff_getElem?.mp hbegin 0 hpos
    rw [hin.rest, Site.ofOffset_offset hf.inside.le, List.getElem?_drop, Nat.add_zero, hc] at hget
    cases htext : p.text with
    | nil =>
      rw [htext] at hpos
      cases hpos
    | cons d ds =>
      rw [htext] at hmem
      simp only [htext, List.getElem_cons_zero, Option.some.injEq] at hget
      exact head_of_mem_forms hmem (hget ▸ hdigit)
  rw [wordToken?] at h
  split at h
  case isTrue hcontrol =>
    cases h
    exact (hword (List.mem_append_left _ (List.contains_iff_mem.mp hcontrol))).onLexeme _ _
  case isFalse =>
    split at h
    case isTrue hkeyword =>
      cases h
      exact (hword (List.mem_append_right _ (List.contains_iff_mem.mp hkeyword))).onLexeme _ _
    case isFalse => cases h

/-- The span of the name of a function stands on a lexeme. -/
lemma onLexeme_of_functionToken? {t : Text} {types : List Text} {f : FunctionForm} {s : TokenSpan}
    (hf : f ∈ occurrences (findFunction types) t) (h : f.token? = some s) : s.OnLexeme t := by
  obtain ⟨a, n, hfound⟩ := mem_occurrences.mp hf
  have hword := isWord_of_findFunction (Site.ofOffset_in t a) hfound.finds
  rw [FunctionForm.token?] at h
  split at h
  case isTrue => cases h
  case isFalse =>
    split at h
    · cases h
      exact hword.onLexeme _ _
    · cases h
      exact hword.onLexeme _ _

/-- The span of the name of a variable stands on a lexeme. -/
lemma onLexeme_of_variableToken? {t : Text} {types reserved : List Text} {f : VariableForm}
    {s : TokenSpan} (hf : f ∈ occurrences (findVariable types) t)
    (h : f.token? reserved = some s) : s.OnLexeme t := by
  obtain ⟨a, n, hfound⟩ := mem_occurrences.mp hf
  have hword := isWord_of_findVariable (Site.ofOffset_in t a) hfound.finds
  unfold VariableForm.token? at h
  split at h
  case isTrue => cases h
  case isFalse =>
    cases f with
    | declared type name =>
      cases h
      exact hword.onLexeme _ _
    | used name =>
      cases h
      exact hword.onLexeme _ _

lemma mem_typeForms {classNames : List Text} {w : Text} :
    w ∈ typeForms classNames ↔ w ∈ builtinTypeForms ++ classNames := by
  rw [typeForms, sortLongerFirst, List.mem_mergeSort, List.mem_eraseDups]

/-- The types that a document without classes may name. -/
lemma typeForms_nil :
    typeForms [] = [['整', '数', '3', '2'], ['文', '字', '列'], ['実', '数'], ['整', '数'],
      ['文', '字'], ['真', '偽'], ['無']] := by
  rw [typeForms, sortLongerFirst, mergeSort_eq_foldr longerFirst_trans longerFirst_total]
  decide

/-- The types that a document may name are names. -/
lemma isName_of_mem_typeForms {classNames : List Text} (h : ∀ w ∈ classNames, isName w) {w : Text}
    (hw : w ∈ typeForms classNames) : isName w := by
  obtain hw | hw := List.mem_append.mp (mem_typeForms.mp hw)
  · exact isName_of_mem_builtinTypeForms hw
  · exact h w hw

/-- The names of the classes of a document are names. -/
lemma isName_of_mem_classNames {t w : Text}
    (h : w ∈ ((occurrences findClass t).map ClassForm.declaration).map Declaration.name) :
    isName w := by
  obtain ⟨d, hd, rfl⟩ := List.mem_map.mp h
  obtain ⟨f, hf, rfl⟩ := List.mem_map.mp hd
  obtain ⟨a, n, hfound⟩ := mem_occurrences.mp hf
  exact (isWord_of_findClass (Site.ofOffset_in t a) hfound.finds).2

/-- Every span that classification gives stands on a lexeme. -/
lemma onLexeme_of_mem_tokens {t : Text} {s : TokenSpan} (h : s ∈ (classify t).tokens) :
    s.OnLexeme t := by
  simp only [classify, List.mem_append, or_assoc] at h
  obtain h | h | h | h | h | h | h | h := h
  · exact onLexeme_of_mem_bracketTokens h
  · obtain ⟨f, hf, rfl⟩ := List.mem_map.mp h
    obtain ⟨a, n, hfound⟩ := mem_occurrences.mp hf
    exact (isWord_of_findClass (Site.ofOffset_in t a) hfound.finds).1.onLexeme _ _
  · obtain ⟨p, hp, h⟩ := List.mem_filterMap.mp h
    exact onLexeme_of_wordToken? hp h
  · obtain ⟨f, hf, h⟩ := List.mem_filterMap.mp h
    exact onLexeme_of_functionToken? hf h
  · obtain ⟨f, hf, h⟩ := List.mem_filterMap.mp h
    exact onLexeme_of_variableToken? hf h
  · obtain ⟨p, hp, rfl⟩ := List.mem_map.mp h
    obtain ⟨a, n, hfound⟩ := mem_occurrences.mp hp
    have htypes := fun w => isName_of_mem_typeForms (w := w) fun v =>
      isName_of_mem_classNames (t := t)
    exact (isWord_of_findType htypes (Site.ofOffset_in t a) hfound.finds).onLexeme _ _
  · obtain ⟨f, hf, rfl⟩ := List.mem_map.mp h
    obtain ⟨a, n, hfound⟩ := mem_occurrences.mp hf
    obtain ⟨rfl, rfl, _⟩ := hfound.numberAt
    exact ⟨.solid, _, _, f.piece.token_at _ _, .number hfound⟩
  · obtain ⟨p, hp, rfl⟩ := List.mem_map.mp h
    obtain ⟨a, n, hfound⟩ := mem_occurrences.mp hp
    obtain ⟨rfl, rfl, _⟩ := hfound.operatorAt
    exact ⟨.operator, _, _, p.token_at _ _, .operator hfound⟩

end LazeEdit
