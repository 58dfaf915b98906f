import LazeEdit.Proofs.BlockTree.Basic
import LazeEdit.Proofs.Classification.Names
import LazeEdit.Proofs.Mask.Grammar
import LazeEdit.Scope.Build

/-!
# Reading a tree of blocks

A recogniser that finds something only where a name begins passes the marks between the names of a
tree, and goes from one line to the next. What it finds in the text of a tree is then what it finds
on each line (`Finder.ReadsLines`), by induction on the tree for any text behind it. The search for
all names finds the type and the name of each line, and the search for variables a declaration. No
class is declared, since the word for it is not among the names, and no other recogniser finds
anything, since a mark or a word that it needs does not occur.
-/

namespace LazeEdit

/-! ### Places before known text -/

lemma leadingName?_append_mark {w : Text} {c : Char} (hw : isName w) (hc : ¬ isNameChar c)
    (rest : Text) : leadingName? (w ++ c :: rest) = some w := by
  apply leadingName?_of_beginning hw (List.prefix_append w _)
  rintro ⟨d, hd, hname⟩
  rw [List.getElem?_append_right (Nat.le_refl _), Nat.sub_self] at hd
  cases hd
  exact hc hname

namespace Site

variable {s : Site} {c : Char} {cs : Text}

lemma skipBlanks_of_rest (hs : s.rest = c :: cs) (hc : ¬ isBlank c) : s.skipBlanks = s := by
  rw [skipBlanks, skipWhile, hs, List.takeWhile_cons_of_neg hc]
  rfl

lemma char?_of_rest {p : Char → Bool} (hs : s.rest = c :: cs) :
    s.char? p = if p c then some (s.advance 1) else none := by
  rw [char?]
  split
  case h_1 hnil => cases hnil.symm.trans hs
  case h_2 heq =>
    cases heq.symm.trans hs
    rfl

lemma word?_of_rest {w : Text} (hs : s.rest = w ++ cs) : s.word? w = some (s.advance w.length) := by
  rw [word?, if_pos]
  rw [hs]
  exact List.isPrefixOf_iff_prefix.mpr (List.prefix_append w cs)

lemma labelled?_of_rest {w : Text} (hs : s.rest = w ++ ':' :: c :: cs) (hc : ¬ isBlank c) :
    ∃ n, s.labelled? w = some n ∧ n.offset = s.offset + w.length + 1 ∧ n.rest = c :: cs := by
  have hbehind : (s.advance w.length).rest = ':' :: c :: cs := by
    rw [advance_rest, hs, List.drop_left]
  have hnext : ((s.advance w.length).advance 1).rest = c :: cs := by
    rw [advance_rest, hbehind]
    rfl
  refine ⟨(s.advance w.length).advance 1, ?_, ?_, hnext⟩
  · rw [labelled?, word?_of_rest hs]
    show ((s.advance w.length).skipBlanks.char? isColon).bind _ = _
    rw [skipBlanks_of_rest hbehind (by decide), char?_of_rest hbehind, if_pos (by decide)]
    exact congrArg some (skipBlanks_of_rest hnext hc)
  · rw [advance_offset, advance_offset]

end Site

/-! ### From line to line -/

section Searches

variable {α : Type} {find : Finder α} {offset : Nat} {before : Option Char} {c : Char} {cs u : Text}

lemma Finder.AtNames.pass (h : find.AtNames) (hc : ¬ isNameStart c) :
    occurrencesFrom find 0 offset before (c :: cs)
      = occurrencesFrom find 0 (offset + 1) (some c) cs := by
  rw [occurrencesFrom, h ⟨offset, before, c :: cs⟩ (if_neg hc)]

/-- Behind a find and a mark a search goes on as from the mark. -/
lemma Finder.AtNames.found {a : α} (h : find.AtNames) (hu : u ≠ [])
    (hfind : find ⟨offset, before, u ++ c :: cs⟩ = some (a, u.length)) (hc : ¬ isNameStart c) :
    occurrencesFrom find 0 offset before (u ++ c :: cs)
      = a :: occurrencesFrom find 0 (offset + u.length + 1) (some c) cs := by
  cases u with
  | nil => exact absurd rfl hu
  | cons d u =>
    obtain ⟨before', e⟩ := occurrencesFrom_skip find (offset + 1) (some d) u (c :: cs)
    rw [List.cons_append] at hfind ⊢
    rw [occurrencesFrom, hfind]
    dsimp only
    rw [List.length_cons, Nat.add_sub_cancel, e, h.pass hc]
    congr 2
    omega

/-- What is collected from the lines of a tree whose text begins at an offset. -/
def BlockTree.collect (f : Nat → TypedName → List α) (offset : Nat) : BlockTree → List α
  | done => []
  | declares v next => f offset v ++ next.collect f (offset + v.line.length)
  | block body next =>
    body.collect f (offset + 2) ++ next.collect f (offset + 2 + body.text.length + 2)

/-- A recogniser finds on each line what `f` says, and nothing between the lines. -/
structure Finder.ReadsLines (find : Finder α) (f : Nat → TypedName → List α) : Prop where
  atNames : find.AtNames
  line : ∀ (offset : Nat) {before : Option Char}, before.all (· == '\n') → ∀ (v : TypedName) rest,
    occurrencesFrom find 0 offset before (v.line ++ rest)
      = f offset v ++ occurrencesFrom find 0 (offset + v.line.length) (some '\n') rest

variable {f : Nat → TypedName → List α}

lemma Finder.ReadsLines.tree (h : find.ReadsLines f) (tree : BlockTree) (offset : Nat)
    {before : Option Char} (hbefore : before.all (· == '\n')) (rest : Text) :
    ∃ before', before'.all (· == '\n') ∧
      occurrencesFrom find 0 offset before (tree.text ++ rest)
        = tree.collect f offset
          ++ occurrencesFrom find 0 (offset + tree.text.length) before' rest := by
  have hfeed : (some '\n').all (· == '\n') := rfl
  induction tree generalizing offset before rest with
  | done => exact ⟨before, hbefore, rfl⟩
  | declares v next ih =>
    obtain ⟨before', hbefore', e⟩ := ih (offset + v.line.length) hfeed rest
    refine ⟨before', hbefore', ?_⟩
    rw [BlockTree.text, List.append_assoc, h.line offset hbefore, e, BlockTree.collect,
      List.append_assoc, List.length_append, Nat.add_assoc]
  | block body next ihBody ihNext =>
    obtain ⟨inner, _, eBody⟩ := ihBody (offset + 2) hfeed
      ('\x7d' :: '\n' :: (next.text ++ rest))
    obtain ⟨before', hbefore', eNext⟩ := ihNext (offset + 2 + body.text.length + 2) hfeed
      rest
    refine ⟨before', hbefore', ?_⟩
    rw [BlockTree.length_text_block, BlockTree.text, List.cons_append, List.cons_append,
      List.append_assoc, List.cons_append, List.cons_append, h.atNames.pass (by decide),
      h.atNames.pass (by decide), eBody, h.atNames.pass (by decide), h.atNames.pass (by decide),
      eNext, BlockTree.collect, List.append_assoc]
    simp only [Nat.add_assoc]

/-- The finds in a document that is a tree are those on its lines. -/
lemma Finder.ReadsLines.occurrences (h : find.ReadsLines f) (tree : BlockTree) :
    occurrences find tree.text = tree.collect f 0 := by
  have hstart : (none : Option Char).all (· == '\n') := rfl
  obtain ⟨before', _, e⟩ := h.tree tree 0 hstart []
  rw [List.append_nil] at e
  exact e.trans (List.append_nil _)

end Searches

/-! ### What is found on a line -/

namespace TypedName

variable (v : TypedName)

lemma line_append (rest : Text) :
    v.line ++ rest = v.type ++ ':' :: (v.name ++ ';' :: '\n' :: rest) := by
  rw [line, List.append_assoc, List.cons_append, List.append_assoc]
  rfl

lemma length_line : v.line.length = v.type.length + 1 + v.name.length + 2 := by
  rw [line, List.length_append, List.length_cons, List.length_append]
  show v.type.length + (v.name.length + 2 + 1) = _
  omega

lemma type_ne_nil : v.type ≠ [] :=
  fun h => absurd (h ▸ v.isName_type) (by decide)

lemma name_ne_nil : v.name ≠ [] :=
  fun h => absurd (h ▸ v.named) (by decide)

end TypedName

lemma findWord_readsLines : findWord.ReadsLines fun offset v =>
    [⟨offset, v.type⟩, ⟨offset + v.type.length + 1, v.name⟩] := by
  have hnames := findWord_atNames
  have hword : ∀ {w : Text} {c : Char} {offset : Nat} {before : Option Char} {rest : Text},
      isName w → w ≠ [] → ¬ isNameChar c →
      occurrencesFrom findWord 0 offset before (w ++ c :: rest)
        = ⟨offset, w⟩ :: occurrencesFrom findWord 0 (offset + w.length + 1) (some c) rest := by
    intro w c offset before rest hw hne hc
    apply hnames.found hne
    · rw [findWord, leadingName?_append_mark hw hc]
      rfl
    · exact fun hstart => hc (isNameChar_of_isNameStart hstart)
  refine ⟨hnames, ?_⟩
  intro offset before _ v rest
  have hnext : offset + v.line.length
      = offset + v.type.length + 1 + v.name.length + 1 + 1 := by
    rw [v.length_line]
    omega
  rw [v.line_append, hword v.isName_type v.type_ne_nil (by decide),
    hword v.named v.name_ne_nil (by decide), hnames.pass (by decide), hnext]
  rfl

section Variables

variable {types : List Text} {s : Site} {rest : Text}

lemma findVariable_line {v : TypedName} (htypes : ∀ w ∈ types, isName w) (hmem : v.type ∈ types)
    (hbefore : s.before.all (· == '\n'))
    (hs : s.rest = v.type ++ ':' :: (v.name ++ ';' :: rest)) :
    findVariable types s = some (.declared ⟨s.offset, v.type⟩
      ⟨s.offset + v.type.length + 1, v.name⟩, (v.type ++ ':' :: v.name).length) := by
  have hseparator : s.before.all isSeparator := by
    cases hb : s.before with
    | none => rfl
    | some c =>
      rw [hb] at hbefore
      obtain rfl : c = '\n' := beq_iff_eq.mp hbefore
      decide
  obtain ⟨c, cs, hname⟩ := List.exists_cons_of_ne_nil v.name_ne_nil
  have hblank : ¬ isBlank c := fun h =>
    not_isNameChar_of_isBlank h (isNameChar_of_mem_name v.named c (hname ▸ List.mem_cons_self))
  obtain ⟨n, hlabel, hoffset, hrest⟩ : ∃ n, s.labelled? v.type = some n ∧
      n.offset = s.offset + v.type.length + 1 ∧ n.rest = v.name ++ ';' :: rest := by
    rw [hname] at hs ⊢
    exact Site.labelled?_of_rest hs hblank
  have hfree : (n.advance v.name.length).skipBlanks.char? isOpenParen = none := by
    have hbehind : (n.advance v.name.length).rest = ';' :: rest := by
      rw [Site.advance_rest, hrest, List.drop_left]
    rw [Site.skipBlanks_of_rest hbehind (by decide), Site.char?_of_rest hbehind]
    exact if_neg (by decide)
  have hlength : s.offset + v.type.length + 1 + v.name.length - s.offset
      = (v.type ++ ':' :: v.name).length := by
    rw [List.length_append, List.length_cons]
    omega
  have hdeclared : findDeclared types s = some (.declared ⟨s.offset, v.type⟩
      ⟨s.offset + v.type.length + 1, v.name⟩, (v.type ++ ':' :: v.name).length) := by
    rw [findDeclared, if_pos hseparator]
    apply findSome?_of_unique hmem
    · rw [hlabel]
      show (leadingName? n.rest).bind _ = _
      rw [hrest, leadingName?_append_mark v.named (by decide), Option.bind_some, hfree]
      show some (VariableForm.declared _ ⟨n.offset, v.name⟩, n.offset + _ - s.offset) = _
      rw [hoffset, hlength]
    · intro w hw hne
      cases hother : s.labelled? w with
      | none => rfl
      | some n =>
        -- a label is the whole name at its place
        have hlead := Site.leadingName?_of_labelled? (htypes w hw) hother
        rw [hs, leadingName?_append_mark v.isName_type (by decide)] at hlead
        exact absurd (Option.some.inj hlead).symm hne
  rw [findVariable, hdeclared]
  rfl

lemma findVariable_readsLines (htypes : ∀ w ∈ types, isName w)
    (hall : ∀ w ∈ builtinTypeForms, w ∈ types) :
    (findVariable types).ReadsLines fun offset v =>
      [.declared ⟨offset, v.type⟩ ⟨offset + v.type.length + 1, v.name⟩] := by
  have hnames := findVariable_atNames htypes
  refine ⟨hnames, ?_⟩
  intro offset before hbefore v rest
  have hfind : findVariable types ⟨offset, before, v.type ++ ':' :: v.name ++ ';' :: '\n' :: rest⟩
      = some (.declared ⟨offset, v.type⟩ ⟨offset + v.type.length + 1, v.name⟩,
        (v.type ++ ':' :: v.name).length) := by
    apply findVariable_line htypes (hall _ v.typed) hbefore
    rw [List.append_assoc]
    rfl
  have hline : v.line ++ rest = v.type ++ ':' :: v.name ++ ';' :: '\n' :: rest := by
    rw [v.line_append, List.append_assoc]
    rfl
  have hnext : offset + v.line.length = offset + (v.type ++ ':' :: v.name).length + 1 + 1 := by
    rw [v.length_line, List.length_append, List.length_cons]
    omega
  rw [hline, hnames.found (List.append_ne_nil_of_left_ne_nil v.type_ne_nil _) hfind (by decide),
    hnames.pass (by decide), hnext]
  rfl

end Variables

/-! ### What is not found -/

section Absent

variable {tree : BlockTree}

lemma not_charAt_text {p : Char → Bool} (hp : ∀ c, p c → ¬ isTreeChar c) (i : Nat) :
    ¬ CharAt tree.text p i := by
  rintro ⟨c, hc, hpc⟩
  exact hp c hpc (isTreeChar_of_mem_text (List.mem_of_getElem? hc))

lemma not_isTreeChar_of_isOpenParen (c : Char) (h : isOpenParen c) : ¬ isTreeChar c := by
  rw [isOpenParen, Bool.or_eq_true, beq_iff_eq, beq_iff_eq] at h
  obtain rfl | rfl := h <;> decide

lemma occurrences_eq_nil {α : Type} {find : Finder α} {t : Text}
    (h : ∀ s, s.In t → find s = none) : occurrences find t = [] := by
  apply List.eq_nil_iff_forall_not_mem.mpr
  intro a ha
  obtain ⟨o, n, hf⟩ := mem_occurrences.mp ha
  cases hf.finds.symm.trans (h _ (Site.ofOffset_in t o))

lemma not_isTreeChar_of_opens (q : Quote) (c : Char) (h : q.opens c) : ¬ isTreeChar c := by
  cases q with
  | char =>
    rw [Quote.opens, Bool.or_eq_true, Bool.or_eq_true, beq_iff_eq, beq_iff_eq, beq_iff_eq] at h
    obtain (rfl | rfl) | rfl := h <;> decide
  | string =>
    rw [Quote.opens, Bool.or_eq_true, Bool.or_eq_true, beq_iff_eq, beq_iff_eq, beq_iff_eq] at h
    obtain (rfl | rfl) | rfl := h <;> decide
  | quoted =>
    obtain rfl : c = '「' := beq_iff_eq.mp h
    decide

lemma maskText_text (tree : BlockTree) : maskText tree.text = tree.text := by
  apply (maskText_of_plain ?_).1
  intro i
  have hchar : ∀ {c : Char}, (tree.text.drop i).head? = some c → isTreeChar c := fun hc =>
    isTreeChar_of_mem_text (List.mem_of_mem_drop (List.mem_of_head? hc))
  have hslash : ∀ d : Char, ¬ ['/', d] <+: tree.text.drop i := by
    rintro d ⟨rest, e⟩
    exact absurd (hchar (e ▸ rfl)) (by decide : ¬ isTreeChar '/')
  refine leadingRegion?_eq_none.mpr ⟨hslash '/', hslash '*', ?_⟩
  intro c hc
  cases hquote : Quote.ofOpening? c with
  | none => rfl
  | some q =>
    rw [Quote.ofOpening?] at hquote
    have hopens := List.find?_some hquote
    exact absurd (hchar hc) (not_isTreeChar_of_opens q c hopens)

lemma functions_text (types : List Text) : occurrences (findFunction types) tree.text = [] := by
  apply occurrences_eq_nil
  intro s hs
  cases hfind : findFunction types s with
  | none => rfl
  | some found =>
    obtain ⟨i, hi⟩ := (findFunction_eq_some hs hfind).charAt
    exact absurd hi (not_charAt_text not_isTreeChar_of_isOpenParen i)

lemma loopEvents_text : loopEvents tree.text = [] := by
  have hloops : occurrences findLoop tree.text = [] := by
    apply occurrences_eq_nil
    intro s hs
    rw [findLoop, Site.clause?]
    cases hopen : s.char? isOpenParen with
    | none => rfl
    | some inner =>
      exact absurd (hs.charAt_of_char? hopen) (not_charAt_text not_isTreeChar_of_isOpenParen _)
  rw [loopEvents, hloops]
  rfl

lemma repeatEvents_text : repeatEvents tree.text = [] := by
  have hrepeats : occurrences findRepeat tree.text = [] := by
    apply occurrences_eq_nil
    intro s hs
    rw [findRepeat]
    cases hword : s.word? repeatWord with
    | none => rfl
    | some behind =>
      have hbegin := (Site.word?_eq_some hword).1
      rw [hs.rest] at hbegin
      exact absurd (hbegin.isInfix.trans (List.drop_suffix _ _).isInfix)
        (repeatWord_absent tree)
  rw [repeatEvents, hrepeats]
  rfl

lemma mem_collect {α : Type} {f : Nat → TypedName → List α} {a : α} {offset : Nat}
    (h : a ∈ tree.collect f offset) : ∃ o v, a ∈ f o v := by
  induction tree generalizing offset with
  | done => cases h
  | declares v next ih =>
    obtain h | h := List.mem_append.mp h
    · exact ⟨offset, v, h⟩
    · exact ih h
  | block body next ihBody ihNext =>
    obtain h | h := List.mem_append.mp h
    · exact ihBody h
    · exact ihNext h

/-- No name of a tree is a control word or keyword. -/
lemma not_reserved_of_mem_words {p : Piece} (h : p ∈ occurrences findWord tree.text) :
    p.text ∉ controlForms ++ keywordForms := by
  have htypes : ∀ w ∈ builtinTypeForms, w ∉ controlForms ++ keywordForms := by decide
  rw [findWord_readsLines.occurrences] at h
  obtain ⟨o, v, h⟩ := mem_collect h
  obtain rfl | h := List.mem_cons.mp h
  · exact htypes v.type v.typed
  · obtain rfl := List.mem_singleton.mp h
    exact fun hmem => v.free (List.mem_append_left _ hmem)

lemma classes_text : occurrences findClass tree.text = [] := by
  apply occurrences_eq_nil
  intro s hs
  rw [findClass]
  split
  case isTrue => rfl
  case isFalse hafter =>
    cases hlabel : s.labelled? classWord with
    | none => rfl
    | some n =>
      have hlead := Site.leadingName?_of_labelled? (by decide) hlabel
      have hkeyword : classWord ∈ controlForms ++ keywordForms := by decide
      have hword := mem_words_of_leadingName? hs hafter hlead
      exact absurd hkeyword (not_reserved_of_mem_words hword)

lemma access_text : (occurrences findWord tree.text).filterMap accessChange? = [] := by
  apply List.filterMap_eq_nil_iff.mpr
  intro p hp
  have hne : ∀ w ∈ controlForms ++ keywordForms, p.text ≠ w := fun w hw e =>
    not_reserved_of_mem_words hp (e ▸ hw)
  rw [accessChange?, if_neg (hne privateWord (by decide)), if_neg (hne publicWord (by decide))]

end Absent

/-! ### The declarations of a document -/

/-- The declaration of a variable whose line begins at an offset. -/
def TypedName.declaration (offset : Nat) (v : TypedName) : Declaration :=
  ⟨v.name, (offset + v.type.length + 1 : Nat), (offset + v.type.length + 1 + v.name.length : Nat),
    some v.type⟩

/-- The declarations of a tree whose text begins at an offset. -/
def BlockTree.declarations (offset : Nat) (tree : BlockTree) : List Declaration :=
  tree.collect (fun o v => [v.declaration o]) offset

lemma filterMap_collect {α β : Type} {f : Nat → TypedName → List α} {g : α → Option β}
    (tree : BlockTree) (offset : Nat) :
    (tree.collect f offset).filterMap g
      = tree.collect (fun o v => (f o v).filterMap g) offset := by
  induction tree generalizing offset with
  | done => rfl
  | declares v next ih => rw [BlockTree.collect, List.filterMap_append, ih, BlockTree.collect]
  | block body next ihBody ihNext =>
    rw [BlockTree.collect, List.filterMap_append, ihBody, ihNext, BlockTree.collect]

section Classified

variable (tree : BlockTree)

lemma classes_classify : (classify tree.text).classes = [] := by
  show (occurrences findClass tree.text).map ClassForm.declaration = []
  rw [classes_text]
  rfl

lemma functions_classify : (classify tree.text).functions = [] := by
  show (occurrences (findFunction _) tree.text).filterMap FunctionForm.declaration? = []
  rw [functions_text]
  rfl

lemma bindings_classify : (classify tree.text).bindings = tree.declarations 0 := by
  show (occurrences (findVariable (typeForms (classify tree.text).classNames)) tree.text).filterMap
    (VariableForm.declaration? (reservedForms (classify tree.text).classNames)) = _
  rw [Classification.classNames, classes_classify, List.map_nil]
  have htypes : ∀ w, w ∈ typeForms [] ↔ w ∈ builtinTypeForms := by
    intro w
    rw [mem_typeForms, List.append_nil]
  have hreads := findVariable_readsLines
    (fun w hw => isName_of_mem_builtinTypeForms ((htypes w).mp hw)) fun w => (htypes w).mpr
  rw [hreads.occurrences, filterMap_collect, BlockTree.declarations]
  congr
  funext o v
  have hfree : v.name ∉ reservedForms [] := by
    rw [reservedForms, List.mem_eraseDups, List.append_nil]
    exact v.free
  exact List.filterMap_cons_some (if_neg fun h => hfree (List.contains_iff_mem.mp h))

/-- The events of a tree before they are put in order are those of its braces and those of its
declarations. -/
lemma innerEvents_text : innerEvents tree.text (classify tree.text)
    = braceEventsFrom 0 tree.text ++ (tree.declarations 0).map (·.event .value) := by
  have haccess : (classify tree.text).access = [] := access_text
  rw [innerEvents, Classification.events, classes_classify, functions_classify, bindings_classify,
    haccess, loopEvents_text, repeatEvents_text]
  simp only [List.map_nil, List.nil_append, List.flatMap_nil, List.append_nil]

end Classified

end LazeEdit
