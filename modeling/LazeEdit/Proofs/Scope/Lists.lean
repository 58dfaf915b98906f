import LazeEdit.Mask.Segment
import LazeEdit.Proofs.Classification.Runs
import LazeEdit.Proofs.Scope.Bounds

/-!
# Lists in parentheses

A list in parentheses ends at the first closing parenthesis of its line behind which what is to
follow it does follow (`ListEnd`). The parameters of a function are to be followed by an arrow and
its results, and when no closing parenthesis of the line is, by anything (`ParametersEnd`).

The search does not count parentheses. It stops at the end of a list inside the parameters when the
line has no arrow, and runs over the end of the parameters when the first arrow of the line stands
behind something else. So parameters end at the parenthesis that matches the opening one just when
that is where the search stops (`parameters_end_iff`).
-/

namespace LazeEdit

variable {t : Text} {s : Site} {a b : Nat}

/-! ### Matching parentheses -/

/-- No closing parenthesis stands without an opening one before it, and none stays open. -/
def ParensBalanced (w : Text) : Prop :=
  (∀ n ≤ w.length, (w.take n).countP isCloseParen ≤ (w.take n).countP isOpenParen) ∧
    w.countP isCloseParen = w.countP isOpenParen

instance (w : Text) : Decidable (ParensBalanced w) :=
  inferInstanceAs (Decidable (_ ∧ _))

/-- The closing parenthesis at `b` matches the opening one at `a`. -/
structure ParensMatch (t : Text) (a b : Nat) : Prop where
  lt : a < b
  opening : CharAt t isOpenParen a
  closing : CharAt t isCloseParen b
  inside : ParensBalanced ((t.take b).drop (a + 1))

/-- The characters strictly between two offsets. -/
lemma exists_mem_between_iff {p : Char → Bool} :
    (∃ c ∈ (t.take b).drop (a + 1), p c) ↔ ∃ i, a < i ∧ i < b ∧ CharAt t p i := by
  constructor
  · rintro ⟨c, hc, hpc⟩
    obtain ⟨j, hj⟩ := List.getElem?_of_mem hc
    rw [List.getElem?_drop] at hj
    have hlt : a + 1 + j < b := by
      have hlen := (List.getElem?_eq_some_iff.mp hj).1
      rw [List.length_take] at hlen
      omega
    rw [List.getElem?_take_of_lt hlt] at hj
    exact ⟨a + 1 + j, by omega, hlt, c, hj, hpc⟩
  · rintro ⟨i, ha, hb, c, hc, hpc⟩
    obtain ⟨j, rfl⟩ := Nat.exists_eq_add_of_le ha
    refine ⟨c, List.mem_of_getElem? (i := j) ?_, hpc⟩
    rw [List.getElem?_drop, List.getElem?_take_of_lt hb, hc]

/-- When no closing parenthesis stands between two that match, no opening one does. -/
lemma ParensMatch.not_open (h : ParensMatch t a b)
    (hclose : ∀ i, a < i → i < b → ¬ CharAt t isCloseParen i) {i : Nat} (ha : a < i) (hb : i < b) :
    ¬ CharAt t isOpenParen i := by
  have hzero : ((t.take b).drop (a + 1)).countP isCloseParen = 0 := by
    rw [List.countP_eq_zero]
    intro c hc hclosing
    obtain ⟨i, ha, hb, hi⟩ := exists_mem_between_iff.mp ⟨c, hc, hclosing⟩
    exact hclose i ha hb hi
  intro hopen
  obtain ⟨c, hc, hopening⟩ := exists_mem_between_iff.mpr ⟨i, ha, hb, hopen⟩
  rw [h.inside.2, List.countP_eq_zero] at hzero
  exact hzero c hc hopening

/-! ### Ends of lists -/

/-- A list in parentheses that ends on the line on which it begins. -/
structure ParenList (t : Text) (a b : Nat) : Prop where
  opening : CharAt t isOpenParen a
  closing : CharAt t isCloseParen b
  piece : LinePiece t a b

/-- The list that opens at `a` ends at `b`: at the first closing parenthesis of its line behind which
`ahead` holds. -/
structure ListEnd (t : Text) (ahead : Nat → Prop) (a b : Nat) : Prop where
  list : ParenList t a b
  follows : ahead (b + 1)
  first : ∀ q, a < q → q < b → CharAt t isCloseParen q → ¬ ahead (q + 1)

lemma ParensMatch.list (h : ParensMatch t a b) (hline : LinePiece t a b) : ParenList t a b :=
  ⟨h.opening, h.closing, hline⟩

/-- A list has one end. -/
lemma ListEnd.unique {ahead : Nat → Prop} {c : Nat} (h : ListEnd t ahead a b)
    (h' : ListEnd t ahead a c) : b = c := by
  obtain hlt | heq | hlt := Nat.lt_trichotomy b c
  · exact absurd h.follows (h'.first b h.list.piece.lt hlt h.list.closing)
  · exact heq
  · exact absurd h'.follows (h.first c h'.list.piece.lt hlt h'.list.closing)

namespace Site

variable {α : Type} {k : Site → Option α} {x : α} {P : Nat → Prop}

/-- A search for the end of a list stops where the list ends. -/
lemma listEnd_of_searchLine (ha : CharAt t isOpenParen a)
    (e : (ofOffset t (a + 1)).searchLine isCloseParen k = some x)
    (hk : ∀ q, CharAt t isCloseParen q → ((k (ofOffset t q)).isSome ↔ P (q + 1))) :
    ∃ b, ListEnd t P a b ∧ k (ofOffset t b) = some x := by
  obtain ⟨b, hle, hb, hline, hkb, hfirst⟩ := (ofOffset_in t (a + 1)).first_of_searchLine e
  rw [ofOffset_offset ha.lt_length] at hle hline hfirst
  refine ⟨b, ⟨⟨ha, hb, hle, Nat.le_of_lt hb.lt_length, ?_⟩, ?_, ?_⟩, hkb⟩
  · intro i hi hlt
    obtain rfl | hi := Nat.eq_or_lt_of_le hi
    · obtain ⟨c, hc, hopen⟩ := ha
      rw [hc]
      rintro ⟨⟩
      cases hopen
    · exact hline i hi hlt
  · rw [← hk b hb, hkb]
    rfl
  · intro q haq hqb hq hahead
    rw [← hk q hq, hfirst q haq hqb hq] at hahead
    cases hahead

/-- A search that finds no end of a list passes none. -/
lemma not_ahead_of_searchLine (ha : CharAt t isOpenParen a)
    (e : (ofOffset t (a + 1)).searchLine isCloseParen k = none)
    (hk : ∀ q, CharAt t isCloseParen q → ((k (ofOffset t q)).isSome ↔ P (q + 1)))
    (hb : ParenList t a b) : ¬ P (b + 1) := by
  have hoffset : (ofOffset t (a + 1)).offset = a + 1 := ofOffset_offset ha.lt_length
  have hnone := (ofOffset_in t (a + 1)).eq_none_of_searchLine e
    (by rw [hoffset]; exact hb.piece.lt) hb.closing
    (fun i hi hlt => hb.piece.line i (by omega) hlt)
  rw [← hk b hb.closing, hnone]
  exact Bool.false_ne_true

/-- A search for the end of a list finds one just when there is one. -/
lemma isSome_searchLine_iff (ha : CharAt t isOpenParen a)
    (hk : ∀ q, CharAt t isCloseParen q → ((k (ofOffset t q)).isSome ↔ P (q + 1))) :
    ((ofOffset t (a + 1)).searchLine isCloseParen k).isSome ↔
      ∃ b, ParenList t a b ∧ P (b + 1) := by
  cases e : (ofOffset t (a + 1)).searchLine isCloseParen k with
  | none =>
    refine ⟨(fun h => nomatch h), ?_⟩
    rintro ⟨b, hb, hahead⟩
    exact absurd hahead (not_ahead_of_searchLine ha e hk hb)
  | some x =>
    obtain ⟨b, hend, _⟩ := listEnd_of_searchLine ha e hk
    exact ⟨fun _ => ⟨b, hend.list, hend.follows⟩, fun _ => rfl⟩

/-- Passing blanks and a character goes on just when the next character is of the class. -/
lemma In.isSome_next_iff {p : Char → Bool} (h : s.In t) (hp : Solid p) :
    (s.skipBlanks.char? p >>= k).isSome ↔
      ∃ b, NextChar t p s.offset b ∧ (k (ofOffset t (b + 1))).isSome := by
  constructor
  · intro hsome
    obtain ⟨x, hx⟩ := Option.isSome_iff_exists.mp hsome
    obtain ⟨s', hs', hx⟩ := Option.bind_eq_some_iff.mp hx
    obtain ⟨hnext, rfl⟩ := h.nextChar hs'
    refine ⟨_, hnext, ?_⟩
    rw [hx]
    rfl
  · rintro ⟨b, hnext, hsome⟩
    rw [(hnext.char? hp h).2]
    exact hsome

end Site

/-! ### Signatures -/

lemma solid_isEquals : Solid isEquals :=
  solid_pair (by decide) (by decide)

lemma solid_isGreater : Solid isGreater :=
  solid_pair (by decide) (by decide)

/-- An arrow and a list of results follow. -/
def ArrowList (t : Text) (i : Nat) : Prop :=
  ∃ e, NextChar t isEquals i e ∧ ∃ g, NextChar t isGreater (e + 1) g ∧
    ∃ a, NextChar t isOpenParen (g + 1) a ∧ ∃ b, ParenList t a b

/-- The place where the parameters that open at `a` end: the first closing parenthesis with an arrow
and a list of results behind it, or the first of all when none of the line has. -/
def ParametersEnd (t : Text) (a b : Nat) : Prop :=
  ListEnd t (ArrowList t) a b ∨
    (∀ q, ParenList t a q → ¬ ArrowList t (q + 1)) ∧ ListEnd t (fun _ => True) a b

lemma ParametersEnd.unique {c : Nat} (h : ParametersEnd t a b) (h' : ParametersEnd t a c) :
    b = c := by
  obtain h | ⟨hnone, h⟩ := h
  · obtain h' | ⟨hnone, _⟩ := h'
    · exact h.unique h'
    · exact absurd h.follows (hnone b h.list)
  · obtain h' | ⟨_, h'⟩ := h'
    · exact absurd h'.follows (hnone c h'.list)
    · exact h.unique h'

/-- The second of two parentheses that match is the end of parameters just when it is the first with
an arrow behind it, or no parenthesis of the line has one and none stands between the two. -/
lemma ParensMatch.parametersEnd_iff (h : ParensMatch t a b) (hline : LinePiece t a b) :
    ParametersEnd t a b ↔ ListEnd t (ArrowList t) a b ∨
      (∀ q, ParenList t a q → ¬ ArrowList t (q + 1)) ∧
        ∀ i, a < i → i < b → ¬ CharAt t isOpenParen i ∧ ¬ CharAt t isCloseParen i := by
  refine or_congr_right (and_congr_right fun _ => ?_)
  constructor
  · intro hend i ha hb
    have hclose : ∀ i, a < i → i < b → ¬ CharAt t isCloseParen i := fun i ha hb hi =>
      hend.first i ha hb hi trivial
    exact ⟨h.not_open hclose ha hb, hclose i ha hb⟩
  · intro hnone
    exact ⟨h.list hline, trivial, fun q ha hb hq => absurd hq (hnone q ha hb).2⟩

namespace Site

/-- Results are read just when an arrow and a list follow. -/
lemma In.isSome_results?_iff (h : s.In t) : s.results?.isSome ↔ ArrowList t s.offset := by
  rw [Site.results?, h.isSome_next_iff solid_isEquals, ArrowList]
  refine exists_congr fun e => and_congr_right fun he => ?_
  rw [(ofOffset_in t (e + 1)).isSome_next_iff solid_isGreater, he.char.ofOffset_succ_offset]
  refine exists_congr fun g => and_congr_right fun hg => ?_
  rw [(ofOffset_in t (g + 1)).isSome_next_iff solid_isOpenParen, hg.char.ofOffset_succ_offset]
  refine exists_congr fun a => and_congr_right fun ha => ?_
  rw [isSome_searchLine_iff (P := fun _ => True) ha.char fun _ _ =>
    ⟨fun _ => trivial, fun _ => rfl⟩]
  simp only [and_true]

/-- The results behind a closing parenthesis are read just when an arrow and a list follow. -/
lemma isSome_results?_behind {q : Nat} (hq : CharAt t isCloseParen q) :
    ((ofOffset t q).advance 1).results?.isSome ↔ ArrowList t (q + 1) := by
  rw [hq.ofOffset_advance, (ofOffset_in t (q + 1)).isSome_results?_iff, hq.ofOffset_succ_offset]

/-- Behind a list on one line there is a signature, and its parameters end where they should. -/
lemma In.exists_signature? (h : s.In t) (ha : NextChar t isOpenParen s.offset a)
    (hlist : ParenList t a b) :
    ∃ e results, s.signature? = some ⟨⟨a, e⟩, results⟩ ∧ ParametersEnd t a e := by
  obtain ⟨hskip, hchar⟩ := ha.char? solid_isOpenParen h
  rw [hskip] at hchar
  simp only [Site.signature?, hskip, hchar, Option.bind_eq_bind, Option.bind_some,
    ha.char.ofOffset_offset]
  -- the two searches, for an end with results behind it and for any end
  have hresults : ∀ q, CharAt t isCloseParen q →
      ((((ofOffset t q).advance 1).results?.map fun r =>
        (⟨⟨a, (ofOffset t q).offset⟩, some r⟩ : Signature)).isSome ↔ ArrowList t (q + 1)) := by
    intro q hq
    rw [Option.isSome_map, isSome_results?_behind hq]
  have hbare : ∀ q, CharAt t isCloseParen q →
      ((some (⟨⟨a, (ofOffset t q).offset⟩, none⟩ : Signature)).isSome ↔ True) := by
    intro q _
    rw [Option.isSome_some, eq_self]
  cases hfirst : (ofOffset t (a + 1)).searchLine isCloseParen fun close =>
      (close.advance 1).results?.map fun r => (⟨⟨a, close.offset⟩, some r⟩ : Signature) with
  | some signature =>
    obtain ⟨e, hend, he⟩ := listEnd_of_searchLine ha.char hfirst hresults
    obtain ⟨r, _, rfl⟩ := Option.map_eq_some_iff.mp he
    rw [hend.list.closing.ofOffset_offset]
    exact ⟨e, some r, rfl, .inl hend⟩
  | none =>
    have hnone : ∀ q, ParenList t a q → ¬ ArrowList t (q + 1) := fun q =>
      not_ahead_of_searchLine ha.char hfirst hresults
    cases hsecond : (ofOffset t (a + 1)).searchLine isCloseParen fun close =>
        some (⟨⟨a, close.offset⟩, none⟩ : Signature) with
    | some signature =>
      obtain ⟨e, hend, he⟩ := listEnd_of_searchLine (P := fun _ => True) ha.char hsecond hbare
      cases he
      rw [hend.list.closing.ofOffset_offset]
      exact ⟨e, none, rfl, .inr ⟨hnone, hend⟩⟩
    | none =>
      exact absurd trivial
        (not_ahead_of_searchLine (P := fun _ => True) ha.char hsecond hbare hlist)

end Site

/-! ### Declared functions -/

/-- A declared function is found with a name that is all of its declaration's name. -/
lemma exists_of_mem_functions {d : Declaration} (h : d ∈ (classify t).functions) :
    ∃ types f o n, Found (findFunction types) t f o n ∧
      d = ⟨f.name.text, f.offset, f.name.stop, none⟩ := by
  obtain ⟨f, hf, hd⟩ := List.mem_filterMap.mp h
  obtain ⟨o, n, hfound⟩ := mem_occurrences.mp hf
  rw [FunctionForm.declaration?] at hd
  split at hd
  case isTrue =>
    cases hd
    exact ⟨_, f, o, n, hfound, rfl⟩
  case isFalse => cases hd

/-- Behind the name of a declared function stands an opening parenthesis. -/
lemma nextChar_of_mem_functions {d : Declaration} (h : d ∈ (classify t).functions) :
    ∃ a, NextChar t isOpenParen d.stop.toNat a := by
  obtain ⟨_, f, o, _, hfound, rfl⟩ := exists_of_mem_functions h
  have hin := Site.ofOffset_in t o
  have hstop := (isWord_of_findFunction hin hfound.finds).le_length
  obtain ⟨inner, hinner⟩ := findFunction_eq_some hin hfound.finds
  obtain ⟨hnext, _⟩ := (Site.ofOffset_in t f.name.stop).nextChar hinner
  rw [Site.ofOffset_offset hstop] at hnext
  exact ⟨_, hnext⟩

/-- The parameters of a declared function open at the parenthesis behind its name. When that one has
its match on the line, they end at the match just when it is the first parenthesis of the line with
an arrow and a list of results behind it, or no parenthesis of the line has these behind it and the
parameters hold no parentheses. -/
theorem parameters_end_iff (t : Text) (f : Declaration) (hf : f ∈ (classify t).functions) :
    ∃ a, NextChar t isOpenParen f.stop.toNat a ∧ ∀ b, ParensMatch t a b → LinePiece t a b →
      ∃ e : Nat, ∃ later, signatureEvents t f
        = ⟨a, .opens .signature, f.name, none⟩ :: ⟨e, .closes .signature, f.name, none⟩ :: later ∧
        (e = b ↔ ListEnd t (ArrowList t) a b ∨
          (∀ q, ParenList t a q → ¬ ArrowList t (q + 1)) ∧
            ∀ i, a < i → i < b → ¬ CharAt t isOpenParen i ∧ ¬ CharAt t isCloseParen i) := by
  obtain ⟨a, ha⟩ := nextChar_of_mem_functions hf
  refine ⟨a, ha, fun b hmatch hline => ?_⟩
  have hstop : f.stop.toNat ≤ t.length := by
    have := (stop_le_of_mem_functions hf).2
    omega
  have hnext : NextChar t isOpenParen (Site.ofOffset t f.stop.toNat).offset a := by
    rwa [Site.ofOffset_offset hstop]
  obtain ⟨e, results, hsignature, hend⟩ :=
    (Site.ofOffset_in t _).exists_signature? hnext (hmatch.list hline)
  have hevents : ∃ later, signatureEvents t f
      = ⟨a, .opens .signature, f.name, none⟩ :: ⟨e, .closes .signature, f.name, none⟩ :: later := by
    rw [signatureEvents, hsignature]
    exact ⟨_, rfl⟩
  obtain ⟨later, hevents⟩ := hevents
  refine ⟨e, later, hevents, ?_⟩
  rw [← hmatch.parametersEnd_iff hline]
  constructor
  · rintro rfl
    exact hend
  · exact hend.unique

/-- A function that is declared at the start of a text, with no type before it. -/
lemma mem_functions_of_start (keyword name : Piece) (ht : 0 < t.length)
    (htypes : ∀ w ∈ builtinTypeForms ++ (classify t).classNames,
      (Site.ofOffset t 0).word? w = none)
    (hname : (Site.ofOffset t 0).functionName? = some (some keyword, name)) :
    ⟨name.text, 0, name.stop, none⟩ ∈ (classify t).functions := by
  have hlabels : ∀ w ∈ typeForms (classify t).classNames,
      (Site.ofOffset t 0).labelled? w = none := by
    intro w hw
    rw [Site.labelled?, htypes w (mem_typeForms.mp hw)]
    rfl
  have hstart : Site.ofOffset t 0 = ⟨0, none, t⟩ := by
    rw [Site.ofOffset, Nat.zero_min]
    rfl
  have hfind : findFunction (typeForms (classify t).classNames) (.ofOffset t 0)
      = some (⟨0, none, some keyword, name⟩, name.stop - 0) := by
    rw [findFunction, if_neg (by rw [hstart]; exact Bool.false_ne_true)]
    dsimp only
    rw [List.findSome?_eq_none_iff.mpr, hname, hstart]
    · rfl
    · intro w hw
      rw [hlabels w hw]
      rfl
  exact List.mem_filterMap.mpr
    ⟨_, mem_occurrences.mpr ⟨0, _, .start _ t, ht, hfind⟩, rfl⟩

lemma linePiece_of_not_mem (hfeed : '\n' ∉ t) (hlt : a < b) (hle : b ≤ t.length) :
    LinePiece t a b :=
  ⟨hlt, hle, fun _ _ _ h => hfeed (List.mem_of_getElem? h)⟩

/-- A function whose parameters hold a list of their own. -/
def listedParameters : Text :=
  ['関', '数', ':', 'f', '(', 'a', '(', 'b', ')', ')', '=', '>', '(', 'c', ')']

theorem parameters_end_listedParameters :
    (⟨['f'], 0, 4, none⟩ : Declaration) ∈ (classify listedParameters).functions ∧
    ParensMatch listedParameters 4 9 ∧ LinePiece listedParameters 4 9 ∧
    ∃ later, signatureEvents listedParameters ⟨['f'], 0, 4, none⟩
      = ⟨4, .opens .signature, ['f'], none⟩ :: ⟨9, .closes .signature, ['f'], none⟩ :: later := by
  have hf : (⟨['f'], 0, 4, none⟩ : Declaration) ∈ (classify listedParameters).functions :=
    mem_functions_of_start ⟨0, ['関', '数', ':']⟩ ⟨3, ['f']⟩ (by decide) (by decide) (by decide)
  have hopen : NextChar listedParameters isOpenParen 4 4 :=
    ⟨⟨Nat.le_refl 4, by omega⟩, '(', rfl, rfl⟩
  have hclose : CharAt listedParameters isCloseParen 9 := ⟨')', rfl, rfl⟩
  have hmatch : ParensMatch listedParameters 4 9 := ⟨by decide, hopen.char, hclose, by decide⟩
  have hline : LinePiece listedParameters 4 9 :=
    linePiece_of_not_mem (by decide) (by decide) (by decide)
  -- the list inside ends before another parenthesis, the parameters before the arrow
  have hend : ListEnd listedParameters (ArrowList listedParameters) 4 9 := by
    have hnone : ∀ q < 9,
        ¬ ((Site.ofOffset listedParameters q).advance 1).results?.isSome := by decide
    refine ⟨hmatch.list hline, (Site.isSome_results?_behind hclose).mp (by decide), ?_⟩
    intro q _ hlt hq
    rw [← Site.isSome_results?_behind hq]
    exact hnone q hlt
  obtain ⟨a, ha, hall⟩ := parameters_end_iff listedParameters _ hf
  obtain rfl := ha.unique solid_isOpenParen hopen solid_isOpenParen
  obtain ⟨e, later, hevents, hiff⟩ := hall 9 hmatch hline
  obtain rfl := hiff.mpr (.inl hend)
  exact ⟨hf, hmatch, hline, later, hevents⟩

/-- A function without results before one with results. -/
def foreignArrow : Text :=
  ['関', '数', ':', 'f', '(', '整', '数', ':', 'a', ')', ';', '関', '数', ':', 'g', '(', '整', '数',
    ':', 'b', ')', '=', '>', '(', '整', '数', ':', 'c', ')', ';']

/-- The parameters of the first function run over their end to those of the second. -/
theorem foreignArrow_signature :
    maskText foreignArrow = foreignArrow ∧
    (⟨['f'], 0, 4, none⟩ : Declaration) ∈ (classify foreignArrow).functions ∧
    NextChar foreignArrow isOpenParen 4 4 ∧ ParensMatch foreignArrow 4 9 ∧
    LinePiece foreignArrow 4 9 ∧
    signatureEvents foreignArrow ⟨['f'], 0, 4, none⟩
      = [⟨4, .opens .signature, ['f'], none⟩, ⟨20, .closes .signature, ['f'], none⟩,
        ⟨23, .opens .signature, ['f'], none⟩, ⟨28, .closes .signature, ['f'], none⟩] := by
  have hf : (⟨['f'], 0, 4, none⟩ : Declaration) ∈ (classify foreignArrow).functions :=
    mem_functions_of_start ⟨0, ['関', '数', ':']⟩ ⟨3, ['f']⟩ (by decide) (by decide) (by decide)
  have hopen : CharAt foreignArrow isOpenParen 4 := ⟨'(', rfl, rfl⟩
  have hclose : CharAt foreignArrow isCloseParen 9 := ⟨')', rfl, rfl⟩
  exact ⟨by decide, hf, ⟨⟨Nat.le_refl 4, by omega⟩, hopen⟩, ⟨by decide, hopen, hclose, by decide⟩,
    linePiece_of_not_mem (by decide) (by decide) (by decide), by decide⟩

end LazeEdit
