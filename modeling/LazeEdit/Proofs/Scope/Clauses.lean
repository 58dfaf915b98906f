import LazeEdit.Proofs.Scope.Lists

/-!
# Clauses of counting loops

Each clause of a counting loop is a list in parentheses that ends where the rest of the loop stands
behind it: the condition behind the declaration, the step behind the condition and the block behind
the step (`ConditionAhead`, `StepAhead`, `BlockAhead`). The search for the end does not count
parentheses, and a loop begins at the first opening parenthesis of its line that is no part of
another loop (`exists_loop_of_openParen`). So a clause may begin at a parenthesis of another
statement, and the parentheses at its two ends match just when the match of the first one is the
first closing parenthesis with the rest of the loop behind it (`clauses_match_iff`).
-/

namespace LazeEdit

variable {t w : Text} {s s' : Site} {a b i : Nat}

/-! ### Words between clauses -/

/-- A word without blanks. -/
def SolidWord (w : Text) : Prop :=
  w ≠ [] ∧ w.all fun c => !isBlank c

instance (w : Text) : Decidable (SolidWord w) :=
  inferInstanceAs (Decidable (_ ∧ _))

/-- A word follows, perhaps behind blanks, and ends at `n`. -/
def NextWord (t w : Text) (i n : Nat) : Prop :=
  ∃ j, Blanks t i j ∧ w <+: t.drop j ∧ n = j + w.length

lemma NextWord.le_length {n : Nat} (h : NextWord t w i n) (hw : SolidWord w) : n ≤ t.length := by
  obtain ⟨j, _, hbegin, rfl⟩ := h
  have hlen := hbegin.length_le
  have hpos := List.length_pos_iff.mpr hw.1
  rw [List.length_drop] at hlen
  omega

namespace Site

lemma In.nextWord (h : s.In t) (e : s.link? w = some s') :
    ∃ n, NextWord t w s.offset n ∧ s' = (ofOffset t n).skipBlanks := by
  obtain ⟨behind, hbehind, rfl⟩ := Option.map_eq_some_iff.mp e
  have hskip : s.skipBlanks.In t := h.skipWhile isBlank
  have hin := hskip.word? hbehind
  obtain ⟨hbegin, rfl⟩ := word?_eq_some hbehind
  rw [hskip.rest] at hbegin
  refine ⟨_, ⟨_, h.blanks, hbegin, rfl⟩, ?_⟩
  rw [hin.eq_ofOffset, advance_offset]

lemma In.link?_eq {n : Nat} (h : s.In t) (hn : NextWord t w s.offset n) (hw : SolidWord w) :
    s.link? w = some (ofOffset t n).skipBlanks := by
  obtain ⟨j, hblanks, hbegin, rfl⟩ := hn
  obtain ⟨hne, hsolid⟩ := hw
  have hfirst : CharAt t (fun c => !isBlank c) j := charAt_drop.mp
    (charAt_of_beginning hbegin (List.all_eq_true.mp hsolid) (List.length_pos_iff.mpr hne))
  have hnot : ¬ CharAt t isBlank j := by
    intro hblank
    obtain ⟨c, hc, hc'⟩ := hfirst.both hblank
    rw [hc'] at hc
    cases hc
  have hskip := h.skipBlanks_eq hblanks hnot
  have hin := ofOffset_in t j
  have hoffset : (ofOffset t j).offset = j := hfirst.ofOffset_offset
  rw [← hoffset, ← hin.rest] at hbegin
  rw [Site.link?, hskip, Site.word?, if_pos (List.isPrefixOf_iff_prefix.mpr hbegin), Option.map_some,
    (hin.advance hbegin.length_le).eq_ofOffset, advance_offset, hoffset]

/-! ### Clauses -/

variable {α : Type} {k : Ends → Site → Option α} {x : α} {P : Nat → Prop}

/-- A clause is a list that ends where what is behind it goes on. -/
lemma In.listEnd_of_clause? (h : s.In t) (e : s.clause? k = some x)
    (hk : ∀ ends q, CharAt t isCloseParen q → ((k ends (ofOffset t (q + 1))).isSome ↔ P (q + 1))) :
    ∃ b, ListEnd t P s.offset b ∧ k ⟨s.offset, b⟩ (ofOffset t (b + 1)) = some x := by
  obtain ⟨inner, hinner, e⟩ := Option.bind_eq_some_iff.mp e
  have hopen := h.charAt_of_char? hinner
  cases hinner.symm.trans (h.char?_eq hopen)
  obtain ⟨b, hend, hkb⟩ := listEnd_of_searchLine hopen e fun q hq => by
    rw [hq.ofOffset_advance]
    exact hk _ q hq
  rw [hend.list.closing.ofOffset_advance, hend.list.closing.ofOffset_offset] at hkb
  exact ⟨b, hend, hkb⟩

/-- A clause is read just when a list stands there and what is to follow it does. -/
lemma In.isSome_clause?_iff (h : s.In t)
    (hk : ∀ ends q, CharAt t isCloseParen q → ((k ends (ofOffset t (q + 1))).isSome ↔ P (q + 1))) :
    (s.clause? k).isSome ↔ ∃ b, ParenList t s.offset b ∧ P (b + 1) := by
  constructor
  · intro hsome
    obtain ⟨x, e⟩ := Option.isSome_iff_exists.mp hsome
    obtain ⟨b, hend, _⟩ := h.listEnd_of_clause? e hk
    exact ⟨b, hend.list, hend.follows⟩
  · rintro ⟨b, hlist, hahead⟩
    rw [Site.clause?, h.char?_eq hlist.opening]
    refine (isSome_searchLine_iff hlist.opening fun q hq => ?_).mpr ⟨b, hlist, hahead⟩
    rw [hq.ofOffset_advance]
    exact hk _ q hq

end Site

/-- A word and a clause follow, with `ahead` behind the clause. -/
def ClauseAhead (t w : Text) (ahead : Nat → Prop) (i : Nat) : Prop :=
  ∃ n, NextWord t w i n ∧ ∃ a, NextChar t isOpenParen n a ∧ ∃ b, ParenList t a b ∧ ahead (b + 1)

/-- A block follows. -/
def BlockAhead (t : Text) (i : Nat) : Prop :=
  ∃ b, NextChar t isOpenBrace i b

/-- The step of a loop follows, and its block. -/
def StepAhead (t : Text) : Nat → Prop :=
  ClauseAhead t untilWord (BlockAhead t)

/-- The condition of a loop follows, and its step and block. -/
def ConditionAhead (t : Text) : Nat → Prop :=
  ClauseAhead t fromWord (StepAhead t)

namespace Site

variable {α : Type} {k : Ends → Site → Option α} {x : α} {P : Nat → Prop}

/-- A clause that is read behind a word is a list that ends where what is behind it goes on. -/
lemma In.exists_of_link? (h : s.In t) (hw : SolidWord w)
    (e : (s.link? w >>= fun s' => s'.clause? k) = some x)
    (hk : ∀ ends q, CharAt t isCloseParen q → ((k ends (ofOffset t (q + 1))).isSome ↔ P (q + 1))) :
    ∃ n, NextWord t w s.offset n ∧ ∃ a, NextChar t isOpenParen n a ∧
      ∃ b, ListEnd t P a b ∧ k ⟨a, b⟩ (ofOffset t (b + 1)) = some x := by
  obtain ⟨s', hs', e⟩ := Option.bind_eq_some_iff.mp e
  obtain ⟨n, hn, rfl⟩ := h.nextWord hs'
  have hin := ofOffset_in t n
  have hblanks := hin.blanks
  rw [ofOffset_offset (hn.le_length hw)] at hblanks
  obtain ⟨b, hend, hkb⟩ := (hin.skipWhile isBlank).listEnd_of_clause? e hk
  exact ⟨n, hn, _, ⟨hblanks, hend.list.opening⟩, b, hend, hkb⟩

/-- A clause behind a word is read just when both are there and what is to follow them. -/
lemma In.isSome_link?_iff (h : s.In t) (hw : SolidWord w)
    (hk : ∀ ends q, CharAt t isCloseParen q → ((k ends (ofOffset t (q + 1))).isSome ↔ P (q + 1))) :
    (s.link? w >>= fun s' => s'.clause? k).isSome ↔ ClauseAhead t w P s.offset := by
  constructor
  · intro hsome
    obtain ⟨x, e⟩ := Option.isSome_iff_exists.mp hsome
    obtain ⟨n, hn, a, ha, b, hend, _⟩ := h.exists_of_link? hw e hk
    exact ⟨n, hn, a, ha, b, hend.list, hend.follows⟩
  · rintro ⟨n, hn, a, ha, b, hlist, hahead⟩
    have hin := ofOffset_in t n
    rw [← ofOffset_offset (hn.le_length hw)] at ha
    rw [h.link?_eq hn hw, Option.bind_eq_bind, Option.bind_some,
      (ha.char? solid_isOpenParen hin).1, (ofOffset_in t a).isSome_clause?_iff hk,
      hlist.opening.ofOffset_offset]
    exact ⟨b, hlist, hahead⟩

end Site

/-! ### Loops -/

namespace Site

variable {α : Type}

lemma isSome_block_iff {x : α} {q : Nat} (hq : CharAt t isCloseParen q) :
    ((ofOffset t (q + 1)).skipBlanks.char? isOpenBrace >>= fun _ => some x).isSome ↔
      BlockAhead t (q + 1) := by
  rw [(ofOffset_in t (q + 1)).isSome_next_iff solid_isOpenBrace, hq.ofOffset_succ_offset]
  exact exists_congr fun b => and_iff_left rfl

lemma isSome_step_iff {f : Ends → Site → α} {q : Nat} (hq : CharAt t isCloseParen q) :
    ((ofOffset t (q + 1)).link? untilWord >>= fun s4 => s4.clause? fun step s5 =>
      s5.skipBlanks.char? isOpenBrace >>= fun _ => some (f step s5)).isSome ↔
      StepAhead t (q + 1) := by
  refine Iff.trans ((ofOffset_in t (q + 1)).isSome_link?_iff (by decide) fun _ _ hq =>
    isSome_block_iff hq) ?_
  rw [hq.ofOffset_succ_offset, StepAhead]

lemma isSome_condition_iff {f : Ends → Ends → Site → α} {q : Nat} (hq : CharAt t isCloseParen q) :
    ((ofOffset t (q + 1)).link? fromWord >>= fun s2 => s2.clause? fun condition s3 =>
      s3.link? untilWord >>= fun s4 => s4.clause? fun step s5 =>
        s5.skipBlanks.char? isOpenBrace >>= fun _ => some (f condition step s5)).isSome ↔
      ConditionAhead t (q + 1) := by
  refine Iff.trans ((ofOffset_in t (q + 1)).isSome_link?_iff (by decide) fun _ _ hq =>
    isSome_step_iff hq) ?_
  rw [hq.ofOffset_succ_offset, ConditionAhead]

end Site

/-- Each clause of a loop that is found ends where the rest of the loop stands behind it. -/
lemma listEnd_of_findLoop {l : Loop} {n : Nat} (h : s.In t) (e : findLoop s = some (l, n)) :
    ListEnd t (ConditionAhead t) l.declaration.opening l.declaration.closing ∧
      ListEnd t (StepAhead t) l.condition.opening l.condition.closing ∧
      ListEnd t (BlockAhead t) l.step.opening l.step.closing := by
  obtain ⟨_, hdeclaration, e⟩ := h.listEnd_of_clause? e fun _ _ hq => Site.isSome_condition_iff hq
  obtain ⟨_, _, _, _, _, hcondition, e⟩ := (Site.ofOffset_in t _).exists_of_link? (by decide) e
    fun _ _ hq => Site.isSome_step_iff hq
  obtain ⟨_, _, _, _, _, hstep, e⟩ := (Site.ofOffset_in t _).exists_of_link? (by decide) e
    fun _ _ hq => Site.isSome_block_iff hq
  obtain ⟨_, _, e⟩ := Option.bind_eq_some_iff.mp e
  cases e
  exact ⟨hdeclaration, hcondition, hstep⟩

/-- An opening parenthesis before a loop on its line is part of an earlier loop, since otherwise the
loop would begin there. -/
lemma exists_loop_of_openParen {l : Loop} (h : l ∈ occurrences findLoop t)
    (hi : CharAt t isOpenParen i) (hline : LinePiece t i l.declaration.opening) :
    ∃ l' ∈ occurrences findLoop t, l'.declaration.opening ≤ i ∧ i ≤ l'.step.closing := by
  obtain ⟨o, n, hfound⟩ := mem_occurrences.mp h
  obtain ⟨hend, _⟩ := listEnd_of_findLoop (Site.ofOffset_in t o) hfound.finds
  have hlist : ParenList t i l.declaration.closing :=
    ⟨hi, hend.list.closing, hline.trans hend.list.piece⟩
  obtain hlooks | ⟨l', o', n', hf, hlt, hlt'⟩ :=
    looks_or_covered findLoop (Nat.le_of_lt hi.lt_length)
  · have hsome : (findLoop (.ofOffset t i)).isSome := by
      refine ((Site.ofOffset_in t i).isSome_clause?_iff fun _ _ hq =>
        Site.isSome_condition_iff hq).mpr ⟨l.declaration.closing, ?_, hend.follows⟩
      rwa [hi.ofOffset_offset]
    obtain ⟨⟨l', n'⟩, hfind⟩ := Option.isSome_iff_exists.mp hsome
    obtain ⟨hin, hopen, _⟩ := in_of_findLoop (Site.ofOffset_in t i) hfind
    rw [hi.ofOffset_offset] at hopen
    refine ⟨l', mem_occurrences.mpr ⟨i, n', hlooks, hi.lt_length, hfind⟩, Nat.le_of_eq hopen, ?_⟩
    obtain ⟨_, _, _, _, _, _, _⟩ := hin
    omega
  · obtain ⟨_, hopen, hstop⟩ := in_of_findLoop (Site.ofOffset_in t o') hf.finds
    rw [Site.ofOffset_offset (Nat.le_of_lt hf.inside)] at hopen hstop
    exact ⟨l', mem_occurrences.mpr ⟨o', n', hf⟩, by omega, by omega⟩

/-! ### Matching ends -/

/-- The parenthesis that matches the one at `a` is the first closing one with `ahead` behind it. -/
def MatchIsFirst (t : Text) (ahead : Nat → Prop) (a : Nat) : Prop :=
  ∃ m, ParensMatch t a m ∧ ahead (m + 1) ∧
    ∀ q, a < q → q < m → CharAt t isCloseParen q → ¬ ahead (q + 1)

lemma ListEnd.match_iff {P : Nat → Prop} (h : ListEnd t P a b) :
    ParensMatch t a b ↔ MatchIsFirst t P a := by
  constructor
  · intro hmatch
    exact ⟨b, hmatch, h.follows, h.first⟩
  · rintro ⟨m, hmatch, hfollows, hfirst⟩
    obtain hlt | rfl | hlt := Nat.lt_trichotomy b m
    · exact absurd h.follows (hfirst b h.list.piece.lt hlt h.list.closing)
    · exact hmatch
    · exact absurd hfollows (h.first m hmatch.lt hlt hmatch.closing)

/-- A loop begins at the first opening parenthesis of its line that is no part of an earlier loop. The
parentheses at the ends of a clause match just when the match of the first one is the first closing
parenthesis with the rest of the loop behind it. -/
theorem clauses_match_iff (t : Text) (l : Loop) (h : l ∈ occurrences findLoop t) :
    (∀ i, CharAt t isOpenParen i → LinePiece t i l.declaration.opening →
      ∃ l' ∈ occurrences findLoop t, l'.declaration.opening ≤ i ∧ i ≤ l'.step.closing) ∧
    (ParensMatch t l.declaration.opening l.declaration.closing ↔
      MatchIsFirst t (ConditionAhead t) l.declaration.opening) ∧
    (ParensMatch t l.condition.opening l.condition.closing ↔
      MatchIsFirst t (StepAhead t) l.condition.opening) ∧
    (ParensMatch t l.step.opening l.step.closing ↔
      MatchIsFirst t (BlockAhead t) l.step.opening) := by
  obtain ⟨o, n, hfound⟩ := mem_occurrences.mp h
  obtain ⟨hdeclaration, hcondition, hstep⟩ :=
    listEnd_of_findLoop (Site.ofOffset_in t o) hfound.finds
  exact ⟨fun i => exists_loop_of_openParen h, hdeclaration.match_iff, hcondition.match_iff,
    hstep.match_iff⟩

/-- A loop with a call in its declaration. -/
def callingLoop : Text :=
  ['(', 'f', '(', 'x', ')', ')', 'か', 'ら', '(', 'i', ')', 'ま', 'で', '(', 'i', ')', '\x7b']

theorem clauses_match_callingLoop :
    (⟨⟨0, 5⟩, ⟨8, 10⟩, ⟨13, 15⟩⟩ : Loop) ∈ occurrences findLoop callingLoop ∧
      ParensMatch callingLoop 0 5 ∧ MatchIsFirst callingLoop (ConditionAhead callingLoop) 0 := by
  have hloop : (⟨⟨0, 5⟩, ⟨8, 10⟩, ⟨13, 15⟩⟩ : Loop) ∈ occurrences findLoop callingLoop := by decide
  have hmatch : ParensMatch callingLoop 0 5 :=
    ⟨by decide, ⟨'(', rfl, rfl⟩, ⟨')', rfl, rfl⟩, by decide⟩
  exact ⟨hloop, hmatch, (clauses_match_iff callingLoop _ hloop).2.1.mp hmatch⟩

/-- A loop on a line with a call before it. -/
def loopBehindCall : Text :=
  ['f', '(', 'x', ')', ';', '(', '整', '数', ':', 'i', '=', '0', ')', 'か', 'ら', '(', 'i', '<', '3',
    ')', 'ま', 'で', '(', 'i', '+', '+', ')', '\x7b', '\x7d']

/-- The declaration of the loop begins at the parenthesis of the call. -/
theorem loopBehindCall_declaration :
    maskText loopBehindCall = loopBehindCall ∧
    occurrences findLoop loopBehindCall = [⟨⟨1, 12⟩, ⟨15, 19⟩, ⟨22, 26⟩⟩] ∧
    ParensMatch loopBehindCall 5 12 ∧ ¬ ParensMatch loopBehindCall 1 12 := by
  refine ⟨by decide, by decide, ⟨by decide, ⟨'(', rfl, rfl⟩, ⟨')', rfl, rfl⟩, by decide⟩, ?_⟩
  intro hmatch
  exact absurd hmatch.inside (by decide)

end LazeEdit
