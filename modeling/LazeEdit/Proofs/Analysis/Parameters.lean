import LazeEdit.Proofs.Completion.Carry
import LazeEdit.Proofs.Completion.Safety
import LazeEdit.Proofs.Scope.Shape

/-!
# Parameters of a function without a body

Behind a signature that a semicolon follows no block takes its values, and they stay carried. What
becomes of them is decided by the first event that opens or ends a scope or declares a function.
Declarations of loops in between do not count, since lists hand on what they take
(`Passage.of_lists`). A function or the end of a scope drops the values, and they are seen nowhere.
A scope that opens takes them, although it has nothing to do with the function, and shows them
(`bodiless_parameters_view`).
-/

namespace LazeEdit

variable {t : Text} {s : Site} {n : Text}

/-! ### Signatures without a body -/

namespace Signature

/-- The lists of a signature. -/
def lists (s : Signature) : List Ends :=
  s.parameters :: (s.results.map Results.list).toList

/-- Where the last list of a signature ends. -/
def stop (s : Signature) : Nat :=
  match s.results with
  | none => s.parameters.closing
  | some results => results.list.closing

end Signature

namespace Site

/-- The body of a function is looked for behind its results. -/
lemma In.body_of_results? {results : Results} (h : s.In t) (e : s.results? = some results) :
    ∃ behind : Site, behind.In t ∧ behind.offset = results.list.closing + 1 ∧
      results.body = behind.expressionBody? := by
  obtain ⟨equals, hequals, e⟩ := Option.bind_eq_some_iff.mp e
  obtain ⟨arrow, harrow, e⟩ := Option.bind_eq_some_iff.mp e
  obtain ⟨inner, hinner, e⟩ := Option.bind_eq_some_iff.mp e
  have hin := (((h.skipWhile isBlank).char? hequals).skipWhile isBlank).char? harrow
  obtain ⟨close, hclose, _, e⟩ := (hin.skipWhile isBlank).exists_close hinner e
  cases e
  exact ⟨close.advance 1, hclose, close.advance_offset 1, rfl⟩

lemma In.body_of_signature? {signature : Signature} {results : Results} (h : s.In t)
    (e : s.signature? = some signature) (hresults : signature.results = some results) :
    ∃ behind : Site, behind.In t ∧ behind.offset = results.list.closing + 1 ∧
      results.body = behind.expressionBody? := by
  obtain ⟨inner, hinner, e⟩ := Option.bind_eq_some_iff.mp e
  obtain e | e := eq_some_or_of_orElse e
  · obtain ⟨close, hclose, _, e⟩ := (h.skipWhile isBlank).exists_close hinner e
    obtain ⟨found, hfound, rfl⟩ := Option.map_eq_some_iff.mp e
    cases hresults
    exact hclose.body_of_results? hfound
  · obtain ⟨close, _, _, e⟩ := (h.skipWhile isBlank).exists_close hinner e
    cases e
    cases hresults

lemma In.expressionBody?_eq_none {p : Nat} (h : s.In t) (hnext : NextChar t (· == ';') s.offset p) :
    s.expressionBody? = none := by
  rw [Option.eq_none_iff_forall_ne_some]
  intro body e
  obtain ⟨inner, hinner, _⟩ := Option.bind_eq_some_iff.mp e
  obtain ⟨hequals, _⟩ := h.nextChar hinner
  have hsolid : Solid (· == ';') := by
    intro c hc
    rw [beq_iff_eq.mp hc]
    decide
  have hplace := hnext.unique hsolid hequals solid_isEquals
  obtain ⟨c, hc, hequal⟩ := hnext.char.both (hplace ▸ hequals.char)
  rw [beq_iff_eq.mp hc] at hequal
  exact absurd hequal (by decide)

end Site

/-- The events of a signature that a semicolon follows are the ends of its lists. -/
lemma Signature.events_eq_lists {signature : Signature} {p : Nat} (h : s.In t)
    (e : s.signature? = some signature) (hnext : NextChar t (· == ';') (signature.stop + 1) p)
    (name : Text) :
    signature.events name = signature.lists.flatMap (·.events .signature name) := by
  obtain ⟨parameters, results⟩ := signature
  cases results with
  | none => rfl
  | some results =>
    obtain ⟨behind, hbehind, hoffset, hbody⟩ := h.body_of_signature? e rfl
    rw [hbehind.expressionBody?_eq_none (hoffset ▸ hnext)] at hbody
    obtain ⟨list, body⟩ := results
    cases hbody
    rfl

/-! ### Lists in the events of a document -/

/-- A list of values as it stands in a text, with the name of its function. -/
structure WrittenList where
  list : ValueList
  ends : Ends
  name : Text := []

/-- The events of a list. -/
def WrittenList.events (l : WrittenList) : List ScopeEvent :=
  l.ends.events l.list.extent l.name

section Passage

variable {lists : List WrittenList} {events : List ScopeEvent}

lemma ends_mem_of_filter {l : WrittenList}
    (h : events.filter (·.kind.movesCarried) = lists.flatMap WrittenList.events) (hl : l ∈ lists) :
    (∃ a ∈ events, a.offset = l.ends.opening) ∧ ∃ a ∈ events, a.offset = l.ends.closing := by
  have hmem : ∀ a ∈ l.events, a ∈ events := by
    intro a ha
    have hfiltered : a ∈ lists.flatMap WrittenList.events := List.mem_flatMap.mpr ⟨l, hl, ha⟩
    rw [← h] at hfiltered
    exact List.mem_of_mem_filter hfiltered
  exact ⟨⟨_, hmem _ List.mem_cons_self, rfl⟩,
    ⟨_, hmem _ (List.mem_cons_of_mem _ List.mem_cons_self), rfl⟩⟩

lemma Passage.skips {before : List ScopeEvent} (h : Passage n events)
    (hkinds : ∀ a ∈ before, ¬ a.kind.movesCarried) (hvalues : ∀ a ∈ before, a.value? ≠ some n) :
    Passage n (before ++ events) := by
  induction before with
  | nil => exact h
  | cons a before ih =>
    obtain ⟨hkind, hkinds⟩ := List.forall_mem_cons.mp hkinds
    obtain ⟨hvalue, hvalues⟩ := List.forall_mem_cons.mp hvalues
    exact .skip hkind hvalue (ih hkinds hvalues)

/-- Events in order pass the carried symbols on when those that move symbols are the ends of lists,
one list after the other. -/
lemma Passage.of_lists (hsorted : events.Pairwise fun a b => a.offset ≤ b.offset)
    (hfilter : events.filter (·.kind.movesCarried) = lists.flatMap WrittenList.events)
    (hvalues : ∀ a ∈ events, a.value? = some n →
      ∃ l ∈ lists, l.ends.opening < a.offset ∧ a.offset < l.ends.closing) :
    Passage n events := by
  induction lists generalizing events with
  | nil =>
    rw [← List.append_nil events]
    refine Passage.nil.skips (List.filter_eq_nil_iff.mp hfilter) fun a ha hvalue => ?_
    obtain ⟨_, hl, _⟩ := hvalues a ha hvalue
    cases hl
  | cons l lists ih =>
    obtain ⟨before, behind, rfl, hbefore, _, hbehind⟩ := List.filter_eq_cons_iff.mp hfilter
    obtain ⟨inside, rest, rfl, hinside, _, hrest⟩ := List.filter_eq_cons_iff.mp hbehind
    obtain ⟨_, hsorted, hle⟩ := List.pairwise_append.mp hsorted
    have hclosed := (List.pairwise_append.mp (List.pairwise_cons.mp hsorted).2).2.1
    have hpassage : Passage n rest := by
      refine ih (List.pairwise_cons.mp hclosed).2 hrest fun a ha hvalue => ?_
      have hbehind := (List.pairwise_cons.mp hclosed).1 a ha
      obtain ⟨l', hl', hinside'⟩ := hvalues a (by simp [ha]) hvalue
      obtain rfl | hl' := List.mem_cons.mp hl'
      · exact absurd hinside'.2 (Int.not_lt.mpr hbehind)
      · exact ⟨l', hl', hinside'⟩
    refine (Passage.list rfl hinside rfl hpassage).skips hbefore fun a ha hvalue => ?_
    obtain ⟨l', hl', hinside', _⟩ := hvalues a (List.mem_append_left _ ha) hvalue
    obtain rfl | hl' := List.mem_cons.mp hl'
    · exact absurd hinside' (Int.not_lt.mpr (hle a ha _ List.mem_cons_self))
    · obtain ⟨⟨b, hb, hoffset⟩, _⟩ := ends_mem_of_filter hrest hl'
      have hab := hle a ha b (by simp [hb])
      omega

lemma Passage.not_opens_scope {e : ScopeEvent} (h : Passage n (e :: events)) :
    e.kind ≠ .opens .scope := by
  intro hkind
  cases h with
  | skip hskip =>
    rw [hkind] at hskip
    exact hskip rfl
  | @list _ _ _ _ list hopening =>
    rw [hkind] at hopening
    cases list with
    | signature => cases hopening
    | loopDeclaration => cases hopening

/-- Values that come inside of lists only come between the ends of these, and nowhere before or
behind. -/
lemma values_in_passage {before later : List ScopeEvent}
    (hsorted : (before ++ events ++ later).Pairwise fun a b => a.offset ≤ b.offset)
    (hfilter : events.filter (·.kind.movesCarried) = lists.flatMap WrittenList.events)
    (hvalues : ∀ a ∈ before ++ events ++ later, a.value? = some n →
      ∃ l ∈ lists, l.ends.opening < a.offset ∧ a.offset < l.ends.closing) :
    (∀ a ∈ before, a.value? ≠ some n) ∧ Passage n events ∧ ∀ a ∈ later, a.value? ≠ some n := by
  obtain ⟨hfront, _, hbehind⟩ := List.pairwise_append.mp hsorted
  obtain ⟨_, hevents, hbefore⟩ := List.pairwise_append.mp hfront
  refine ⟨?_, .of_lists hevents hfilter fun a ha => hvalues a (by simp [ha]), ?_⟩
  · intro a ha hvalue
    obtain ⟨l, hl, hopening, _⟩ := hvalues a (by simp [ha]) hvalue
    obtain ⟨⟨b, hb, hoffset⟩, _⟩ := ends_mem_of_filter hfilter hl
    have hab := hbefore a ha b hb
    omega
  · intro a ha hvalue
    obtain ⟨l, hl, _, hclosing⟩ := hvalues a (by simp [ha]) hvalue
    obtain ⟨_, b, hb, hoffset⟩ := ends_mem_of_filter hfilter hl
    have hba := hbehind b (List.mem_append_right before hb) a ha
    omega

end Passage

/-! ### What becomes of the values -/

/-- The lists of a signature and of the declarations of loops. -/
def writtenLists (f : Declaration) (s : Signature) (loops : List Loop) : List WrittenList :=
  s.lists.map (⟨.signature, ·, f.name⟩) ++ loops.map (⟨.loopDeclaration, ·.declaration, []⟩)

lemma flatMap_writtenLists {f : Declaration} {s : Signature} {p : Nat}
    (hsignature : (Site.ofOffset t f.stop.toNat).signature? = some s)
    (hsemicolon : NextChar t (· == ';') (s.stop + 1) p) (loops : List Loop) :
    (writtenLists f s loops).flatMap WrittenList.events = signatureEvents t f
      ++ loops.flatMap fun l => l.declaration.events .loopDeclaration := by
  rw [writtenLists, List.flatMap_append, List.flatMap_map, List.flatMap_map, signatureEvents,
    hsignature]
  dsimp only
  rw [Signature.events_eq_lists (Site.ofOffset_in t _) hsignature hsemicolon]
  rfl

/-- A document in which a value of a name comes only inside of lists, between whose ends no scope
opens or ends and no function is declared. -/
structure ValuePassage (t n : Text) (before passage later : List ScopeEvent) : Prop where
  events : (analyze t).events = before ++ passage ++ later
  first : ∃ first rest, before = first :: rest ∧ first.kind = .opens .scope
  before : ∀ a ∈ before, a.value? ≠ some n
  passage : Passage n passage
  later : ∀ a ∈ later, a.value? ≠ some n

/-- The values of a signature that a semicolon follows come in a passage. -/
lemma valuePassage_of_signature {f : Declaration} {s : Signature} {p : Nat} {loops : List Loop}
    {before passage later : List ScopeEvent}
    (hsignature : (Site.ofOffset (maskText t) f.stop.toNat).signature? = some s)
    (hsemicolon : NextChar (maskText t) (· == ';') (s.stop + 1) p)
    (honly : ∀ a ∈ (analyze t).events, a.value? = some n →
      ∃ l ∈ s.lists, l.opening < a.offset ∧ a.offset < l.closing)
    (hevents : (analyze t).events = before ++ passage ++ later)
    (hpassage : passage.filter (·.kind.movesCarried) = signatureEvents (maskText t) f
      ++ loops.flatMap fun l => l.declaration.events .loopDeclaration) :
    ValuePassage t n before passage later := by
  rw [← flatMap_writtenLists hsignature hsemicolon loops] at hpassage
  have hsorted : (analyze t).events.Pairwise fun a b => a.offset ≤ b.offset :=
    scopeEvents_pairwise (maskText t)
  have hvalues : ∀ a ∈ (analyze t).events, a.value? = some n →
      ∃ l ∈ writtenLists f s loops, l.ends.opening < a.offset ∧ a.offset < l.ends.closing := by
    intro a ha hvalue
    obtain ⟨l, hl, hinside⟩ := honly a ha hvalue
    exact ⟨_, List.mem_append_left _ (List.mem_map_of_mem hl), hinside⟩
  rw [hevents] at hsorted hvalues
  obtain ⟨hbefore, hpass, hlater⟩ := values_in_passage hsorted hpassage hvalues
  refine ⟨hevents, ?_, hbefore, hpass, hlater⟩
  -- the scope of the document begins before the signature
  obtain ⟨first, _, _, hall, hfirst, _⟩ := analyze_events t
  rw [hevents] at hall
  cases before with
  | cons a before =>
    obtain rfl : a = first := (List.cons.inj hall).1
    exact ⟨a, before, rfl, hfirst⟩
  | nil =>
    cases passage with
    | nil => cases hpassage
    | cons a passage =>
      obtain rfl : a = first := (List.cons.inj hall).1
      exact absurd hfirst hpass.not_opens_scope

namespace ValuePassage

variable {before passage later : List ScopeEvent} {e : ScopeEvent} {cursor : Int}

/-- The state between the passage and what follows it. -/
lemma exists_carried (h : ValuePassage t n before passage (e :: later)) (hle : cursor ≤ t.length) :
    ∃ m q : Replay,
      Replay.runPart t (e :: later) (before ++ passage) { cursor := cursor } = .ok m ∧
      Replay.runPart t [] (e :: later) m = .ok q ∧
      visibleAt t (analyze t).events cursor = .ok q.visible ∧ m.CarriesAtMost n ∧
      ((∃ d ∈ passage, d.kind = .declares .value ∧ d.name = n) → HasValue n m.carry) := by
  obtain ⟨first, rest, rfl, hfirst⟩ := h.first
  obtain ⟨q, hq⟩ := replay_analyze hle
  have hvisible : visibleAt t (analyze t).events cursor = .ok q.visible := by
    rw [visibleAt, hq]
    rfl
  rw [h.events] at hq
  obtain ⟨m, hm, hrun, hcarries, hcarried⟩ :=
    Replay.exists_carried hfirst (List.forall_mem_cons.mp h.before).2 h.passage hq
  exact ⟨m, q, hm, hrun, hvisible, hcarries, hcarried⟩

/-- Behind a function or the end of a scope the values are gone. -/
lemma dropped (h : ValuePassage t n before passage (e :: later))
    (hkind : e.kind = .declares .function ∨ e.kind = .closes .scope) (hle : cursor ≤ t.length) :
    ∃ symbols, visibleAt t (analyze t).events cursor = .ok symbols ∧ ¬ HasValue n symbols := by
  obtain ⟨m, q, _, hrun, hvisible, hcarries, _⟩ := h.exists_carried hle
  exact ⟨q.visible, hvisible, hcarries.not_visible hkind (List.forall_mem_cons.mp h.later).2 hrun⟩

/-- A declared value is in view inside of a scope that follows. -/
lemma taken {inside rest : List ScopeEvent} {closing : ScopeEvent}
    (h : ValuePassage t n before passage (e :: (inside ++ closing :: rest)))
    (hopening : e.kind = .opens .scope) (hnested : Nested inside)
    (hclosing : closing.kind = .closes .scope)
    (hdeclared : ∃ a ∈ (analyze t).events, a.kind = .declares .value ∧ a.name = n)
    (hstart : e.offset < cursor) (hstop : cursor ≤ closing.offset)
    (hclauses : ∀ a ∈ inside, ∀ c : LoopClause, a.kind = .closes c.extent → a.offset < cursor) :
    ∃ symbols, visibleAt t (analyze t).events cursor = .ok symbols ∧ HasValue n symbols := by
  have hle : cursor ≤ t.length := by
    have hmem : closing ∈ (analyze t).events := by simp [h.events]
    have hbound := (bounds_of_mem_scopeEvents (t := maskText t) hmem).2
    rw [length_maskText] at hbound
    omega
  obtain ⟨m, q, hm, hrun, hvisible, hcarries, hcarried⟩ := h.exists_carried hle
  refine ⟨q.visible, hvisible, ?_⟩
  -- the cursor stands behind all clauses up to here
  have hcursor : m.cursor = cursor := by
    have hsorted : (analyze t).events.Pairwise fun a b => a.offset ≤ b.offset :=
      scopeEvents_pairwise (maskText t)
    rw [h.events] at hsorted
    refine Replay.cursor_of_runPart hm (fun a ha _ _ => ?_) rfl
    have hbefore := (List.pairwise_append.mp hsorted).2.2 a ha e List.mem_cons_self
    omega
  have hcarry : HasValue n m.carry := by
    obtain ⟨a, ha, hkind, rfl⟩ := hdeclared
    have hvalue : a.value? = some a.name := by rw [ScopeEvent.value?, hkind]
    rw [h.events] at ha
    obtain ha | ha := List.mem_append.mp ha
    · obtain ha | ha := List.mem_append.mp ha
      · exact absurd hvalue (h.before a ha)
      · exact hcarried ⟨a, ha, hkind, rfl⟩
    · exact absurd hvalue (h.later a ha)
  subst hcursor
  exact Replay.visible_of_carried hcarries.opened hcarry hopening hnested hclosing hstart hstop
    hclauses hrun

end ValuePassage

/-- What becomes of a value that comes only in the lists of a signature that a semicolon follows,
when nothing opens or ends a scope or declares a function between these lists and some event but for
the declarations of loops. If that event declares a function or ends a scope, the value is in view
from no cursor. If it opens a scope, a declared value is in view from there to the end of that scope,
behind the clauses inside. -/
theorem bodiless_parameters_view (t : Text) (f : Declaration) (s : Signature) (n : Text)
    (before passage later : List ScopeEvent) (e : ScopeEvent) (loops : List Loop)
    (hsignature : (Site.ofOffset (analyze t).masked f.stop.toNat).signature? = some s)
    (hsemicolon : ∃ p, NextChar (analyze t).masked (· == ';') (s.stop + 1) p)
    (honly : ∀ a ∈ (analyze t).events, a.value? = some n →
      ∃ l ∈ s.lists, l.opening < a.offset ∧ a.offset < l.closing)
    (hevents : (analyze t).events = before ++ passage ++ e :: later)
    (hpassage : passage.filter (·.kind.movesCarried) = signatureEvents (analyze t).masked f
      ++ loops.flatMap fun l => l.declaration.events .loopDeclaration) :
    (e.kind = .declares .function ∨ e.kind = .closes .scope →
      ∀ cursor : Int, cursor ≤ t.length →
        ∃ symbols, visibleAt t (analyze t).events cursor = .ok symbols ∧ ¬ HasValue n symbols) ∧
    ∀ (inside rest : List ScopeEvent) (closing : ScopeEvent), e.kind = .opens .scope →
      later = inside ++ closing :: rest → Nested inside → closing.kind = .closes .scope →
      (∃ a ∈ (analyze t).events, a.kind = .declares .value ∧ a.name = n) →
      ∀ cursor : Int, e.offset < cursor → cursor ≤ closing.offset →
        (∀ a ∈ inside, ∀ c : LoopClause, a.kind = .closes c.extent → a.offset < cursor) →
        ∃ symbols, visibleAt t (analyze t).events cursor = .ok symbols ∧ HasValue n symbols := by
  obtain ⟨p, hsemicolon⟩ := hsemicolon
  have h := valuePassage_of_signature hsignature hsemicolon honly hevents hpassage
  refine ⟨fun hkind cursor hle => h.dropped hkind hle, ?_⟩
  rintro inside rest closing hopening rfl hnested hclosing hdeclared cursor hstart hstop hclauses
  exact h.taken hopening hnested hclosing hdeclared hstart hstop hclauses

/-! ### Functions without a body -/

/-- A function without a body in a block, with another block behind it. -/
def closedFunction : Text :=
  ['\x7b', '関', '数', ':', 'f', '(', '整', '数', ':', 'a', ')', '=', '>', '(', '整', '数', ':', 'b',
    ')', ';', '\x7d', '\x7b', '\x7d']

lemma events_closedFunction :
    (analyze closedFunction).events =
      [⟨0, .opens .scope, [], none⟩, ⟨0, .opens .scope, [], none⟩,
        ⟨1, .declares .function, ['f'], none⟩] ++
      [⟨5, .opens .signature, ['f'], none⟩, ⟨9, .declares .value, ['a'], some ['整', '数']⟩,
        ⟨10, .closes .signature, ['f'], none⟩, ⟨13, .opens .signature, ['f'], none⟩,
        ⟨17, .declares .value, ['b'], some ['整', '数']⟩, ⟨18, .closes .signature, ['f'], none⟩] ++
      ⟨20, .closes .scope, [], none⟩ :: [⟨21, .opens .scope, [], none⟩,
        ⟨22, .closes .scope, [], none⟩, ⟨23, .closes .scope, [], none⟩] := by
  have hmask : maskText closedFunction = closedFunction := by decide
  have hclasses : occurrences findClass closedFunction = [] := by decide
  have hinner : innerEvents closedFunction (classify closedFunction)
      = [⟨0, .opens .scope, [], none⟩, ⟨20, .closes .scope, [], none⟩,
        ⟨21, .opens .scope, [], none⟩, ⟨22, .closes .scope, [], none⟩,
        ⟨1, .declares .function, ['f'], none⟩, ⟨9, .declares .value, ['a'], some ['整', '数']⟩,
        ⟨17, .declares .value, ['b'], some ['整', '数']⟩, ⟨5, .opens .signature, ['f'], none⟩,
        ⟨10, .closes .signature, ['f'], none⟩, ⟨13, .opens .signature, ['f'], none⟩,
        ⟨18, .closes .signature, ['f'], none⟩] := by
    simp only [innerEvents, classify, hclasses, List.map_nil, typeForms_nil]
    decide
  simp only [analyze, hmask, scopeEvents, hinner,
    mergeSort_eq_foldr offset_le_trans offset_le_total]
  decide

/-- A function without a body on the line before a loop. -/
def functionBeforeLoop : Text :=
  ['関', '数', ':', 'f', '(', '整', '数', ':', 'a', ')', ';', '\n', '(', '整', '数', ':', 'i', ';', ')',
    'か', 'ら', '(', 'i', '<', '9', ')', 'ま', 'で', '(', 'i', '+', '+', ')', '\x7b', '\x7d']

lemma events_functionBeforeLoop :
    (analyze functionBeforeLoop).events =
      [⟨0, .opens .scope, [], none⟩, ⟨0, .declares .function, ['f'], none⟩] ++
      [⟨4, .opens .signature, ['f'], none⟩, ⟨8, .declares .value, ['a'], some ['整', '数']⟩,
        ⟨9, .closes .signature, ['f'], none⟩, ⟨12, .opens .loopDeclaration, [], none⟩,
        ⟨16, .declares .value, ['i'], some ['整', '数']⟩,
        ⟨18, .closes .loopDeclaration, [], none⟩, ⟨21, .opens .loopCondition, [], none⟩,
        ⟨25, .closes .loopCondition, [], none⟩, ⟨28, .opens .loopStep, [], none⟩,
        ⟨32, .closes .loopStep, [], none⟩] ++
      ⟨33, .opens .scope, [], none⟩ :: ([] ++ ⟨34, .closes .scope, [], none⟩ ::
        [⟨35, .closes .scope, [], none⟩]) := by
  have hmask : maskText functionBeforeLoop = functionBeforeLoop := by decide
  have hclasses : occurrences findClass functionBeforeLoop = [] := by decide
  have hinner : innerEvents functionBeforeLoop (classify functionBeforeLoop)
      = [⟨33, .opens .scope, [], none⟩, ⟨34, .closes .scope, [], none⟩,
        ⟨0, .declares .function, ['f'], none⟩, ⟨8, .declares .value, ['a'], some ['整', '数']⟩,
        ⟨16, .declares .value, ['i'], some ['整', '数']⟩, ⟨4, .opens .signature, ['f'], none⟩,
        ⟨9, .closes .signature, ['f'], none⟩, ⟨12, .opens .loopDeclaration, [], none⟩,
        ⟨18, .closes .loopDeclaration, [], none⟩, ⟨21, .opens .loopCondition, [], none⟩,
        ⟨25, .closes .loopCondition, [], none⟩, ⟨28, .opens .loopStep, [], none⟩,
        ⟨32, .closes .loopStep, [], none⟩] := by
    simp only [innerEvents, classify, hclasses, List.map_nil, typeForms_nil]
    decide
  simp only [analyze, hmask, scopeEvents, hinner,
    mergeSort_eq_foldr offset_le_trans offset_le_total]
  decide

/-- The result of the first function is seen nowhere, not even in the block behind it. The parameter
of the second is seen in the body of the loop. -/
theorem bodiless_parameters_dropped_and_taken :
    (∀ cursor : Int, cursor ≤ closedFunction.length →
      ∃ symbols, visibleAt closedFunction (analyze closedFunction).events cursor = .ok symbols ∧
        ¬ HasValue ['b'] symbols) ∧
    ∃ symbols, visibleAt functionBeforeLoop (analyze functionBeforeLoop).events 34 = .ok symbols ∧
      HasValue ['a'] symbols := by
  have hclosed := bodiless_parameters_view closedFunction ⟨['f'], 1, 5, none⟩
    ⟨⟨5, 10⟩, some ⟨⟨13, 18⟩, none⟩⟩ ['b'] _ _ _ _ [] (by decide)
    ⟨19, .of_charAt ⟨';', by decide, rfl⟩⟩ (by rw [events_closedFunction]; decide)
    events_closedFunction (by decide)
  have hloop := bodiless_parameters_view functionBeforeLoop ⟨['f'], 0, 4, none⟩
    ⟨⟨4, 9⟩, none⟩ ['a'] _ _ _ _ [⟨⟨12, 18⟩, ⟨21, 25⟩, ⟨28, 32⟩⟩] (by decide)
    ⟨10, .of_charAt ⟨';', by decide, rfl⟩⟩ (by rw [events_functionBeforeLoop]; decide)
    events_functionBeforeLoop (by decide)
  refine ⟨hclosed.1 (.inr rfl), hloop.2 [] _ _ rfl rfl .nil rfl ?_ 34 (by decide) (by decide) ?_⟩
  · rw [events_functionBeforeLoop]
    decide
  · simp

/-- A function without a body before a block. -/
def functionBeforeBlock : Text :=
  ['関', '数', ':', 'f', '(', '整', '数', ':', 'a', ')', ';', '\x7b', '\x7d']

/-- The parameter of a function without a body is in view in the block behind it. -/
theorem functionBeforeBlock_view :
    (⟨['f'], 0, 4, none⟩ : Declaration)
      ∈ (classify (analyze functionBeforeBlock).masked).functions ∧
    (Site.ofOffset (analyze functionBeforeBlock).masked 4).signature? = some ⟨⟨4, 9⟩, none⟩ ∧
    NextChar (analyze functionBeforeBlock).masked (· == ';') 10 10 ∧
    (∀ a ∈ (analyze functionBeforeBlock).events, a.value? = some ['a'] →
      4 < a.offset ∧ a.offset < 9) ∧
    visibleAt functionBeforeBlock (analyze functionBeforeBlock).events 12
      = .ok [⟨.value, ['a'], some ['整', '数'], .everyone⟩, ⟨.function, ['f'], none, .everyone⟩] := by
  have hf : (⟨['f'], 0, 4, none⟩ : Declaration)
      ∈ (classify (analyze functionBeforeBlock).masked).functions :=
    mem_functions_of_start ⟨0, ['関', '数', ':']⟩ ⟨3, ['f']⟩ (by decide) (by decide) (by decide)
  have hevents : (analyze functionBeforeBlock).events
      = [⟨0, .opens .scope, [], none⟩, ⟨0, .declares .function, ['f'], none⟩,
        ⟨4, .opens .signature, ['f'], none⟩, ⟨8, .declares .value, ['a'], some ['整', '数']⟩,
        ⟨9, .closes .signature, ['f'], none⟩, ⟨11, .opens .scope, [], none⟩,
        ⟨12, .closes .scope, [], none⟩, ⟨13, .closes .scope, [], none⟩] := by
    have hmask : maskText functionBeforeBlock = functionBeforeBlock := by decide
    have hclasses : occurrences findClass functionBeforeBlock = [] := by decide
    have hinner : innerEvents functionBeforeBlock (classify functionBeforeBlock)
        = [⟨11, .opens .scope, [], none⟩, ⟨12, .closes .scope, [], none⟩,
          ⟨0, .declares .function, ['f'], none⟩, ⟨8, .declares .value, ['a'], some ['整', '数']⟩,
          ⟨4, .opens .signature, ['f'], none⟩, ⟨9, .closes .signature, ['f'], none⟩] := by
      simp only [innerEvents, classify, hclasses, List.map_nil, typeForms_nil]
      decide
    simp only [analyze, hmask, scopeEvents, hinner,
      mergeSort_eq_foldr offset_le_trans offset_le_total]
    decide
  rw [hevents]
  exact ⟨hf, by decide, .of_charAt ⟨';', by decide, rfl⟩, by decide, by decide⟩

end LazeEdit
