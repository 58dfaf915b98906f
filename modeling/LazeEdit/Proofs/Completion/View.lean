import LazeEdit.Proofs.Completion.Outline

/-!
# The view from a cursor

A replay of the events of an outline agrees with the reading of the outline. `Replay.Agrees` ties
the state to what has been read: the innermost scope and those around it, the symbols carried to the
next scope, the class that waits for its body, the class bodies that have ended and the view. Each
event keeps this in its own way, a header hands its symbols to the scope behind it
(`Agrees.header`), and an outline adds its declarations to the innermost scope, its class bodies to
those that have ended and what its scopes offer to the view (`Agrees.outline`). The proof goes by
induction on the outline for all events behind it, of which there is at least one: the end of the
scope around it. `visibleAt_eq_enclosing` follows for a whole document.
-/

namespace LazeEdit

/-! ### Class bodies -/

/-- The first entry of a registry hides later ones of its name. -/
lemma Registry.members_cons (entry : Text × List Symbol) (registry : Registry) (name : Text) :
    Registry.members (entry :: registry) name
      = if name = entry.1 then entry.2 else registry.members name := by
  rw [Registry.members, List.lookup_cons]
  by_cases h : name = entry.1
  · rw [if_pos h, h, beq_self_eq_true]
    rfl
  · rw [if_neg h, beq_false_of_ne h]
    rfl

/-- A registry gives the symbols that were put in last. -/
lemma Registry.members_insert (registry : Registry) (name : Text) (symbols : List Symbol)
    (other : Text) :
    Registry.members (registry.insert name symbols) other
      = if other = name then symbols else registry.members other := by
  induction registry with
  | nil => exact Registry.members_cons (name, symbols) [] other
  | cons entry registry ih =>
    rw [Registry.insert, Registry.members_cons]
    split
    case isTrue h =>
      subst h
      rw [Registry.members_cons]
      split <;> rfl
    case isFalse h =>
      rw [Registry.members_cons, ih]
      split
      case isTrue he => rw [if_neg fun hname => h (he.symm.trans hname)]
      case isFalse => rfl

/-- A class body that has just ended is the last one of its name. -/
lemma lastBody_append (bodies : List (Text × List Symbol)) (name : Text) (symbols : List Symbol)
    (other : Text) :
    lastBody (bodies ++ [(name, symbols)]) other
      = if other = name then symbols else lastBody bodies other := by
  rw [lastBody, List.reverse_append]
  exact Registry.members_cons (name, symbols) bodies.reverse other

namespace Replay

variable {t : Text}

/-- The state of a replay for a cursor agrees with what has been read of an outline. -/
structure Agrees (cursor : Int) (top : Frame) (around : List Frame) (carry : List Symbol)
    (waiting : Option Text) (bodies : List (Text × List Symbol)) (visible : List Symbol)
    (r : Replay) : Prop where
  cursor_eq : r.cursor = cursor
  stack_eq : r.stack = top :: around
  carry_eq : r.carry = carry
  waiting_eq : r.pendingClass = waiting
  registry_eq : r.registry.members = lastBody bodies
  visible_eq : r.visible = visible

namespace Agrees

variable {cursor : Int} {top : Frame} {around : List Frame} {carry : List Symbol}
  {waiting : Option Text} {bodies : List (Text × List Symbol)} {visible : List Symbol} {r : Replay}

/-- A declaration joins the innermost scope. -/
lemma declares (h : r.Agrees cursor top around [] waiting bodies visible) (kind : SymbolKind)
    (mark : Mark) (later : List ScopeEvent) :
    ∃ r', r.step t (mark.event (.declares kind)) later = .ok r' ∧
      r'.Agrees cursor { top with symbols := top.symbols ++ [mark.symbol kind top.access] }
        around [] (Outline.waitingBehind kind mark waiting) bodies visible := by
  obtain ⟨rfl, hstack, hcarry, rfl, hregistry, rfl⟩ := h
  simp only [step, Mark.event, onTop, hstack]
  cases kind with
  | function => exact ⟨_, rfl, rfl, rfl, rfl, rfl, hregistry, rfl⟩
  | value => exact ⟨_, rfl, rfl, rfl, hcarry, rfl, hregistry, rfl⟩
  | classType => exact ⟨_, rfl, rfl, rfl, hcarry, rfl, hregistry, rfl⟩

/-- A change of access changes that of the innermost scope. -/
lemma grants (h : r.Agrees cursor top around [] waiting bodies visible) (access : Access)
    (mark : Mark) (later : List ScopeEvent) :
    ∃ r', r.step t (mark.event (.grants access)) later = .ok r' ∧
      r'.Agrees cursor { top with access := access } around [] waiting bodies visible := by
  obtain ⟨rfl, hstack, hcarry, rfl, hregistry, rfl⟩ := h
  simp only [step, Mark.event, onTop, hstack]
  exact ⟨_, rfl, rfl, rfl, hcarry, rfl, hregistry, rfl⟩

/-- A scope opens with the symbols carried to it, and as the body of the class that waits. -/
lemma opensScope (h : r.Agrees cursor top around carry waiting bodies visible) (mark : Mark)
    (later : List ScopeEvent) :
    ∃ r', r.step t (mark.event (.opens .scope)) later = .ok r' ∧
      r'.Agrees cursor ⟨mark.offset, carry, top.access, waiting⟩ (top :: around) [] none bodies
        visible := by
  obtain ⟨rfl, hstack, rfl, rfl, hregistry, rfl⟩ := h
  simp only [step, Mark.event, push, hstack]
  exact ⟨_, rfl, rfl, rfl, rfl, rfl, hregistry, rfl⟩

/-- A scope inside another one adds what it offers to the view when it ends, and its symbols to the
class bodies when it is one. -/
lemma closesScope (hle : cursor ≤ t.length) {next : Frame}
    (h : r.Agrees cursor top (next :: around) carry waiting bodies visible) (mark : Mark)
    {later : List ScopeEvent} (hlater : later ≠ []) :
    ∃ r', r.step t (mark.event (.closes .scope)) later = .ok r' ∧
      r'.Agrees cursor next around [] waiting
        (bodies ++ (top.owner.map fun name => (name, top.symbols)).toList)
        (visible ++ offered t cursor top.start mark.offset (lastBody bodies) top.symbols) := by
  obtain ⟨rfl, hstack, rfl, rfl, hregistry, rfl⟩ := h
  cases later with
  | nil => exact absurd rfl hlater
  | cons e later =>
    simp only [step, Mark.event, hstack, close_eq hle, hregistry]
    refine ⟨_, rfl, rfl, rfl, rfl, rfl, ?_, rfl⟩
    show (r.registryBehind top).members = _
    funext other
    rw [registryBehind]
    cases top.owner with
    | none =>
      show r.registry.members other = lastBody (bodies ++ []) other
      rw [hregistry, List.append_nil]
    | some name =>
      show Registry.members (r.registry.insert name top.symbols) other
        = lastBody (bodies ++ [(name, top.symbols)]) other
      rw [Registry.members_insert, lastBody_append, hregistry]

/-- A list in front of a block is a scope of its own that takes the carried symbols. -/
lemma opensList (h : r.Agrees cursor top around carry waiting bodies visible) (list : ValueList)
    (mark : Mark) (later : List ScopeEvent) :
    ∃ r', r.step t (mark.event (.opens list.extent)) later = .ok r' ∧
      r'.Agrees cursor ⟨mark.offset, carry, top.access, none⟩ (top :: around) [] waiting bodies
        visible := by
  obtain ⟨rfl, hstack, rfl, rfl, hregistry, rfl⟩ := h
  cases list with
  | signature =>
    simp only [step, Mark.event, ValueList.extent, push, hstack]
    exact ⟨_, rfl, rfl, rfl, rfl, rfl, hregistry, rfl⟩
  | loopDeclaration =>
    simp only [step, Mark.event, ValueList.extent, push, hstack]
    exact ⟨_, rfl, rfl, rfl, rfl, rfl, hregistry, rfl⟩

/-- The end of a list in front of a block hands its symbols on. -/
lemma closesList {next : Frame}
    (h : r.Agrees cursor top (next :: around) carry waiting bodies visible) (list : ValueList)
    (mark : Mark) (later : List ScopeEvent) :
    ∃ r', r.step t (mark.event (.closes list.extent)) later = .ok r' ∧
      r'.Agrees cursor next around top.symbols waiting bodies visible := by
  obtain ⟨rfl, hstack, rfl, rfl, hregistry, rfl⟩ := h
  cases list with
  | signature =>
    simp only [step, Mark.event, ValueList.extent, handOver, hstack]
    exact ⟨_, rfl, rfl, rfl, rfl, rfl, hregistry, rfl⟩
  | loopDeclaration =>
    simp only [step, Mark.event, ValueList.extent, handOver, hstack]
    exact ⟨_, rfl, rfl, rfl, rfl, rfl, hregistry, rfl⟩

/-! ### Headers -/

/-- The values of a list join it in their order. -/
lemma values (h : r.Agrees cursor top around [] waiting bodies visible) (vs : List Mark)
    (later : List ScopeEvent) :
    ∃ r', run t (vs.map (·.event (.declares .value)) ++ later) r = run t later r' ∧
      r'.Agrees cursor
        { top with symbols := top.symbols ++ vs.map (·.symbol .value top.access) } around []
        waiting bodies visible := by
  induction vs generalizing r top with
  | nil =>
    refine ⟨r, rfl, ?_⟩
    rwa [List.map_nil, List.append_nil]
  | cons v vs ih =>
    obtain ⟨r1, hr1, h1⟩ := h.declares (t := t) .value v
      (vs.map (·.event (.declares .value)) ++ later)
    obtain ⟨r2, hr2, h2⟩ := ih h1
    refine ⟨r2, (run_cons hr1).trans hr2, ?_⟩
    rwa [List.append_assoc] at h2

/-- A clause that the cursor is not in changes nothing. -/
lemma clause (h : r.Agrees cursor top around carry waiting bodies visible) (c : LoopClause)
    (opening closing : Mark) (later : List ScopeEvent)
    (houtside : ¬ (opening.offset < cursor ∧ cursor ≤ closing.offset)) :
    ∃ r', run t (opening.event (.opens c.extent) :: closing.event (.closes c.extent) :: later) r
        = run t later r' ∧
      r'.Agrees cursor top around carry waiting bodies visible := by
  obtain ⟨rfl, hstack, rfl, rfl, hregistry, rfl⟩ := h
  -- the start of the clause is noted, and the test at its end fails
  refine ⟨{ r with clauseStart := opening.offset }, ?_, rfl, hstack, rfl, rfl, hregistry, rfl⟩
  have hstay : enterBody { r with clauseStart := opening.offset } closing.offset later
      = { r with clauseStart := opening.offset } := if_neg houtside
  cases c with
  | condition =>
    rw [run_cons rfl]
    exact run_cons (congrArg Except.ok hstay)
  | step =>
    rw [run_cons rfl]
    exact run_cons (congrArg Except.ok hstay)

/-- A part of a header adds its symbols to those carried to the block. -/
lemma headerPart (h : r.Agrees cursor top around carry waiting bodies visible) (part : HeaderPart)
    (later : List ScopeEvent)
    (houtside : ∀ c ∈ part.clauses, ¬ (c.1 < cursor ∧ cursor ≤ c.2)) :
    ∃ r', run t (part.events ++ later) r = run t later r' ∧
      r'.Agrees cursor top around (carry ++ part.symbols top.access) waiting bodies visible := by
  cases part with
  | values list opening vs closing =>
    obtain ⟨r1, hr1, h1⟩ := h.opensList (t := t) list opening
      (vs.map (·.event (.declares .value)) ++ (closing.event (.closes list.extent) :: later))
    obtain ⟨r2, hr2, h2⟩ := h1.values (t := t) vs (closing.event (.closes list.extent) :: later)
    obtain ⟨r3, hr3, h3⟩ := h2.closesList (t := t) list closing later
    refine ⟨r3, ?_, h3⟩
    rw [HeaderPart.events, List.cons_append, List.append_assoc]
    exact (run_cons hr1).trans (hr2.trans (run_cons hr3))
  | clause c opening closing =>
    obtain ⟨r', hr', h'⟩ := h.clause (t := t) c opening closing later
      (houtside _ List.mem_cons_self)
    refine ⟨r', hr', ?_⟩
    rwa [HeaderPart.symbols, List.append_nil]
  | counter mark =>
    obtain ⟨rfl, hstack, rfl, rfl, hregistry, rfl⟩ := h
    have hstep : r.step t (mark.event .counter) later = .ok { r with
        carry := r.carry ++ [⟨.value, counterName, some int64Word, top.access⟩] } := by
      simp only [step, Mark.event, hstack]
    exact ⟨_, run_cons hstep, rfl, hstack, rfl, rfl, hregistry, rfl⟩

/-- A header hands its symbols to the block behind it. -/
lemma header (h : r.Agrees cursor top around carry waiting bodies visible)
    (parts : List HeaderPart) (later : List ScopeEvent)
    (houtside : ∀ c ∈ parts.flatMap HeaderPart.clauses, ¬ (c.1 < cursor ∧ cursor ≤ c.2)) :
    ∃ r', run t (parts.flatMap HeaderPart.events ++ later) r = run t later r' ∧
      r'.Agrees cursor top around (carry ++ parts.flatMap (HeaderPart.symbols top.access)) waiting
        bodies visible := by
  induction parts generalizing r carry with
  | nil =>
    refine ⟨r, rfl, ?_⟩
    rwa [List.flatMap_nil, List.append_nil]
  | cons part parts ih =>
    rw [List.flatMap_cons] at houtside
    obtain ⟨r1, hr1, h1⟩ := h.headerPart (t := t) part
      (parts.flatMap HeaderPart.events ++ later)
      fun c hc => houtside c (List.mem_append_left _ hc)
    obtain ⟨r2, hr2, h2⟩ := ih h1 fun c hc => houtside c (List.mem_append_right _ hc)
    refine ⟨r2, ?_, ?_⟩
    · rw [List.flatMap_cons, List.append_assoc]
      exact hr1.trans hr2
    · rwa [List.append_assoc, ← List.flatMap_cons] at h2

/-! ### Outlines -/

/-- An outline adds its declarations to the innermost scope, its class bodies to those that have
ended, and what its scopes offer to the view. -/
lemma outline (hle : cursor ≤ t.length) (o : Outline)
    (h : r.Agrees cursor top around [] waiting bodies visible) {later : List ScopeEvent}
    (hlater : later ≠ []) (houtside : ∀ c ∈ o.clauses, ¬ (c.1 < cursor ∧ cursor ≤ c.2)) :
    ∃ r' access, run t (o.events ++ later) r = run t later r' ∧
      r'.Agrees cursor
        { top with symbols := top.symbols ++ o.declared top.access, access := access } around []
        (o.waitingClass waiting) (bodies ++ o.classBodies top.access waiting)
        (visible ++ (o.scopes top.access waiting bodies).offered t cursor) := by
  induction o generalizing r top around waiting bodies visible later with
  | done =>
    refine ⟨r, top.access, rfl, ?_⟩
    rw [Outline.declared, Outline.classBodies, List.append_nil, List.append_nil]
    show r.Agrees cursor _ around [] waiting bodies (visible ++ [])
    rwa [List.append_nil]
  | declares kind mark next ih =>
    obtain ⟨r1, hr1, h1⟩ := h.declares (t := t) kind mark (next.events ++ later)
    obtain ⟨r2, access, hr2, h2⟩ := ih h1 hlater houtside
    refine ⟨r2, access, (run_cons hr1).trans hr2, ?_⟩
    rwa [List.append_assoc] at h2
  | grants level mark next ih =>
    obtain ⟨r1, hr1, h1⟩ := h.grants (t := t) level mark (next.events ++ later)
    obtain ⟨r2, access, hr2, h2⟩ := ih h1 hlater houtside
    exact ⟨r2, access, (run_cons hr1).trans hr2, h2⟩
  | block parts opening body closing next ihBody ihNext =>
    have houtside' : ∀ c ∈ parts.flatMap HeaderPart.clauses ++ body.clauses ++ next.clauses,
        ¬ (c.1 < cursor ∧ cursor ≤ c.2) := houtside
    -- the end of this block is not the last event, so that it ends this block only
    have hnext : next.events ++ later ≠ [] := List.append_ne_nil_of_right_ne_nil _ hlater
    -- in the order of the events: the header, the opening, the body, the closing and what follows
    obtain ⟨r1, hr1, h1⟩ := h.header (t := t) parts
      (opening.event (.opens .scope)
        :: (body.events ++ (closing.event (.closes .scope) :: (next.events ++ later))))
      fun c hc => houtside' c (List.mem_append_left _ (List.mem_append_left _ hc))
    obtain ⟨r2, hr2, h2⟩ := h1.opensScope (t := t) opening
      (body.events ++ (closing.event (.closes .scope) :: (next.events ++ later)))
    obtain ⟨r3, _, hr3, h3⟩ := ihBody h2 (List.cons_ne_nil _ _)
      fun c hc => houtside' c (List.mem_append_left _ (List.mem_append_right _ hc))
    obtain ⟨r4, hr4, h4⟩ := h3.closesScope hle closing hnext
    obtain ⟨r5, access, hr5, h5⟩ := ihNext h4 hlater
      fun c hc => houtside' c (List.mem_append_right _ hc)
    refine ⟨r5, access, ?_, ?_⟩
    · rw [Outline.events, List.append_assoc, List.cons_append, List.append_assoc, List.cons_append]
      exact hr1.trans ((run_cons hr2).trans (hr3.trans ((run_cons hr4).trans hr5)))
    · simpa only [Outline.declared, Outline.waitingClass, Outline.classBodies, Outline.scopes,
        Outline.blockSymbols, Forest.offered_cons, List.nil_append, List.append_assoc] using h5

end Agrees

end Replay

/-! ### Documents -/

/-- The view into a document is what its scopes offer, in the order of their ends. -/
lemma visibleAt_document {t : Text} {opening closing : Mark} {items : Outline} {cursor : Int}
    (hle : cursor ≤ t.length)
    (houtside : ∀ c ∈ (Outline.document opening items closing).clauses,
      ¬ (c.1 < cursor ∧ cursor ≤ c.2)) :
    visibleAt t (Outline.document opening items closing).events cursor
      = .ok (((Outline.document opening items closing).scopes .everyone none []).offered t
          cursor) := by
  have hstart : Replay.Agrees cursor ⟨opening.offset, [], .everyone, none⟩ [] [] none [] []
      { cursor := cursor, stack := [⟨opening.offset, [], .everyone, none⟩] } :=
    ⟨rfl, rfl, rfl, rfl, rfl, rfl⟩
  have hitems : ∀ c ∈ items.clauses, ¬ (c.1 < cursor ∧ cursor ≤ c.2) := fun c hc =>
    houtside c (List.mem_append_left _ (List.mem_append_right _ hc))
  obtain ⟨r, access, hr, h⟩ := hstart.outline hle items
    (List.cons_ne_nil (closing.event (.closes .scope)) []) hitems
  obtain ⟨hcursor, hstack, _, _, hregistry, hvisible⟩ := h
  have hrun : replay t (Outline.document opening items closing).events cursor
      = Replay.run t [closing.event (.closes .scope)] r := by
    rw [replay, Outline.document, Outline.events, List.flatMap_nil, List.nil_append]
    exact (Replay.run_cons rfl).trans hr
  -- the last event ends the one scope that is open, that of the document
  have hlast : r.step t (closing.event (.closes .scope)) [] = .ok { r with
      stack := []
      visible := r.visible ++ offered t r.cursor opening.offset closing.offset
        r.registry.members (items.declared .everyone)
      carry := [] } := by
    simp only [Replay.step, Mark.event, hstack, Replay.closeAll]
    rw [Replay.close_eq (hcursor ▸ hle)]
    rfl
  rw [visibleAt, hrun, Replay.run_cons hlast]
  show Except.ok (r.visible ++ _) = _
  rw [hvisible, hcursor, hregistry]
  rw [Outline.document, Outline.scopes, Forest.offered_cons, Outline.scopes, List.nil_append,
    List.nil_append]
  show _ = Except.ok (_ ++ (_ ++ []))
  rw [List.append_nil]
  rfl

/-- The view from a cursor in a document whose events are well nested and do not go back, when the
cursor is in no condition or step clause: from the innermost scope around the cursor to that of the
document, the symbols of each scope and the members that it offers for the receiver. The path has
every scope around the cursor. -/
theorem visibleAt_eq_enclosing (t : Text) (opening closing : Mark) (items : Outline) (cursor : Int)
    (hsorted : ((Outline.document opening items closing).events.map ScopeEvent.offset).Pairwise
      (· ≤ ·))
    (hcursor : cursor ≤ t.length)
    (houtside : ∀ c ∈ (Outline.document opening items closing).clauses,
      ¬ (c.1 < cursor ∧ cursor ≤ c.2)) :
    let scopes := (Outline.document opening items closing).scopes .everyone none []
    scopes.enclosing cursor = scopes.all.filter (Scope.Around cursor) ∧
    ∃ receiver, receiver? t cursor = .ok receiver ∧
      visibleAt t (Outline.document opening items closing).events cursor
        = .ok ((scopes.enclosing cursor).flatMap (Scope.offers receiver)) := by
  have hoffsets := hsorted.sublist
    ((Outline.document opening items closing).offsets_sublist .everyone none [])
  have hpath := Forest.enclosing_eq_filter hoffsets cursor
  refine ⟨hpath, receiverAt t cursor, receiver?_eq hcursor, ?_⟩
  rw [visibleAt_document hcursor houtside, hpath]
  rfl

/-- A class with a hidden member, and behind its body a block whose header declares a value of the
class, has a clause and brings a counter. -/
def catOutline : Outline :=
  .declares .classType ⟨0, ['猫'], none⟩ <|
  .block [] ⟨0, [], none⟩
    (.grants .owner ⟨0, [], none⟩ <| .declares .value ⟨0, ['年'], some ['整', '数']⟩ .done)
    ⟨0, [], none⟩ <|
  .block [.values .signature ⟨0, [], none⟩ [⟨0, ['c'], some ['猫']⟩] ⟨0, [], none⟩,
      .clause .condition ⟨0, [], none⟩ ⟨1, [], none⟩, .counter ⟨1, [], none⟩]
    ⟨1, [], none⟩ (.declares .value ⟨1, ['d'], none⟩ .done) ⟨2, [], none⟩
  .done

theorem visibleAt_catOutline :
    ((Outline.document ⟨0, [], none⟩ catOutline ⟨2, [], none⟩).events.map
      ScopeEvent.offset).Pairwise (· ≤ ·) ∧
    (∀ c ∈ (Outline.document ⟨0, [], none⟩ catOutline ⟨2, [], none⟩).clauses,
      ¬ (c.1 < 2 ∧ 2 ≤ c.2)) ∧
    visibleAt ['c', '.'] (Outline.document ⟨0, [], none⟩ catOutline ⟨2, [], none⟩).events 2
      = .ok [⟨.value, ['c'], some ['猫'], .everyone⟩,
          ⟨.value, counterName, some int64Word, .everyone⟩, ⟨.value, ['d'], none, .everyone⟩,
          ⟨.value, ['年'], some ['整', '数'], .owner⟩, ⟨.classType, ['猫'], none, .everyone⟩] := by
  have hsorted : ((Outline.document ⟨0, [], none⟩ catOutline ⟨2, [], none⟩).events.map
      ScopeEvent.offset).Pairwise (· ≤ ·) := by decide
  have houtside : ∀ c ∈ (Outline.document ⟨0, [], none⟩ catOutline ⟨2, [], none⟩).clauses,
      ¬ (c.1 < 2 ∧ 2 ≤ c.2) := by decide
  obtain ⟨_, receiver, hreceiver, hview⟩ := visibleAt_eq_enclosing ['c', '.'] ⟨0, [], none⟩
    ⟨2, [], none⟩ catOutline 2 hsorted (by decide) houtside
  obtain rfl : some ['c'] = receiver := by
    have hfound : receiver? ['c', '.'] 2 = .ok (some ['c']) := by decide
    exact Except.ok.inj (hfound.symm.trans hreceiver)
  exact ⟨hsorted, houtside, hview.trans (by decide)⟩

end LazeEdit
