import LazeEdit.Proofs.Completion.Replay
import Mathlib.Data.List.Basic

/-!
# Outlines

An outline is a well-nested list of events as a tree: the declarations, the changes of access and
the blocks of a scope, where a block may have a header in front of it. `Outline.events` writes an
outline out as the list of events that it stands for.

An outline is read without a stack. `Outline.scopes` turns the blocks into scopes, each with its
symbols and with the class bodies that have ended when it ends. The scopes around a cursor are then
one path through this forest (`Forest.enclosing`), and each of them offers its symbols and the
members of the receiver. When the offsets do not decrease, the path has all scopes around the
cursor, in the order of their ends (`Forest.enclosing_eq_filter`): a scope on one side of the cursor
has no scope around the cursor inside it, and two scopes side by side are not both around it.
-/

namespace LazeEdit

/-! ### Events as a tree -/

/-- What an event says beside its kind. -/
structure Mark where
  offset : Int
  name : Text := []
  declaredType : Option Text := none
  deriving DecidableEq, Repr

namespace Mark

/-- The event of a kind at a mark. -/
def event (m : Mark) (kind : EventKind) : ScopeEvent :=
  ⟨m.offset, kind, m.name, m.declaredType⟩

/-- The symbol of a kind that a mark declares where an access level is in force. -/
def symbol (m : Mark) (kind : SymbolKind) (access : Access) : Symbol :=
  ⟨kind, m.name, m.declaredType, access⟩

end Mark

/-- The lists in front of a block whose values belong to the block. -/
inductive ValueList where
  | signature
  | loopDeclaration
  deriving DecidableEq, Repr

/-- The stretch of text that a list is. -/
def ValueList.extent : ValueList → Extent
  | signature => .signature
  | loopDeclaration => .loopDeclaration

/-- The clauses in front of a block that declare nothing. -/
inductive LoopClause where
  | condition
  | step
  deriving DecidableEq, Repr

/-- The stretch of text that a clause is. -/
def LoopClause.extent : LoopClause → Extent
  | condition => .loopCondition
  | step => .loopStep

/-- A part of the header of a block. -/
inductive HeaderPart where
  | values (list : ValueList) (opening : Mark) (values : List Mark) (closing : Mark)
  | clause (clause : LoopClause) (opening closing : Mark)
  | counter (mark : Mark)
  deriving DecidableEq, Repr

namespace HeaderPart

/-- The events of a part of a header. -/
def events : HeaderPart → List ScopeEvent
  | values list opening vs closing =>
    opening.event (.opens list.extent)
      :: (vs.map (·.event (.declares .value)) ++ [closing.event (.closes list.extent)])
  | clause c opening closing =>
    [opening.event (.opens c.extent), closing.event (.closes c.extent)]
  | counter mark => [mark.event .counter]

/-- The symbols that a part of a header gives to the block, where an access level is in force. -/
def symbols (access : Access) : HeaderPart → List Symbol
  | values _ _ vs _ => vs.map (·.symbol .value access)
  | clause _ _ _ => []
  | counter _ => [⟨.value, counterName, some int64Word, access⟩]

/-- The ends of the condition and step clauses of a part of a header. -/
def clauses : HeaderPart → List (Int × Int)
  | clause _ opening closing => [(opening.offset, closing.offset)]
  | _ => []

end HeaderPart

/-- The declarations, the changes of access and the blocks of a scope, in their order. -/
inductive Outline where
  | done
  | declares (kind : SymbolKind) (mark : Mark) (next : Outline)
  | grants (access : Access) (mark : Mark) (next : Outline)
  | block (header : List HeaderPart) (opening : Mark) (body : Outline) (closing : Mark)
      (next : Outline)
  deriving DecidableEq, Repr

namespace Outline

/-- The events of an outline. -/
def events : Outline → List ScopeEvent
  | done => []
  | declares kind mark next => mark.event (.declares kind) :: next.events
  | grants access mark next => mark.event (.grants access) :: next.events
  | block header opening body closing next =>
    header.flatMap HeaderPart.events
      ++ (opening.event (.opens .scope)
        :: (body.events ++ (closing.event (.closes .scope) :: next.events)))

/-- The ends of the condition and step clauses of an outline. -/
def clauses : Outline → List (Int × Int)
  | done => []
  | declares _ _ next => next.clauses
  | grants _ _ next => next.clauses
  | block header _ body _ next =>
    header.flatMap HeaderPart.clauses ++ body.clauses ++ next.clauses

/-- The outline of a document: one block around its items. -/
def document (opening : Mark) (items : Outline) (closing : Mark) : Outline :=
  block [] opening items closing done

/-! ### Reading an outline -/

/-- The declarations directly in a scope, each with the access level in force where it stands. -/
def declared : Outline → Access → List Symbol
  | done, _ => []
  | declares kind mark next, access => mark.symbol kind access :: next.declared access
  | grants access _ next, _ => next.declared access
  | block _ _ _ _ next, access => next.declared access

/-- The symbols of a block that opens where an access level is in force: those of its header, and
then those declared directly in it. -/
def blockSymbols (access : Access) (header : List HeaderPart) (body : Outline) : List Symbol :=
  header.flatMap (HeaderPart.symbols access) ++ body.declared access

/-- The class that waits for its body behind a declaration, when `waiting` waited before it. -/
def waitingBehind (kind : SymbolKind) (mark : Mark) (waiting : Option Text) : Option Text :=
  match kind with
  | .classType => some mark.name
  | _ => waiting

/-- The class that waits for its body behind an outline. The next block is its body, wherever that
opens. -/
def waitingClass : Outline → Option Text → Option Text
  | done, waiting => waiting
  | declares kind mark next, waiting => next.waitingClass (waitingBehind kind mark waiting)
  | grants _ _ next, waiting => next.waitingClass waiting
  | block _ _ body _ next, _ => next.waitingClass (body.waitingClass none)

/-- The class bodies that end in an outline, in the order of their ends. -/
def classBodies : Outline → Access → Option Text → List (Text × List Symbol)
  | done, _, _ => []
  | declares kind mark next, access, waiting =>
    next.classBodies access (waitingBehind kind mark waiting)
  | grants access _ next, _, waiting => next.classBodies access waiting
  | block header _ body _ next, access, waiting =>
    body.classBodies access none
      ++ (waiting.map fun name => (name, blockSymbols access header body)).toList
      ++ next.classBodies access (body.waitingClass none)

end Outline

/-- The symbols of the last class body of a name; none when no such body has ended. -/
def lastBody (bodies : List (Text × List Symbol)) (name : Text) : List Symbol :=
  (bodies.reverse.lookup name).getD []

/-- A scope of a document, with the class bodies that have ended when it ends. -/
structure Scope where
  start : Int
  stop : Int
  symbols : List Symbol
  bodies : List (Text × List Symbol)
  deriving DecidableEq, Repr

/-- What a scope offers around a cursor with a receiver: its symbols, and the members of the class
that the first value with the name of the receiver has as its type. -/
def Scope.offers (receiver : Option Text) (s : Scope) : List Symbol :=
  s.symbols ++ receiverMembers (lastBody s.bodies) receiver s.symbols

/-- A scope is around a cursor when it starts before it and does not stop before it. -/
def Scope.Around (cursor : Int) (s : Scope) : Prop :=
  s.start < cursor ∧ cursor ≤ s.stop

instance (cursor : Int) (s : Scope) : Decidable (s.Around cursor) :=
  inferInstanceAs (Decidable (_ ∧ _))

/-- Scopes side by side, each with the scopes inside it. -/
inductive Forest where
  | nil
  | cons (scope : Scope) (inner rest : Forest)
  deriving DecidableEq, Repr

/-- The scopes of an outline, when `bodies` are the class bodies that have ended before it. -/
def Outline.scopes : Outline → Access → Option Text → List (Text × List Symbol) → Forest
  | done, _, _, _ => .nil
  | declares kind mark next, access, waiting, bodies =>
    next.scopes access (waitingBehind kind mark waiting) bodies
  | grants access _ next, _, waiting, bodies => next.scopes access waiting bodies
  | block header opening body closing next, access, waiting, bodies =>
    let symbols := blockSymbols access header body
    let inside := bodies ++ body.classBodies access none
    .cons ⟨opening.offset, closing.offset, symbols, inside⟩ (body.scopes access none bodies)
      (next.scopes access (body.waitingClass none)
        (inside ++ (waiting.map fun name => (name, symbols)).toList))

namespace Forest

/-- The scopes of a forest in the order of their ends. -/
def all : Forest → List Scope
  | nil => []
  | cons s inner rest => inner.all ++ s :: rest.all

/-- The path to a cursor, from the innermost scope outwards. -/
def enclosing (cursor : Int) : Forest → List Scope
  | nil => []
  | cons s inner rest =>
    if s.Around cursor then inner.enclosing cursor ++ [s] else rest.enclosing cursor

/-- The starts and stops of scopes in the order of the text. -/
def offsets : Forest → List Int
  | nil => []
  | cons s inner rest => s.start :: (inner.offsets ++ (s.stop :: rest.offsets))

/-- The scopes of a forest start and stop at its offsets. -/
lemma mem_offsets {forest : Forest} {s : Scope} (h : s ∈ forest.all) :
    s.start ∈ forest.offsets ∧ s.stop ∈ forest.offsets := by
  induction forest with
  | nil => cases h
  | cons s' inner rest ihInner ihRest =>
    obtain h | h := List.mem_append.mp h
    · obtain ⟨hstart, hstop⟩ := ihInner h
      exact ⟨List.mem_cons_of_mem _ (List.mem_append_left _ hstart),
        List.mem_cons_of_mem _ (List.mem_append_left _ hstop)⟩
    · obtain rfl | h := List.mem_cons.mp h
      · exact ⟨List.mem_cons_self, List.mem_cons_of_mem _ (List.mem_append_right _
          List.mem_cons_self)⟩
      · obtain ⟨hstart, hstop⟩ := ihRest h
        exact ⟨List.mem_cons_of_mem _ (List.mem_append_right _ (List.mem_cons_of_mem _ hstart)),
          List.mem_cons_of_mem _ (List.mem_append_right _ (List.mem_cons_of_mem _ hstop))⟩

/-- Scopes that all lie on one side of a cursor are not around it. -/
lemma filter_eq_nil {cursor : Int} {forest : Forest}
    (h : (∀ x ∈ forest.offsets, cursor ≤ x) ∨ ∀ x ∈ forest.offsets, x < cursor) :
    forest.all.filter (Scope.Around cursor) = [] := by
  rw [List.filter_eq_nil_iff]
  intro s hs haround
  obtain ⟨hstart, hstop⟩ := mem_offsets hs
  obtain ⟨hlt, hle⟩ := of_decide_eq_true haround
  obtain h | h := h
  · have := h _ hstart
    omega
  · have := h _ hstop
    omega

/-- When the offsets do not decrease, the path to a cursor has all scopes around the cursor. -/
lemma enclosing_eq_filter {forest : Forest} (h : forest.offsets.Pairwise (· ≤ ·))
    (cursor : Int) :
    forest.enclosing cursor = forest.all.filter (Scope.Around cursor) := by
  induction forest with
  | nil => rfl
  | cons s inner rest ihInner ihRest =>
    obtain ⟨hstart, h⟩ := List.pairwise_cons.mp h
    obtain ⟨hinner, h, hbefore⟩ := List.pairwise_append.mp h
    obtain ⟨hstop, hrest⟩ := List.pairwise_cons.mp h
    rw [enclosing, all, List.filter_append]
    split
    case isTrue haround =>
      -- the scopes behind this one begin behind the cursor
      have hbehind : rest.all.filter (Scope.Around cursor) = [] :=
        filter_eq_nil (.inl fun x hx => Int.le_trans haround.2 (hstop x hx))
      rw [List.filter_cons, if_pos (by rwa [decide_eq_true_eq]), hbehind, ihInner hinner]
    case isFalse haround =>
      -- the scopes inside this one lie on the same side of the cursor
      have hinside : inner.all.filter (Scope.Around cursor) = [] := by
        apply filter_eq_nil
        by_cases hcursor : cursor ≤ s.start
        · exact .inl fun x hx => Int.le_trans hcursor (hstart x (List.mem_append_left _ hx))
        · right
          intro x hx
          have hx' := hbefore x hx s.stop List.mem_cons_self
          have hstop' : s.stop < cursor := by
            by_contra hnot
            exact haround ⟨by omega, by omega⟩
          omega
      rw [List.filter_cons, if_neg (by rwa [decide_eq_true_eq]), hinside, ihRest hrest,
        List.nil_append]

/-- What the scopes around a cursor offer there, in the order of their ends. -/
def offered (t : Text) (cursor : Int) (forest : Forest) : List Symbol :=
  (forest.all.filter (Scope.Around cursor)).flatMap (Scope.offers (receiverAt t cursor))

/-- A scope offers something between the scopes inside it and those behind it. -/
lemma offered_cons (t : Text) (cursor : Int) (s : Scope) (inner rest : Forest) :
    (cons s inner rest).offered t cursor = inner.offered t cursor
      ++ (LazeEdit.offered t cursor s.start s.stop (lastBody s.bodies) s.symbols
        ++ rest.offered t cursor) := by
  rw [offered, all, List.filter_append, List.flatMap_append, List.filter_cons, LazeEdit.offered]
  by_cases hrange : s.start < cursor ∧ cursor ≤ s.stop
  · have haround : s.Around cursor := hrange
    rw [if_pos (by rwa [decide_eq_true_eq]), if_pos hrange, List.flatMap_cons]
    rfl
  · have haround : ¬ s.Around cursor := hrange
    rw [if_neg (by rwa [decide_eq_true_eq]), if_neg hrange]
    rfl

end Forest

/-- The scopes of an outline start and stop at events of it. -/
lemma Outline.offsets_sublist (o : Outline) (access : Access) (waiting : Option Text)
    (bodies : List (Text × List Symbol)) :
    (o.scopes access waiting bodies).offsets.Sublist (o.events.map ScopeEvent.offset) := by
  induction o generalizing access waiting bodies with
  | done => exact List.Sublist.refl _
  | declares kind mark next ih => exact (ih _ _ _).cons _
  | grants level mark next ih => exact (ih _ _ _).cons _
  | block header opening body closing next ihBody ihNext =>
    rw [events, List.map_append, List.map_cons, List.map_append, List.map_cons]
    apply List.Sublist.trans ?_ (List.sublist_append_right _ _)
    exact ((ihBody _ _ _).append ((ihNext _ _ _).cons_cons _)).cons_cons _

end LazeEdit
