import LazeEdit.Proofs.Completion.Replay
import LazeEdit.Proofs.Scope.Echo

/-!
# Replays over an echo

The receiver before a cursor is read backwards over blanks and the characters of a name, so it does
not depend on the width of structural characters, and it is not found in the line feeds before an
echo (`receiver?_echo`).

`Replay.Echo` relates the state of a replay to that of a replay of the moved events for the moved
cursor: the two hold the same symbols, and their scopes are moved but for the one of the whole
document, which starts at offset zero in both. Whether a scope starts before the cursor is therefore
the same in both only as long as the cursor is not at offset zero, or nothing is moved. One event
keeps the relation, whatever its kind (`Replay.Echo.step`), so a run does (`Replay.Echo.run`), and
the symbols in view are the same (`visibleAt_echo`).
-/

namespace LazeEdit

variable {k : Nat} {t t' u : Text}

/-! ### Receivers -/

lemma receiverReversed?_widened (h : List.Forall₂ Widened t u) :
    receiverReversed? u = receiverReversed? t := by
  have hperiods : WidthFree periods.contains := by decide
  rw [receiverReversed?, receiverReversed?]
  match t.dropWhile isBlank, u.dropWhile isBlank, forall₂_dropWhile widthFree_isBlank h with
  | _, _, .nil => rfl
  | _, _, .cons hcd hbefore =>
    simp only [← hcd.apply hperiods, takeWhile_eq_of_oneWidth oneWidth_isNameChar
      (forall₂_dropWhile widthFree_isBlank hbefore)]

/-- Line feeds at the end are passed with the blanks before them, or not reached. -/
lemma dropWhile_feeds (w : Text) (k : Nat) :
    (w ++ List.replicate k '\n').dropWhile isBlank
      = if w.dropWhile isBlank = [] then [] else w.dropWhile isBlank ++ List.replicate k '\n' := by
  have hfeeds : (List.replicate k '\n').dropWhile isBlank = [] := by
    rw [List.dropWhile_eq_nil_iff]
    intro c hc
    rw [List.eq_of_mem_replicate hc]
    decide
  rw [List.dropWhile_append, hfeeds]
  exact if_congr List.isEmpty_iff rfl rfl

lemma takeWhile_feeds (w : Text) (k : Nat) :
    (w ++ List.replicate k '\n').takeWhile isNameChar = w.takeWhile isNameChar := by
  induction w with
  | nil =>
    cases k with
    | zero => rfl
    | succ k => rfl
  | cons c w ih => rw [List.cons_append, List.takeWhile_cons, List.takeWhile_cons, ih]

/-- The receiver is not found in line feeds before the text. -/
lemma receiverReversed?_feeds (back : Text) (k : Nat) :
    receiverReversed? (back ++ List.replicate k '\n') = receiverReversed? back := by
  have hname : ∀ before : Text,
      ((before ++ List.replicate k '\n').dropWhile isBlank).takeWhile isNameChar
        = (before.dropWhile isBlank).takeWhile isNameChar := by
    intro before
    rw [dropWhile_feeds]
    split
    case isTrue hblank => rw [hblank]
    case isFalse => exact takeWhile_feeds _ k
  rw [receiverReversed?, receiverReversed?, dropWhile_feeds]
  cases back.dropWhile isBlank with
  | nil => rfl
  | cons c before =>
    rw [if_neg (List.cons_ne_nil c before), List.cons_append]
    simp only [hname]

/-- The receiver before a cursor is that before the moved cursor in an echo. -/
lemma receiver?_echo (h : Echoes k t t') {cursor : Int} (hcursor : 0 ≤ cursor) :
    receiver? t' (cursor + k) = receiver? t cursor := by
  have hlen := h.length_eq
  obtain ⟨u, rfl, htu⟩ := h
  have htake : (List.replicate k '\n' ++ u).take (cursor + k).toNat
      = List.replicate k '\n' ++ u.take cursor.toNat := by
    rw [show (cursor + k).toNat = (List.replicate k '\n').length + cursor.toNat by
      rw [List.length_replicate]; omega, List.take_length_add_append]
  rw [receiver?, receiver?, hlen, htake, List.reverse_append, List.reverse_replicate,
    receiverReversed?_feeds,
    receiverReversed?_widened (List.rel_reverse (List.forall₂_take cursor.toNat htu))]
  exact if_congr (by omega) rfl rfl

/-! ### States that correspond -/

/-- Where a scope or a clause starts in a text and in its echo: that of the whole document starts at
offset zero in both. -/
def StartEcho (k : Nat) (start start' : Int) : Prop :=
  start' = start + k ∨ start = 0 ∧ start' = 0

/-- Behind offset zero the same starts are before a cursor. -/
lemma StartEcho.lt_iff {start start' cursor : Int} (h : StartEcho k start start')
    (hcursor : 0 < k → 0 < cursor) : start' < cursor + k ↔ start < cursor := by
  obtain rfl | ⟨rfl, rfl⟩ := h
  · omega
  · omega

/-- A scope of a text and the same scope of its echo. -/
structure Frame.Echo (k : Nat) (f f' : Frame) : Prop where
  start : StartEcho k f.start f'.start
  symbols : f'.symbols = f.symbols
  access : f'.access = f.access
  owner : f'.owner = f.owner

namespace Replay

/-- A state of a replay over a text and a state of a replay over its echo. -/
structure Echo (k : Nat) (r r' : Replay) : Prop where
  cursor : r'.cursor = r.cursor + k
  nonneg : 0 ≤ r.cursor
  behind : 0 < k → 0 < r.cursor
  stack : List.Forall₂ (Frame.Echo k) r.stack r'.stack
  carry : r'.carry = r.carry
  pendingClass : r'.pendingClass = r.pendingClass
  registry : r'.registry = r.registry
  clauseStart : StartEcho k r.clauseStart r'.clauseStart
  visible : r'.visible = r.visible

/-- Where a replay over a text does not fail, the replay over its echo does not, and they come to
corresponding states. -/
def Simulated (k : Nat) (x x' : Except ResolveError Replay) : Prop :=
  ∀ r, x = .ok r → ∃ r', x' = .ok r' ∧ r.Echo k r'

lemma Simulated.ok {r r' : Replay} (h : r.Echo k r') : Simulated k (.ok r) (.ok r') := by
  rintro _ ⟨⟩
  exact ⟨r', rfl, h⟩

lemma Simulated.bind {x x' : Except ResolveError Replay}
    {f f' : Replay → Except ResolveError Replay} (h : Simulated k x x')
    (hf : ∀ r r', Echo k r r' → Simulated k (f r) (f' r')) : Simulated k (x >>= f) (x' >>= f') := by
  intro q hq
  cases x with
  | error e => cases hq
  | ok r =>
    obtain ⟨r', rfl, hr⟩ := h r rfl
    exact hf r r' hr q hq

namespace Echo

variable {r r' : Replay}

lemma push (h : r.Echo k r') {start start' : Int} (hstart : StartEcho k start start')
    (owner : Option Text) : (r.push start owner).Echo k (r'.push start' owner) := by
  refine { h with stack := .cons ⟨hstart, h.carry, ?_, rfl⟩ h.stack, carry := rfl }
  obtain ⟨_, stack, _, _, _, _, _⟩ := r
  obtain ⟨_, stack', _, _, _, _, _⟩ := r'
  cases h.stack with
  | nil => rfl
  | cons hf _ => exact hf.access

lemma members_eq (ht : Echoes k t t') (h : r.Echo k r') (symbols : List Symbol) :
    r'.members t' symbols = r.members t symbols := by
  rw [members, members, h.cursor, receiver?_echo ht h.nonneg, h.registry]

lemma close (ht : Echoes k t t') (h : r.Echo k r') {f f' : Frame} (hf : f.Echo k f')
    {stack stack' : List Frame} (hstack : List.Forall₂ (Frame.Echo k) stack stack') (stop : Int) :
    Simulated k (r.close t f stack stop) (r'.close t' f' stack' (stop + k)) := by
  have hview : f'.start < r'.cursor ∧ r'.cursor ≤ stop + k
      ↔ f.start < r.cursor ∧ r.cursor ≤ stop := by
    rw [h.cursor, hf.start.lt_iff h.behind, Int.add_le_add_iff_right]
  rw [Replay.close, Replay.close, if_congr hview rfl rfl, h.members_eq ht, h.visible, hf.symbols,
    hf.owner, h.registry]
  split
  · cases r.members t f.symbols with
    | error e => rintro _ ⟨⟩
    | ok members => exact .ok { h with stack := hstack, registry := rfl, visible := rfl }
  · exact .ok { h with stack := hstack, registry := rfl, visible := rfl }

lemma closeAll (ht : Echoes k t t') (h : r.Echo k r') (stop : Int) {stack stack' : List Frame}
    (hstack : List.Forall₂ (Frame.Echo k) stack stack') :
    Simulated k (r.closeAll t stop stack) (r'.closeAll t' (stop + k) stack') := by
  induction hstack generalizing r r' with
  | nil => exact .ok h
  | cons hf hstack ih => exact (h.close ht hf hstack stop).bind fun q q' hq => ih hq

lemma onTop (h : r.Echo k r') {f f' : Frame → Frame}
    (hf : ∀ top top', Frame.Echo k top top' → Frame.Echo k (f top) (f' top')) :
    Simulated k (r.onTop f) (r'.onTop f') := by
  rw [Replay.onTop, Replay.onTop]
  match r.stack, r'.stack, h.stack with
  | _, _, .nil =>
    rintro _ ⟨⟩
  | _, _, .cons htop hstack => exact .ok { h with stack := .cons (hf _ _ htop) hstack }

lemma handOver (h : r.Echo k r') : r.handOver.Echo k r'.handOver := by
  rw [Replay.handOver, Replay.handOver]
  match r.stack, r'.stack, h.stack with
  | _, _, .nil => exact h
  | _, _, .cons _ .nil => exact h
  | _, _, .cons htop (.cons hnext hstack) =>
    exact { h with stack := .cons hnext hstack, carry := htop.symbols }

lemma enterBody (h : r.Echo k r') (stop : Int) {later : List ScopeEvent}
    (hlater : ∀ e ∈ later, e.kind = .opens .scope → 0 ≤ e.offset) :
    (r.enterBody stop later).Echo k (r'.enterBody (stop + k) (later.map (·.moved k))) := by
  have hclause : r'.clauseStart < r'.cursor ∧ r'.cursor ≤ stop + k
      ↔ r.clauseStart < r.cursor ∧ r.cursor ≤ stop := by
    rw [h.cursor, h.clauseStart.lt_iff h.behind, Int.add_le_add_iff_right]
  have hbody : (later.map (·.moved k)).find? (fun e => e.kind = .opens .scope)
      = (later.find? fun e => e.kind = .opens .scope).map (·.moved k) := by
    rw [List.find?_map]
    rfl
  rw [Replay.enterBody, Replay.enterBody, if_congr hclause rfl rfl, hbody]
  split
  · cases hfind : later.find? fun e => e.kind = .opens .scope with
    | none => exact h
    | some body =>
      have hkind := List.find?_some hfind
      rw [decide_eq_true_eq] at hkind
      have hpos := hlater body (List.mem_of_find?_eq_some hfind) hkind
      -- the cursor comes to stand behind the start of a scope, so not at offset zero
      refine { h with cursor := ?_, nonneg := ?_, behind := ?_ }
      · exact Int.add_right_comm _ _ _
      · show 0 ≤ body.offset + 1
        omega
      · intro _
        show 0 < body.offset + 1
        omega
  · exact h

/-- The end of a scope. The last event ends all scopes, and any other one the innermost scope that
is not the outermost. -/
lemma closeScope (ht : Echoes k t t') (h : r.Echo k r') {e : ScopeEvent}
    (hkind : e.kind = .closes .scope) (later : List ScopeEvent) :
    Simulated k (r.step t e later) (r'.step t' (e.moved k) (later.map (·.moved k))) := by
  have hkind' : (e.moved k).kind = .closes .scope := hkind
  have hsettle : ∀ q q' : Replay, q.Echo k q' →
      Simulated k (.ok { q with carry := [] }) (.ok { q' with carry := [] }) :=
    fun q q' hq => .ok { hq with carry := rfl }
  simp only [Replay.step, hkind', hkind]
  cases later with
  | nil => exact (h.closeAll ht e.offset h.stack).bind hsettle
  | cons next later =>
    simp only [List.map_cons]
    match r.stack, r'.stack, h.stack with
    | _, _, .nil => exact hsettle r r' h
    | _, _, .cons _ .nil => exact hsettle r r' h
    | _, _, .cons hf (.cons hg hstack) =>
      exact (h.close ht hf (.cons hg hstack) e.offset).bind hsettle

/-- One event keeps states corresponding, whatever its kind. -/
lemma step (ht : Echoes k t t') (h : r.Echo k r') (e : ScopeEvent) {later : List ScopeEvent}
    (hlater : ∀ e ∈ later, e.kind = .opens .scope → 0 ≤ e.offset) :
    Simulated k (r.step t e later) (r'.step t' (e.moved k) (later.map (·.moved k))) := by
  have hmoved : StartEcho k e.offset (e.moved k).offset := .inl rfl
  have hkind' : (e.moved k).kind = e.kind := rfl
  cases hkind : e.kind with
  | opens extent =>
    simp only [Replay.step, hkind', hkind]
    cases extent with
    | scope =>
      rw [h.pendingClass]
      exact .ok { h.push hmoved r.pendingClass with pendingClass := rfl }
    | signature => exact .ok (h.push hmoved none)
    | loopDeclaration => exact .ok (h.push hmoved none)
    | loopCondition => exact .ok { h with clauseStart := hmoved }
    | loopStep => exact .ok { h with clauseStart := hmoved }
  | closes extent =>
    cases extent with
    | scope => exact h.closeScope ht hkind later
    | signature =>
      simp only [Replay.step, hkind', hkind]
      exact .ok h.handOver
    | loopDeclaration =>
      simp only [Replay.step, hkind', hkind]
      exact .ok h.handOver
    | loopCondition =>
      simp only [Replay.step, hkind', hkind]
      exact .ok (h.enterBody e.offset hlater)
    | loopStep =>
      simp only [Replay.step, hkind', hkind]
      exact .ok (h.enterBody e.offset hlater)
  | counter =>
    simp only [Replay.step, hkind', hkind]
    match r.stack, r'.stack, h.stack with
    | _, _, .nil => rintro _ ⟨⟩
    | _, _, .cons htop hstack =>
      refine .ok { h with stack := .cons htop hstack, carry := ?_ }
      show r'.carry ++ _ = r.carry ++ _
      rw [h.carry, htop.access]
  | grants access =>
    simp only [Replay.step, hkind', hkind]
    exact h.onTop fun top top' htop => { htop with access := rfl }
  | declares kind =>
    simp only [Replay.step, hkind', hkind]
    refine Simulated.bind (h.onTop fun top top' htop => { htop with symbols := ?_ }) ?_
    · show top'.symbols ++ _ = top.symbols ++ _
      rw [htop.symbols, htop.access]
      rfl
    · intro q q' hq
      cases kind with
      | function => exact .ok { hq with carry := rfl }
      | classType => exact .ok { hq with pendingClass := rfl }
      | value => exact .ok hq

/-- A run over events keeps states corresponding. -/
lemma run (ht : Echoes k t t') (h : r.Echo k r') {events : List ScopeEvent}
    (hevents : ∀ e ∈ events, e.kind = .opens .scope → 0 ≤ e.offset) :
    Simulated k (run t events r) (run t' (events.map (·.moved k)) r') := by
  induction events generalizing r r' with
  | nil => exact .ok h
  | cons e later ih =>
    have hlater : ∀ e ∈ later, e.kind = .opens .scope → 0 ≤ e.offset :=
      fun e' he' => hevents e' (List.mem_cons_of_mem e he')
    exact (h.step ht e hlater).bind fun q q' hq => ih hq hlater

end Echo

end Replay

/-- The replays behind a first event that opens the scope of the whole document correspond. -/
lemma replay_echo (ht : Echoes k t t') {first : ScopeEvent} {later : List ScopeEvent}
    (hkind : first.kind = .opens .scope) (hzero : first.offset = 0)
    (hlater : ∀ e ∈ later, e.kind = .opens .scope → 0 ≤ e.offset) {cursor : Int}
    (hcursor : 0 ≤ cursor) (hbehind : 0 < k → 0 < cursor) :
    Replay.Simulated k (replay t (first :: later) cursor)
      (replay t' (first :: later.map (·.moved k)) (cursor + k)) := by
  have hopen : ∀ (t : Text) (later : List ScopeEvent) (cursor : Int),
      replay t (first :: later) cursor
        = Replay.run t later (Replay.push { cursor := cursor } first.offset none) := by
    intro t later cursor
    simp only [replay, Replay.run, Replay.step, hkind]
    rfl
  have hstart : Replay.Echo k { cursor := cursor } { cursor := cursor + k } :=
    ⟨rfl, hcursor, hbehind, .nil, rfl, rfl, rfl, .inr ⟨rfl, rfl⟩, rfl⟩
  rw [hopen, hopen]
  exact (hstart.push (.inr ⟨hzero, hzero⟩) none).run ht hlater

/-- The symbols in view at a cursor are in view at the moved cursor of an echo. -/
lemma visibleAt_echo (ht : Echoes k t t') {first : ScopeEvent} {later : List ScopeEvent}
    (hkind : first.kind = .opens .scope) (hzero : first.offset = 0)
    (hlater : ∀ e ∈ later, e.kind = .opens .scope → 0 ≤ e.offset) {cursor : Int}
    (hcursor : 0 ≤ cursor) (hbehind : 0 < k → 0 < cursor) {symbols : List Symbol}
    (h : visibleAt t (first :: later) cursor = .ok symbols) :
    visibleAt t' (first :: later.map (·.moved k)) (cursor + k) = .ok symbols := by
  have hsim := replay_echo ht hkind hzero hlater hcursor hbehind
  rw [visibleAt] at h ⊢
  cases hr : replay t (first :: later) cursor with
  | error e =>
    rw [hr] at h
    cases h
  | ok r =>
    obtain ⟨r', hr', hecho⟩ := hsim r hr
    rw [hr] at h
    rw [hr', ← h]
    exact congrArg Except.ok hecho.visible

end LazeEdit
