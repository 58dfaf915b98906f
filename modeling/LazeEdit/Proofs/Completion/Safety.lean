import LazeEdit.Analysis
import LazeEdit.Proofs.Completion.Replay
import LazeEdit.Proofs.Mask.Regions
import LazeEdit.Proofs.Scope.Events
import LazeEdit.Proofs.Text.Lines

/-!
# Replays do not fail

A replay can fail in two ways: it reads the innermost open scope while none is open, or it reads the
text before a cursor beyond its end. `Replay.Safe` excludes both between the first event and the
last: the scope of the first event is still open, below all others, and the cursor has a property
that keeps it inside the text. One event keeps this, whatever its kind (`Safe.step`), as long as
each scope that is still to open has the property just behind its start, since the cursor is moved
nowhere else. By induction a list of events is replayed to its end (`Safe.run`), and every state on
the way is safe (`Reaches.safe`). No event has to match any other.
-/

namespace LazeEdit

/-- A stack of open scopes of which the outermost one starts at an offset and is no class body. -/
def Rooted (start : Int) (stack : List Frame) : Prop :=
  ∃ inner symbols access, stack = inner ++ [⟨start, symbols, access, none⟩]

namespace Rooted

variable {start : Int} {f g : Frame} {fs : List Frame}

/-- A rooted stack has an innermost scope. -/
lemma exists_cons (h : Rooted start fs) : ∃ g gs, fs = g :: gs := by
  obtain ⟨inner, symbols, access, rfl⟩ := h
  cases inner with
  | nil => exact ⟨_, _, rfl⟩
  | cons g gs => exact ⟨_, _, rfl⟩

/-- Opening a scope keeps the outermost one. -/
lemma push (h : Rooted start fs) (f : Frame) : Rooted start (f :: fs) := by
  obtain ⟨inner, symbols, access, rfl⟩ := h
  exact ⟨f :: inner, symbols, access, rfl⟩

/-- Ending a scope inside another one keeps the outermost one. -/
lemma pop (h : Rooted start (f :: g :: fs)) : Rooted start (g :: fs) := by
  obtain ⟨inner, symbols, access, e⟩ := h
  cases inner with
  | nil => cases e
  | cons f' inner => exact ⟨inner, symbols, access, (List.cons.inj e).2⟩

/-- Changing the symbols and the access level of the innermost scope keeps the outermost one. -/
lemma update (h : Rooted start (f :: fs)) (symbols : List Symbol) (access : Access) :
    Rooted start ({ f with symbols := symbols, access := access } :: fs) := by
  obtain ⟨inner, symbols', access', e⟩ := h
  cases inner with
  | nil =>
    cases e
    exact ⟨[], symbols, access, rfl⟩
  | cons f' inner =>
    cases e
    exact ⟨_ :: inner, symbols', access', rfl⟩

end Rooted

namespace Replay

/-- What holds of a replay between its first event and its last. -/
structure Safe (P : Int → Prop) (start : Int) (r : Replay) : Prop where
  cursor : P r.cursor
  rooted : Rooted start r.stack

variable {t : Text} {P : Int → Prop} {start : Int}

/-- Moving the cursor into the next scope keeps a state safe. -/
lemma Safe.enterBody {r : Replay} {later : List ScopeEvent} (h : r.Safe P start)
    (hlater : ∀ e ∈ later, e.kind = .opens .scope → P (e.offset + 1)) (stop : Int) :
    (r.enterBody stop later).Safe P start := by
  rw [Replay.enterBody]
  split
  · split
    case h_1 body hbody =>
      have hkind := List.find?_some hbody
      rw [decide_eq_true_eq] at hkind
      exact ⟨hlater body (List.mem_of_find?_eq_some hbody) hkind, h.rooted⟩
    case h_2 => exact h
  · exact h

/-- Handing over the symbols of a list keeps a state safe. -/
lemma Safe.handOver {r : Replay} (h : r.Safe P start) : r.handOver.Safe P start := by
  obtain ⟨hcursor, hrooted⟩ := h
  rw [Replay.handOver]
  split
  case h_1 top next stack hstack =>
    rw [hstack] at hrooted
    exact ⟨hcursor, hrooted.pop⟩
  case h_2 => exact ⟨hcursor, hrooted⟩

/-- Ending a scope never fails, and it empties the stack only when no event is left. -/
lemma Safe.closeScope {r : Replay} {e : ScopeEvent} (hP : ∀ c, P c → c ≤ t.length)
    (h : r.Safe P start) (hkind : e.kind = .closes .scope) (later : List ScopeEvent) :
    ∃ r', r.step t e later = .ok r' ∧ (later ≠ [] → r'.Safe P start) ∧
      (later = [] → r'.stack = []) := by
  obtain ⟨hcursor, hrooted⟩ := h
  have hle := hP _ hcursor
  simp only [step, hkind]
  cases later with
  | nil =>
    obtain ⟨r', hr', hempty⟩ := closeAll_ok hle e.offset r.stack rfl
    refine ⟨{ r' with carry := [] }, ?_, fun hne => (hne rfl).elim, fun _ => hempty⟩
    simp only [hr']
    rfl
  | cons e' later =>
    obtain ⟨f, fs, hstack⟩ := hrooted.exists_cons
    rw [hstack] at hrooted
    cases fs with
    | nil =>
      -- the outermost scope stays open
      simp only [hstack]
      exact ⟨_, rfl, fun _ => ⟨hcursor, hstack ▸ hrooted⟩, fun hnil => nomatch hnil⟩
    | cons g fs =>
      simp only [hstack, close_eq hle]
      exact ⟨_, rfl, fun _ => ⟨hcursor, hrooted.pop⟩, fun hnil => nomatch hnil⟩

/-- One event is replayed without failing, and all but the last one keep a state safe. -/
lemma Safe.step {r : Replay} {e : ScopeEvent} {later : List ScopeEvent}
    (hP : ∀ c, P c → c ≤ t.length) (h : r.Safe P start)
    (hlater : ∀ e ∈ later, e.kind = .opens .scope → P (e.offset + 1)) :
    ∃ r', r.step t e later = .ok r' ∧ (later ≠ [] → r'.Safe P start) := by
  -- the innermost scope, which counters, changes of access and declarations read
  obtain ⟨f, fs, hstack⟩ := h.rooted.exists_cons
  have hrooted := h.rooted
  rw [hstack] at hrooted
  cases hkind : e.kind with
  | opens extent =>
    simp only [Replay.step, hkind]
    cases extent with
    | scope => exact ⟨_, rfl, fun _ => ⟨h.cursor, h.rooted.push _⟩⟩
    | signature => exact ⟨_, rfl, fun _ => ⟨h.cursor, h.rooted.push _⟩⟩
    | loopDeclaration => exact ⟨_, rfl, fun _ => ⟨h.cursor, h.rooted.push _⟩⟩
    | loopCondition => exact ⟨_, rfl, fun _ => ⟨h.cursor, h.rooted⟩⟩
    | loopStep => exact ⟨_, rfl, fun _ => ⟨h.cursor, h.rooted⟩⟩
  | closes extent =>
    cases extent with
    | scope =>
      obtain ⟨r', hr', hsafe, _⟩ := h.closeScope hP hkind later
      exact ⟨r', hr', hsafe⟩
    | signature =>
      simp only [Replay.step, hkind]
      exact ⟨_, rfl, fun _ => h.handOver⟩
    | loopDeclaration =>
      simp only [Replay.step, hkind]
      exact ⟨_, rfl, fun _ => h.handOver⟩
    -- the only events that may move the cursor
    | loopCondition =>
      simp only [Replay.step, hkind]
      exact ⟨_, rfl, fun _ => h.enterBody hlater e.offset⟩
    | loopStep =>
      simp only [Replay.step, hkind]
      exact ⟨_, rfl, fun _ => h.enterBody hlater e.offset⟩
  | counter =>
    simp only [Replay.step, hkind, hstack]
    exact ⟨_, rfl, fun _ => ⟨h.cursor, hrooted⟩⟩
  | grants access =>
    simp only [Replay.step, hkind, onTop, hstack]
    exact ⟨_, rfl, fun _ => ⟨h.cursor, hrooted.update f.symbols access⟩⟩
  | declares kind =>
    simp only [Replay.step, hkind, onTop, hstack]
    cases kind with
    | function => exact ⟨_, rfl, fun _ => ⟨h.cursor, hrooted.update _ f.access⟩⟩
    | value => exact ⟨_, rfl, fun _ => ⟨h.cursor, hrooted.update _ f.access⟩⟩
    | classType => exact ⟨_, rfl, fun _ => ⟨h.cursor, hrooted.update _ f.access⟩⟩

/-- A list of events is replayed to its end, and when its last event ends a scope no scope is left
open. -/
lemma Safe.run {r : Replay} {events : List ScopeEvent} (hP : ∀ c, P c → c ≤ t.length)
    (h : r.Safe P start) (hevents : ∀ e ∈ events, e.kind = .opens .scope → P (e.offset + 1)) :
    ∃ r', run t events r = .ok r' ∧
      ∀ e, events.getLast? = some e → e.kind = .closes .scope → r'.stack = [] := by
  induction events generalizing r with
  | nil => exact ⟨r, rfl, fun e he => nomatch he⟩
  | cons e later ih =>
    have hlater : ∀ e ∈ later, e.kind = .opens .scope → P (e.offset + 1) :=
      fun e' he' => hevents e' (List.mem_cons_of_mem e he')
    cases later with
    | nil =>
      obtain ⟨r', hr', _⟩ := h.step (e := e) hP hlater
      refine ⟨r', ?_, ?_⟩
      · rw [Replay.run, hr']
        rfl
      · intro e' he' hkind
        obtain rfl : e = e' := Option.some.inj he'
        obtain ⟨r'', hr'', _, hempty⟩ := h.closeScope hP hkind []
        rw [hr'] at hr''
        cases hr''
        exact hempty rfl
    | cons e' later =>
      obtain ⟨r', hr', hsafe⟩ := h.step (e := e) hP hlater
      obtain ⟨r'', hr'', hlast⟩ := ih (hsafe (List.cons_ne_nil _ _)) hlater
      refine ⟨r'', ?_, ?_⟩
      · rw [Replay.run, hr']
        exact hr''
      · rwa [List.getLast?_cons_cons]

/-- The state behind a first event that opens a scope is safe. -/
lemma safe_first {cursor : Int} {first : ScopeEvent} (later : List ScopeEvent)
    (hkind : first.kind = .opens .scope) (hcursor : P cursor) :
    ∃ r, Replay.step t first later { cursor := cursor } = .ok r ∧ r.Safe P first.offset := by
  simp only [step, hkind]
  exact ⟨_, rfl, hcursor, [], [], .everyone, rfl⟩

/-- A state that a replay reaches, with the events that are still to come. -/
inductive Reaches (t : Text) (events : List ScopeEvent) (cursor : Int) :
    Replay → List ScopeEvent → Prop where
  | start :
    Reaches t events cursor { cursor := cursor } events
  | step {r r' : Replay} {e : ScopeEvent} {later : List ScopeEvent} :
    Reaches t events cursor r (e :: later) →
    r.step t e later = .ok r' →
    Reaches t events cursor r' later

/-- Every state between the first event and the last is safe. -/
lemma Reaches.safe {first : ScopeEvent} {rest later : List ScopeEvent} {cursor : Int} {r : Replay}
    (hP : ∀ c, P c → c ≤ t.length) (hkind : first.kind = .opens .scope) (hcursor : P cursor)
    (hrest : ∀ e ∈ rest, e.kind = .opens .scope → P (e.offset + 1))
    (h : Reaches t (first :: rest) cursor r later) :
    (later = first :: rest ∧ r = { cursor := cursor }) ∨
      (later <:+ rest ∧ (later ≠ [] → r.Safe P first.offset)) := by
  induction h with
  | start => exact .inl ⟨rfl, rfl⟩
  | @step r r' e later hreach hstep ih =>
    right
    obtain ⟨hfirst, rfl⟩ | ⟨hsuffix, hsafe⟩ := ih
    · cases hfirst
      obtain ⟨r'', hr'', hsafe⟩ := safe_first (t := t) rest hkind hcursor
      rw [hstep] at hr''
      cases hr''
      exact ⟨List.suffix_refl rest, fun _ => hsafe⟩
    · have hlater : later <:+ rest := (List.suffix_cons e later).trans hsuffix
      have hopens := fun e' he' => hrest e' (hlater.subset he')
      obtain ⟨r'', hr'', hsafe⟩ := (hsafe (List.cons_ne_nil _ _)).step hP hopens
      rw [hstep] at hr''
      cases hr''
      exact ⟨hlater, hsafe⟩

end Replay

/-- Events that begin with a scope are replayed to their end. -/
lemma replay_ok {t : Text} {P : Int → Prop} {first : ScopeEvent} {later : List ScopeEvent}
    {cursor : Int} (hP : ∀ c, P c → c ≤ t.length) (hkind : first.kind = .opens .scope)
    (hcursor : P cursor) (hlater : ∀ e ∈ later, e.kind = .opens .scope → P (e.offset + 1)) :
    ∃ r, replay t (first :: later) cursor = .ok r ∧
      ∀ e, later.getLast? = some e → e.kind = .closes .scope → r.stack = [] := by
  obtain ⟨r, hr, hsafe⟩ := Replay.safe_first (t := t) later hkind hcursor
  obtain ⟨r', hr', hlast⟩ := hsafe.run hP hlater
  refine ⟨r', ?_, hlast⟩
  rw [replay, Replay.run, hr]
  exact hr'

/-! ### Completion requests -/

/-- The events of an analysis begin with the scope of the whole document and end with its end, and
between these a scope opens only inside the document. -/
lemma analyze_events (t : Text) :
    ∃ first rest last, (analyze t).events = first :: (rest ++ [last]) ∧
      first.kind = .opens .scope ∧ first.offset = 0 ∧ last.kind = .closes .scope ∧
      ∀ e ∈ rest ++ [last], e.kind = .opens .scope → Inside t e.offset := by
  refine ⟨_, _, _, rfl, rfl, rfl, rfl, ?_⟩
  intro e he hkind
  obtain he | he := List.mem_append.mp he
  · have hin := inside_of_mem_innerEvents (List.mem_mergeSort.mp he) hkind
    rwa [Inside, length_maskText] at hin
  · obtain rfl := List.mem_singleton.mp he
    cases hkind

/-- The events of an analysis are replayed to their end for every cursor that does not lie beyond the
text. -/
lemma replay_analyze {t : Text} {cursor : Int} (h : cursor ≤ t.length) :
    ∃ r, replay t (analyze t).events cursor = .ok r := by
  obtain ⟨first, rest, last, hevents, hfirst, _, _, hopens⟩ := analyze_events t
  obtain ⟨r, hr, _⟩ := replay_ok (P := fun c => c ≤ t.length) (fun _ hc => hc) hfirst h
    fun e he hkind => (hopens e he hkind).2
  exact ⟨r, hevents ▸ hr⟩

/-- A completion request at any position of any document is answered. In every state of its replay
the cursor lies in the text, and the scope of the whole document is open below all others from the
first event, which opens it, up to the last, behind which no scope is open. More generally, events
that begin with a scope are replayed without failing, whatever follows, when the cursor lies in the
text and the scopes behind the first one open before its end. -/
theorem complete_never_fails (t : Text) :
    (∀ (row column : Int) (withSnippets : Bool),
      ∃ items, (analyze t).complete row column withSnippets = .ok items) ∧
    (∀ row column : Int,
      let cursor : Int := (analyze t).source.offset row column
      (∀ r e later, Replay.Reaches t (analyze t).events cursor r (e :: later) →
        (0 ≤ r.cursor ∧ r.cursor ≤ t.length) ∧
        (Rooted 0 r.stack ∨ (e :: later = (analyze t).events ∧ e.kind = .opens .scope))) ∧
      ∃ r, replay t (analyze t).events cursor = .ok r ∧ r.stack = []) ∧
    ∀ (first : ScopeEvent) (later : List ScopeEvent) (cursor : Int),
      first.kind = .opens .scope → 0 ≤ cursor → cursor ≤ t.length →
      (∀ e ∈ later, e.kind = .opens .scope → e.offset < t.length) →
      ∃ symbols, visibleAt t (first :: later) cursor = .ok symbols := by
  obtain ⟨first, rest, last, hevents, hfirst, hzero, hlast, hopens⟩ := analyze_events t
  -- the cursors that an analysis meets
  let P := fun c : Int => 0 ≤ c ∧ c ≤ t.length
  have hP : ∀ c, P c → c ≤ t.length := fun c hc => hc.2
  have hrest : ∀ e ∈ rest ++ [last], e.kind = .opens .scope → P (e.offset + 1) := by
    intro e he hkind
    obtain ⟨hlo, hhi⟩ := hopens e he hkind
    exact ⟨by omega, by omega⟩
  have hcursor : ∀ row column, P ((analyze t).source.offset row column) := by
    intro row column
    have hle : (analyze t).source.offset row column ≤ t.length := offset_le_length t row column
    exact ⟨by omega, by omega⟩
  have hreplay : ∀ row column, ∃ r,
      replay t (analyze t).events ((analyze t).source.offset row column) = .ok r ∧
        r.stack = [] := by
    intro row column
    obtain ⟨r, hr, hempty⟩ := replay_ok hP hfirst (hcursor row column) hrest
    exact ⟨r, hevents ▸ hr, hempty last List.getLast?_concat hlast⟩
  refine ⟨?_, ?_, ?_⟩
  · intro row column withSnippets
    obtain ⟨r, hr, _⟩ := hreplay row column
    refine ⟨(if withSnippets then snippets else []) ++ r.visible.map Item.ofSymbol, ?_⟩
    rw [Analysis.complete, visibleAtPosition, visibleAt]
    show Except.map _ (Except.map _ (replay t _ _)) = _
    rw [hr]
    rfl
  · intro row column cursor
    refine ⟨?_, hreplay row column⟩
    intro r e later hreach
    rw [hevents] at hreach ⊢
    obtain ⟨hstart, rfl⟩ | ⟨_, hsafe⟩ := hreach.safe hP hfirst (hcursor row column) hrest
    · cases hstart
      exact ⟨hcursor row column, .inr ⟨rfl, hfirst⟩⟩
    · obtain ⟨hcur, hrooted⟩ := hsafe (List.cons_ne_nil _ _)
      exact ⟨hcur, .inl (hzero ▸ hrooted)⟩
  · intro first later cursor hkind _ hle hlater
    obtain ⟨r, hr, _⟩ := replay_ok (P := fun c => c ≤ t.length) (fun c hc => hc) hkind hle
      fun e he hopen => Int.add_one_le_iff.mpr (hlater e he hopen)
    refine ⟨r.visible, ?_⟩
    rw [visibleAt, hr]
    rfl

/-- Events that do not match: scopes and lists that end before any opens, a clause that moves the
cursor into a scope at the last character, and a counter that no scope takes. -/
def strayEvents : List ScopeEvent :=
  [⟨0, .closes .scope, [], none⟩, ⟨0, .closes .signature, [], none⟩,
    ⟨1, .opens .signature, [], none⟩, ⟨0, .opens .loopStep, [], none⟩,
    ⟨2, .closes .loopStep, [], none⟩, ⟨1, .opens .scope, [], none⟩,
    ⟨1, .declares .value, ['x'], some ['y']⟩, ⟨2, .closes .scope, [], none⟩,
    ⟨2, .counter, [], none⟩]

theorem strayEvents_replayed :
    (∀ e ∈ strayEvents, e.kind = .opens .scope → e.offset < (['x', '.'] : Text).length) ∧
    ∃ symbols, visibleAt ['x', '.'] (⟨7, .opens .scope, [], none⟩ :: strayEvents) 2
      = .ok symbols := by
  have hopens : ∀ e ∈ strayEvents, e.kind = .opens .scope →
      e.offset < (['x', '.'] : Text).length := by decide
  exact ⟨hopens, (complete_never_fails ['x', '.']).2.2 ⟨7, .opens .scope, [], none⟩ strayEvents 2
    rfl (by decide) (by decide) hopens⟩

end LazeEdit
