import LazeEdit.Proofs.Completion.Cursor
import LazeEdit.Proofs.Completion.Safety
import LazeEdit.Proofs.Mask.Locality
import LazeEdit.Proofs.Scope.Tail

/-!
# Closing braces at the end of a document

The last event of a replay ends every open scope. Ends of scopes that stand just before it, and
behind the cursor, take off the stack what the last event would take off, and none of them ends the
outermost scope (`run_closers`). So it makes no difference how many there are. Before them the
replay of a document and that of the document with closing braces behind it go through the same
events (`run_followed`), since a line feed and closing braces give no other ones.
-/

namespace LazeEdit

lemma receiverAt_append {t u : Text} {cursor : Int} (h : cursor ≤ t.length) :
    receiverAt (t ++ u) cursor = receiverAt t cursor := by
  rw [receiverAt, receiverAt, List.take_append_of_le_length (by omega)]

lemma receiver?_append {t u : Text} {cursor : Int} (h : cursor ≤ t.length) :
    receiver? (t ++ u) cursor = receiver? t cursor := by
  rw [receiver?_eq (by rw [List.length_append]; omega), receiver?_eq h, receiverAt_append h]

namespace Replay

variable {t u : Text} {r : Replay} {stop stop' : Int}

/-! ### Ends behind the cursor -/

/-- Where a scope ends behind the cursor makes no difference, and neither does what stands behind the
text. -/
lemma close_append (h : r.cursor ≤ t.length) (hstop : r.cursor ≤ stop) (hstop' : r.cursor ≤ stop')
    (frame : Frame) (stack : List Frame) :
    r.close (t ++ u) frame stack stop' = r.close t frame stack stop := by
  have hoffered : offered (t ++ u) r.cursor frame.start stop' r.registry.members frame.symbols
      = offered t r.cursor frame.start stop r.registry.members frame.symbols := by
    simp only [offered, receiverAt_append h, hstop, hstop', and_true]
  rw [close_eq (by rw [List.length_append]; omega), close_eq h, hoffered]

lemma closeAll_append (h : r.cursor ≤ t.length) (hstop : r.cursor ≤ stop) (hstop' : r.cursor ≤ stop')
    (stack : List Frame) :
    r.closeAll (t ++ u) stop' stack = r.closeAll t stop stack := by
  induction stack generalizing r with
  | nil => rfl
  | cons frame stack ih =>
    rw [closeAll, closeAll, close_append h hstop hstop', close_eq h]
    exact ih h hstop hstop'

lemma exists_close (h : r.cursor ≤ t.length) (frame : Frame) (stack : List Frame) (stop : Int) :
    ∃ q, r.close t frame stack stop = .ok q ∧ r.settled.close t frame stack stop = .ok q.settled ∧
      q.cursor = r.cursor ∧ q.stack = stack :=
  ⟨_, close_eq h frame stack stop, close_eq (r := r.settled) h frame stack stop, rfl, rfl⟩

lemma closeAll_settled (h : r.cursor ≤ t.length) (stop : Int) (stack : List Frame) :
    r.settled.closeAll t stop stack = (r.closeAll t stop stack).map settled := by
  induction stack generalizing r with
  | nil => rfl
  | cons frame stack ih =>
    obtain ⟨q, hclose, hsettled, hcursor, _⟩ := exists_close h frame stack stop
    rw [closeAll, closeAll, hclose, hsettled]
    exact ih (hcursor ▸ h)

lemma run_last {e : ScopeEvent} (h : e.kind = .closes .scope) :
    run t [e] r = (r.closeAll t e.offset r.stack).map settled := by
  rw [run, step_last h]
  cases r.closeAll t e.offset r.stack with
  | error cause => rfl
  | ok q => rfl

/-- The last event does not see what was carried. -/
lemma run_last_settled {e : ScopeEvent} (h : e.kind = .closes .scope) (hcursor : r.cursor ≤ t.length) :
    run t [e] r.settled = run t [e] r := by
  rw [run_last h, run_last h]
  show Except.map settled (r.settled.closeAll t e.offset r.stack) = _
  rw [closeAll_settled hcursor]
  cases r.closeAll t e.offset r.stack with
  | error cause => rfl
  | ok q => rfl

/-- Ends of scopes behind the cursor and then the last event lead to the state to which the last event
leads alone. -/
lemma run_closers {closers : List ScopeEvent} {last last' : ScopeEvent}
    (hlast : last.kind = .closes .scope) (hlast' : last'.kind = .closes .scope)
    (hcursor : r.cursor ≤ t.length) (hstop : r.cursor ≤ last.offset)
    (hstop' : r.cursor ≤ last'.offset)
    (hclosers : ∀ e ∈ closers, e.kind = .closes .scope ∧ r.cursor ≤ e.offset) :
    run (t ++ u) (closers ++ [last']) r = run t [last] r := by
  induction closers generalizing r with
  | nil =>
    rw [List.nil_append, run_last hlast, run_last hlast', closeAll_append hcursor hstop hstop']
  | cons e closers ih =>
    obtain ⟨hkind, hoffset⟩ := hclosers e List.mem_cons_self
    have hlater : closers ++ [last'] ≠ [] := List.append_ne_nil_of_right_ne_nil _ (by simp)
    have hrest := fun e' he' => hclosers e' (List.mem_cons_of_mem e he')
    by_cases hstack : r.stack.length ≤ 1
    · rw [List.cons_append, run_cons (step_outermost hkind hlater hstack),
        ih (r := r.settled) hcursor hstop hstop' hrest, run_last_settled hlast hcursor]
    · match hframes : r.stack with
      | [] => simp [hframes] at hstack
      | [_] => simp [hframes] at hstack
      | frame :: next :: stack =>
        -- the end of this scope is the first step of the end of all
        obtain ⟨q, hclose, _, hq, hbelow⟩ := exists_close hcursor frame (next :: stack) last.offset
        have hstep : r.step (t ++ u) e (closers ++ [last']) = .ok q.settled := by
          rw [step_inner hkind hlater hframes, close_append hcursor hstop hoffset, hclose]
          rfl
        rw [List.cons_append, run_cons hstep, ih (r := q.settled) (hq ▸ hcursor) (hq ▸ hstop)
          (hq ▸ hstop') (fun e' he' => hq ▸ hrest e' he'), run_last_settled hlast (hq ▸ hcursor),
          run_last hlast, run_last hlast, hframes, closeAll, hclose, hbelow]
        rfl

/-! ### The same events before two ends -/

variable {e : ScopeEvent} {later later' : List ScopeEvent}

/-- A step reads the text before the cursor, and of the later events only whether there are any and
which one opens the next scope. -/
lemma step_append (hcursor : r.cursor ≤ t.length) (hlast : later = [] ↔ later' = [])
    (hfind : later'.find? (fun e => e.kind = .opens .scope)
      = later.find? (fun e => e.kind = .opens .scope)) :
    r.step (t ++ u) e later' = r.step t e later := by
  have hclauses : r.Moves e later' ↔ r.Moves e later := by rw [Moves, Moves, hfind]
  by_cases hmoves : r.Moves e later
  · obtain ⟨body, hbody, hstep⟩ := step_of_moves hmoves t
    obtain ⟨body', hbody', hstep'⟩ := step_of_moves (hclauses.mpr hmoves) (t ++ u)
    obtain rfl : body' = body := Option.some.inj (hbody'.symm.trans (hfind.trans hbody))
    rw [hstep, hstep']
  · have hstep : r.step (t ++ u) e later' = (r.step t e later).map (·.withCursor r.cursor) :=
      step_withCursor hlast hmoves (mt hclauses.mp hmoves) fun _ _ _ =>
        ⟨Iff.rfl, fun _ _ => receiver?_append hcursor⟩
    rw [hstep]
    cases hq : r.step t e later with
    | error cause => rfl
    | ok q =>
      show Except.ok (q.withCursor r.cursor) = _
      rw [← cursor_of_step hmoves hq]
      rfl

lemma cursor_le_of_step {q : Replay} (h : r.step t e later = .ok q) (hcursor : r.cursor ≤ t.length)
    (hopens : ∀ e ∈ later, e.kind = .opens .scope → e.offset < t.length) :
    q.cursor ≤ t.length := by
  by_cases hmoves : r.Moves e later
  · obtain ⟨body, hbody, hstep⟩ := step_of_moves hmoves t
    rw [hstep] at h
    cases h
    have hkind : body.kind = .opens .scope := by simpa using List.find?_some hbody
    exact hopens body (List.mem_of_find?_eq_some hbody) hkind
  · rwa [cursor_of_step hmoves h]

/-- Replays of the same events lead to the same result when what follows them does and opens no
scope. -/
lemma run_followed {events : List ScopeEvent} (hcursor : r.cursor ≤ t.length)
    (hopens : ∀ e ∈ events, e.kind = .opens .scope → e.offset < t.length)
    (hne : later ≠ []) (hne' : later' ≠ []) (hlater : ∀ e ∈ later, e.kind ≠ .opens .scope)
    (hlater' : ∀ e ∈ later', e.kind ≠ .opens .scope)
    (hrun : ∀ q : Replay, q.cursor ≤ t.length → run (t ++ u) later' q = run t later q) :
    run (t ++ u) (events ++ later') r = run t (events ++ later) r := by
  induction events generalizing r with
  | nil => exact hrun r hcursor
  | cons e events ih =>
    have hfind : (events ++ later').find? (fun e => e.kind = .opens .scope)
        = (events ++ later).find? (fun e => e.kind = .opens .scope) := by
      have hnone : later.find? (fun e => e.kind = .opens .scope) = none := by simpa using hlater
      have hnone' : later'.find? (fun e => e.kind = .opens .scope) = none := by simpa using hlater'
      rw [List.find?_append, List.find?_append, hnone, hnone']
    have hlast : events ++ later = [] ↔ events ++ later' = [] := by simp [hne, hne']
    have hbehind : ∀ e ∈ events, e.kind = .opens .scope → e.offset < t.length :=
      fun e' he' => hopens e' (List.mem_cons_of_mem e he')
    rw [List.cons_append, List.cons_append, run, run, step_append hcursor hlast hfind]
    cases hstep : r.step t e (events ++ later) with
    | error cause => rfl
    | ok q =>
      refine ih (cursor_le_of_step hstep hcursor ?_) hbehind
      intro e' he' hkind
      obtain he' | he' := List.mem_append.mp he'
      · exact hbehind e' he' hkind
      · exact absurd hkind (hlater e' he')

end Replay

/-- A line feed and any number of closing braces behind a document make no difference to completion:
for every cursor of the document the replay ends in the same state, with the same symbols in view in
the same order and the same members of classes, whether or not the braces close what is open. This
holds as well when the document ends inside a comment, to which the braces then belong. -/
theorem replay_append_closers (t : Text) (k : Nat) (cursor : Int) (h : cursor ≤ t.length) :
    ∃ r, replay t (analyze t).events cursor = .ok r ∧
      replay (t ++ '\n' :: List.replicate k '\x7d')
        (analyze (t ++ '\n' :: List.replicate k '\x7d')).events cursor = .ok r := by
  obtain ⟨w, hmask, hchars⟩ := maskText_append_line t (List.replicate k '\x7d')
  have hidle : Idle w := by
    intro c hc
    obtain hbrace | rfl := hchars c hc
    · rw [List.eq_of_mem_replicate hbrace]
      decide
    · decide
  obtain ⟨events, closers, hevents, hevents', hinner, hclosers⟩ :=
    scopeEvents_followed hidle (maskText t)
  rw [← hmask] at hevents'
  rw [length_maskText] at hevents hclosers
  rw [length_maskText, List.length_append] at hevents'
  have hopens : ∀ e ∈ events, e.kind = .opens .scope → e.offset < t.length := by
    intro e he hkind
    have hinside := (inside_of_mem_innerEvents (hinner e he) hkind).2
    rwa [length_maskText] at hinside
  obtain ⟨r, hr⟩ := replay_analyze h
  refine ⟨r, hr, ?_⟩
  rw [← hr]
  show replay _ (scopeEvents _ _) _ = replay _ (scopeEvents _ _) _
  rw [hevents, hevents', replay, replay, Replay.run, Replay.run]
  -- the scope of the document opens, and then the two documents have the same events
  refine Replay.run_followed h hopens (List.cons_ne_nil _ _) (by simp) (by simp) ?_ ?_
  · intro e he hkind
    obtain he | he := List.mem_append.mp he
    · rw [(hclosers e he).1] at hkind
      cases hkind
    · obtain rfl := List.mem_singleton.mp he
      cases hkind
  · intro q hq
    refine Replay.run_closers rfl rfl hq hq ?_ ?_
    · show q.cursor ≤ ((t.length + _ : Nat) : Int)
      omega
    · intro e he
      obtain ⟨hkind, hle⟩ := hclosers e he
      exact ⟨hkind, Int.le_trans hq hle⟩

/-- A block with a variable and without an end. -/
def openBlock : Text :=
  ['\x7b', '整', '数', ':', 'x', ';']

theorem replay_openBlock :
    ∃ r, replay openBlock (analyze openBlock).events 6 = .ok r ∧
      replay (openBlock ++ ['\n', '\x7d', '\x7d'])
        (analyze (openBlock ++ ['\n', '\x7d', '\x7d'])).events 6 = .ok r :=
  replay_append_closers openBlock 2 6 (by decide)

end LazeEdit
