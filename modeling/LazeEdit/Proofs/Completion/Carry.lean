import LazeEdit.Proofs.Completion.Frames
import LazeEdit.Proofs.Completion.View

/-!
# Carried symbols

The symbols of a list are carried until a frame opens and takes them, a scope ends or a function is
declared. A further list takes them and hands them on with its own. So events without a scope or a
function pass them on (`Passage`), whether or not the block that they were meant for is there.

Two sides are kept along a replay. `CarriesAtMost` says that a value of a name is nowhere but among
the carried symbols. A passage keeps this (`CarriesAtMost.passage`), and when a function or the end
of a scope follows, the value is never seen again (`CarriesAtMost.not_visible`). The other side is
that the value is carried: when a scope follows instead, it has the value and shows it
(`visible_of_carried`).
-/

namespace LazeEdit

/-! ### Values -/

/-- A value of a name is among some symbols. -/
def HasValue (n : Text) (symbols : List Symbol) : Prop :=
  ∃ x ∈ symbols, x.kind = .value ∧ x.name = n

instance (n : Text) (symbols : List Symbol) : Decidable (HasValue n symbols) :=
  inferInstanceAs (Decidable (∃ x ∈ symbols, _))

section HasValue

variable {n : Text} {xs ys : List Symbol}

lemma not_hasValue_nil : ¬ HasValue n [] :=
  fun ⟨_, hx, _⟩ => nomatch hx

lemma HasValue.mono (h : HasValue n xs) (hsubset : xs ⊆ ys) : HasValue n ys := by
  obtain ⟨x, hx, hvalue⟩ := h
  exact ⟨x, hsubset hx, hvalue⟩

lemma hasValue_append : HasValue n (xs ++ ys) ↔ HasValue n xs ∨ HasValue n ys := by
  simp only [HasValue, List.mem_append, or_and_right, exists_or]

end HasValue

namespace ScopeEvent

/-- The name of the value that an event brings, if it brings one. -/
def value? (e : ScopeEvent) : Option Text :=
  match e.kind with
  | .declares .value => some e.name
  | .counter => some counterName
  | _ => none

variable {e : ScopeEvent} {n : Text} {access : Access}

lemma value?_of_declared (h : HasValue n (e.declared access)) : e.value? = some n := by
  rw [declared] at h
  split at h
  case h_1 kind hkind =>
    obtain ⟨x, hx, hvalue, rfl⟩ := h
    obtain rfl := List.mem_singleton.mp hx
    obtain rfl : kind = .value := hvalue
    rw [value?, hkind]
  case h_2 => exact absurd h not_hasValue_nil

lemma value?_of_counted (h : HasValue n (e.counted access)) : e.value? = some n := by
  rw [counted] at h
  split at h
  case h_1 hkind =>
    obtain ⟨x, hx, _, rfl⟩ := h
    obtain rfl := List.mem_singleton.mp hx
    rw [value?, hkind]
  case h_2 => exact absurd h not_hasValue_nil

lemma hasValue_declared (h : e.kind = .declares .value) : HasValue e.name (e.declared access) := by
  rw [declared, h]
  exact ⟨_, List.mem_singleton_self _, rfl, rfl⟩

end ScopeEvent

/-- Events that pass carried symbols on: those that take, replace or drop them are the ends of
lists, one list behind the other. A value of the name comes inside of lists only. -/
inductive Passage (n : Text) : List ScopeEvent → Prop where
  | nil : Passage n []
  | skip {e events} :
    ¬ e.kind.movesCarried →
    e.value? ≠ some n →
    Passage n events →
    Passage n (e :: events)
  | list {opening inside closing events} {list : ValueList} :
    opening.kind = .opens list.extent →
    (∀ e ∈ inside, ¬ e.kind.movesCarried) →
    closing.kind = .closes list.extent →
    Passage n events →
    Passage n (opening :: (inside ++ closing :: events))

namespace Replay

variable {t : Text} {r q : Replay} {e : ScopeEvent} {events later : List ScopeEvent} {n : Text}

/-! ### Where a value may be -/

/-- No value of a name is among the symbols of some frames, in a class or in view. -/
structure Hides (n : Text) (frames : List Frame) (r : Replay) : Prop where
  frames : ∀ f ∈ frames, ¬ HasValue n f.symbols
  registry : ∀ type, ¬ HasValue n (r.registry.members type)
  visible : ¬ HasValue n r.visible

/-- Values of a name are nowhere but among the carried symbols. -/
structure CarriesAtMost (n : Text) (r : Replay) : Prop where
  opened : r.stack ≠ []
  hides : r.Hides n r.stack

/-- Values of a name are nowhere. -/
structure Lacks (n : Text) (r : Replay) : Prop extends CarriesAtMost n r where
  carry : ¬ HasValue n r.carry

lemma Hides.of_eq {frames : List Frame} (h : r.Hides n frames) (hregistry : q.registry = r.registry)
    (hvisible : q.visible = r.visible) : q.Hides n frames :=
  ⟨h.frames, hregistry ▸ h.registry, hvisible ▸ h.visible⟩

lemma Hides.close {frame : Frame} {stack : List Frame} {stop : Int}
    (h : r.Hides n (frame :: stack)) (hclose : r.close t frame stack stop = .ok q) :
    q.Hides n stack := by
  have hframe := h.frames frame List.mem_cons_self
  obtain ⟨seen, rfl, hseen, _⟩ := exists_seen_of_close hclose
  refine ⟨fun f hf => h.frames f (List.mem_cons_of_mem frame hf), fun type => ?_, ?_⟩
  · show ¬ HasValue n ((r.registryBehind frame).members type)
    rw [registryBehind]
    split
    · rw [Registry.members_insert]
      split
      · exact hframe
      · exact h.registry type
    · exact h.registry type
  · intro hvalue
    obtain hold | ⟨x, hx, hvalue⟩ := hasValue_append.mp hvalue
    · exact h.visible hold
    obtain hx | ⟨type, hx⟩ := hseen x hx
    · exact hframe ⟨x, hx, hvalue⟩
    · exact h.registry type ⟨x, hx, hvalue⟩

lemma Hides.closeAll {stack : List Frame} {stop : Int} (h : r.Hides n stack)
    (hclose : r.closeAll t stop stack = .ok q) : q.Hides n [] := by
  induction stack generalizing r with
  | nil =>
    cases hclose
    exact h
  | cons frame stack ih =>
    obtain ⟨r', hr', hclose⟩ := exists_of_bind hclose
    exact ih (h.close hr') hclose

namespace CarriesAtMost

/-- An event that brings no value of the name and opens and ends no frame keeps the value out of all
frames. -/
lemma adds (h : r.CarriesAtMost n) (hadds : Adds e r q) (hvalue : e.value? ≠ some n) :
    q.CarriesAtMost n := by
  obtain ⟨top, rest, hstack⟩ := List.exists_cons_of_ne_nil h.opened
  obtain ⟨top', hstack', _, hsymbols⟩ := hadds.stack top rest hstack
  have hhides : q.Hides n (top :: rest) := (hstack ▸ h.hides).of_eq hadds.registry hadds.visible
  obtain ⟨htop, hrest⟩ := List.forall_mem_cons.mp hhides.frames
  refine ⟨?_, ?_, hhides.registry, hhides.visible⟩
  · rw [hstack']
    exact List.cons_ne_nil top' rest
  · rw [hstack']
    refine List.forall_mem_cons.mpr ⟨?_, hrest⟩
    rw [hsymbols, hasValue_append]
    rintro (hold | hnew)
    · exact htop hold
    · exact hvalue (ScopeEvent.value?_of_declared hnew)

/-- The end of a scope drops the value. -/
lemma closesScope (h : r.CarriesAtMost n) (hkind : e.kind = .closes .scope)
    (hstep : r.step t e later = .ok q) :
    ¬ HasValue n q.visible ∧ (later ≠ [] → q.Lacks n) := by
  obtain ⟨hlast, m, hclose, rfl⟩ | ⟨_, _, rfl⟩ | ⟨_, frame, next, stack, m, hstack, hclose, rfl⟩ :=
    closesScope_cases hkind hstep
  · exact ⟨(h.hides.closeAll hclose).visible, fun hlater => absurd hlast hlater⟩
  · exact ⟨h.hides.visible, fun _ => ⟨⟨h.opened, h.hides.of_eq rfl rfl⟩, not_hasValue_nil⟩⟩
  · have hhides := (hstack ▸ h.hides).close hclose
    obtain ⟨seen, rfl, _⟩ := exists_seen_of_close hclose
    exact ⟨hhides.visible,
      fun _ => ⟨⟨List.cons_ne_nil next stack, hhides.of_eq rfl rfl⟩, not_hasValue_nil⟩⟩

/-- The declaration of a function drops the value. -/
lemma function (h : r.CarriesAtMost n) (hkind : e.kind = .declares .function)
    (hstep : r.step t e later = .ok q) : q.Lacks n := by
  have hadds := adds_of_declares hkind hstep
  have hvalue : e.value? = none := by rw [ScopeEvent.value?, hkind]
  refine ⟨h.adds hadds (by simp [hvalue]), ?_⟩
  obtain ⟨access, hcarry⟩ := hadds.carry
  rw [hcarry, if_pos hkind, ScopeEvent.counted, hkind]
  exact not_hasValue_nil

end CarriesAtMost

namespace Lacks

lemma opens (h : r.Lacks n) (hkind : e.kind.opensFrame) (hstep : r.step t e later = .ok q) :
    q.Lacks n := by
  obtain ⟨⟨access, owner, hstack⟩, hcarry, hregistry, hvisible⟩ := exists_of_opens hstep hkind
  have hhides : q.Hides n r.stack := h.hides.of_eq hregistry hvisible
  refine ⟨⟨?_, ?_, hhides.registry, hhides.visible⟩, ?_⟩
  · rw [hstack]
    exact List.cons_ne_nil _ _
  · rw [hstack]
    exact List.forall_mem_cons.mpr ⟨h.carry, hhides.frames⟩
  · rw [hcarry]
    exact not_hasValue_nil

lemma handOver (h : r.Lacks n) : r.handOver.Lacks n := by
  rw [Replay.handOver]
  split
  case h_1 top next stack hstack =>
    have hframes := List.forall_mem_cons.mp (hstack ▸ h.hides.frames)
    exact ⟨⟨List.cons_ne_nil _ _, hframes.2, h.hides.registry, h.hides.visible⟩, hframes.1⟩
  case h_2 => exact h

lemma adds (h : r.Lacks n) (hadds : Adds e r q) (hvalue : e.value? ≠ some n) : q.Lacks n := by
  refine ⟨h.toCarriesAtMost.adds hadds hvalue, ?_⟩
  obtain ⟨access, hcarry⟩ := hadds.carry
  rw [hcarry, hasValue_append]
  rintro (hold | hnew)
  · split at hold
    · exact not_hasValue_nil hold
    · exact h.carry hold
  · exact hvalue (ScopeEvent.value?_of_counted hnew)

/-- An event that does not bring the value does not make it come back. -/
lemma step (h : r.Lacks n) (hvalue : e.value? ≠ some n) (hstep : r.step t e later = .ok q) :
    ¬ HasValue n q.visible ∧ (later ≠ [] → q.Lacks n) := by
  by_cases hscope : e.kind = .closes .scope
  · exact h.closesScope hscope hstep
  -- only the end of a scope depends on the events behind it
  suffices hlacks : q.Lacks n from ⟨hlacks.hides.visible, fun _ => hlacks⟩
  by_cases hopens : e.kind.opensFrame
  · exact h.opens hopens hstep
  by_cases hcloses : e.kind.closesFrame
  · obtain hkind | ⟨list, hkind⟩ := EventKind.eq_of_closesFrame hcloses
    · exact absurd hkind hscope
    · rw [eq_of_closesList hstep hkind]
      exact h.handOver
  · exact h.adds (adds_of_step hstep hopens hcloses) hvalue

/-- Events that do not bring the value do not bring it into view. -/
lemma runPart (h : r.Lacks n) (hvalue : ∀ e ∈ events, e.value? ≠ some n)
    (hrun : runPart t later events r = .ok q) :
    ¬ HasValue n q.visible ∧ (later ≠ [] → q.Lacks n) := by
  induction events generalizing r with
  | nil =>
    cases hrun
    exact ⟨h.hides.visible, fun _ => h⟩
  | cons e events ih =>
    obtain ⟨m, hstep, hrun⟩ := exists_of_bind hrun
    obtain ⟨hvisible, hlacks⟩ := h.step (hvalue e List.mem_cons_self) hstep
    by_cases hlast : events ++ later = []
    · -- nothing follows
      obtain ⟨rfl, rfl⟩ := List.append_eq_nil_iff.mp hlast
      cases hrun
      exact ⟨hvisible, fun hne => absurd rfl hne⟩
    · exact ih (hlacks hlast) (fun e' he' => hvalue e' (List.mem_cons_of_mem e he')) hrun

end Lacks

/-- When a function or the end of a scope follows, the value is never seen. -/
lemma CarriesAtMost.not_visible (h : r.CarriesAtMost n)
    (hkind : e.kind = .declares .function ∨ e.kind = .closes .scope)
    (hvalue : ∀ e ∈ later, e.value? ≠ some n) (hrun : runPart t [] (e :: later) r = .ok q) :
    ¬ HasValue n q.visible := by
  obtain ⟨m, hstep, hrun⟩ := exists_of_bind hrun
  rw [List.append_nil] at hstep
  obtain hkind | hkind := hkind
  · exact ((h.function hkind hstep).runPart hvalue hrun).1
  · obtain ⟨hvisible, hlacks⟩ := h.closesScope hkind hstep
    by_cases hlast : later = []
    · subst hlast
      cases hrun
      exact hvisible
    · exact ((hlacks hlast).runPart hvalue hrun).1

/-! ### Events that pass the carried symbols on -/

/-- Events between the ends of a list add to its frame. -/
lemma runPart_inside {top : Frame} {rest : List Frame}
    (hinside : ∀ e ∈ events, ¬ e.kind.movesCarried) (hrun : runPart t later events r = .ok q)
    (hstack : r.stack = top :: rest) :
    q.registry = r.registry ∧ q.visible = r.visible ∧
      ∃ top', q.stack = top' :: rest ∧ top.symbols ⊆ top'.symbols ∧
        ∀ d ∈ events, d.kind = .declares .value → HasValue d.name top'.symbols := by
  induction events generalizing r top with
  | nil =>
    cases hrun
    exact ⟨rfl, rfl, top, hstack, fun x hx => hx, by simp⟩
  | cons e events ih =>
    obtain ⟨m, hstep, hrun⟩ := exists_of_bind hrun
    obtain ⟨hopens, hcloses, _⟩ := EventKind.not_movesCarried (hinside e List.mem_cons_self)
    have hadds := adds_of_step hstep hopens hcloses
    obtain ⟨top1, hstack1, _, hsymbols⟩ := hadds.stack top rest hstack
    obtain ⟨hregistry, hvisible, top2, hstack2, hsubset, hdeclared⟩ :=
      ih (fun e' he' => hinside e' (List.mem_cons_of_mem e he')) hrun hstack1
    rw [hsymbols] at hsubset
    refine ⟨hregistry.trans hadds.registry, hvisible.trans hadds.visible, top2, hstack2,
      List.Subset.trans (List.subset_append_left _ _) hsubset, ?_⟩
    intro d hd hkind
    obtain rfl | hd := List.mem_cons.mp hd
    · have hnew : HasValue d.name (d.declared top.access) := ScopeEvent.hasValue_declared hkind
      exact (hnew.mono (List.subset_append_right top.symbols _)).mono hsubset
    · exact hdeclared d hd hkind

/-- A list takes the carried symbols and hands them on with those that are declared inside it. -/
lemma runPart_list {opening closing : ScopeEvent} {inside : List ScopeEvent} {list : ValueList}
    (hopening : opening.kind = .opens list.extent) (hinside : ∀ e ∈ inside, ¬ e.kind.movesCarried)
    (hclosing : closing.kind = .closes list.extent) (hopened : r.stack ≠ [])
    (hrun : runPart t later (opening :: (inside ++ closing :: events)) r = .ok q) :
    ∃ m, runPart t later events m = .ok q ∧ m.stack = r.stack ∧ m.registry = r.registry ∧
      m.visible = r.visible ∧ r.carry ⊆ m.carry ∧
      ∀ d ∈ inside, d.kind = .declares .value → HasValue d.name m.carry := by
  obtain ⟨m1, hm1, hrun⟩ := exists_of_bind hrun
  obtain ⟨m2, hm2, hrun⟩ := exists_of_runPart_append hrun
  obtain ⟨m3, hm3, hrun⟩ := exists_of_bind hrun
  have hopens : opening.kind.opensFrame := by
    rw [hopening]
    cases list with
    | signature => rfl
    | loopDeclaration => rfl
  obtain ⟨⟨access, owner, hstack1⟩, _, hregistry1, hvisible1⟩ := exists_of_opens hm1 hopens
  obtain ⟨hregistry2, hvisible2, top, hstack2, hsubset, hdeclared⟩ :=
    runPart_inside hinside hm2 hstack1
  obtain ⟨next, rest, hstack⟩ := List.exists_cons_of_ne_nil hopened
  rw [hstack] at hstack2 ⊢
  have hm3 : m3 = { m2 with stack := next :: rest, carry := top.symbols } := by
    rw [eq_of_closesList hm3 hclosing, handOver, hstack2]
  subst hm3
  exact ⟨_, hrun, rfl, hregistry2.trans hregistry1, hvisible2.trans hvisible1, hsubset, hdeclared⟩

/-- A passage keeps the value out of all frames, and it carries the value on, whether it was carried
before or is declared on the way. -/
lemma CarriesAtMost.passage (h : r.CarriesAtMost n) (hpassage : Passage n events)
    (hrun : runPart t later events r = .ok q) :
    q.CarriesAtMost n ∧
      (HasValue n r.carry ∨ (∃ d ∈ events, d.kind = .declares .value ∧ d.name = n) →
        HasValue n q.carry) := by
  induction hpassage generalizing r with
  | nil =>
    cases hrun
    exact ⟨h, by simp⟩
  | @skip e events hkind hvalue _ ih =>
    obtain ⟨m, hstep, hrun⟩ := exists_of_bind hrun
    obtain ⟨hopens, hcloses, hfunction⟩ := EventKind.not_movesCarried hkind
    have hadds := adds_of_step hstep hopens hcloses
    obtain ⟨hq, hcarries⟩ := ih (h.adds hadds hvalue) hrun
    refine ⟨hq, ?_⟩
    rintro (hcarried | ⟨d, hd, hdkind, rfl⟩)
    · obtain ⟨access, hcarry⟩ := hadds.carry
      rw [if_neg hfunction] at hcarry
      exact hcarries (.inl (hcarry ▸ hcarried.mono (List.subset_append_left _ _)))
    · obtain rfl | hd := List.mem_cons.mp hd
      · exact absurd (by rw [ScopeEvent.value?, hdkind]) hvalue
      · exact hcarries (.inr ⟨d, hd, hdkind, rfl⟩)
  | @list opening inside closing events list hopening hinside hclosing _ ih =>
    obtain ⟨m, hrun, hstack, hregistry, hvisible, hcarry, hdeclared⟩ :=
      runPart_list hopening hinside hclosing h.opened hrun
    have hm : m.CarriesAtMost n :=
      ⟨hstack ▸ h.opened, hstack ▸ h.hides.of_eq hregistry hvisible⟩
    obtain ⟨hq, hcarries⟩ := ih hm hrun
    refine ⟨hq, ?_⟩
    rintro (hcarried | ⟨d, hd, hkind, rfl⟩)
    · exact hcarries (.inl (hcarried.mono hcarry))
    simp only [List.mem_cons, List.mem_append] at hd
    obtain rfl | hd | rfl | hd := hd
    · cases hopening.symm.trans hkind
    · exact hcarries (.inl (hdeclared d hd hkind))
    · cases hclosing.symm.trans hkind
    · exact hcarries (.inr ⟨d, hd, hkind, rfl⟩)

/-- The state in front of the event that decides what becomes of the value. -/
lemma exists_carried {first : ScopeEvent} {before passage : List ScopeEvent} {cursor : Int}
    (hfirst : first.kind = .opens .scope) (hbefore : ∀ a ∈ before, a.value? ≠ some n)
    (hpassage : Passage n passage)
    (hrun : replay t (first :: before ++ passage ++ e :: later) cursor = .ok q) :
    ∃ m, runPart t (e :: later) (first :: before ++ passage) { cursor := cursor } = .ok m ∧
      runPart t [] (e :: later) m = .ok q ∧ m.CarriesAtMost n ∧
      ((∃ d ∈ passage, d.kind = .declares .value ∧ d.name = n) → HasValue n m.carry) := by
  rw [replay, run_eq_runPart] at hrun
  obtain ⟨m, hm, hrun⟩ := exists_of_runPart_append hrun
  rw [List.append_nil] at hm
  obtain ⟨m2, hm2, hm2'⟩ := exists_of_runPart_append hm
  obtain ⟨m1, hm1, hm2⟩ := exists_of_bind hm2
  -- the first event leaves one scope with nothing in it
  obtain ⟨⟨access, owner, hstack⟩, hcarry, hregistry, hvisible⟩ :=
    exists_of_opens hm1 (by rw [hfirst]; rfl)
  have hstart : m1.Lacks n := by
    refine ⟨⟨by rw [hstack]; exact List.cons_ne_nil _ _, ?_, ?_, ?_⟩, ?_⟩
    · rw [hstack]
      exact List.forall_mem_singleton.mpr not_hasValue_nil
    · rw [hregistry]
      exact fun _ => not_hasValue_nil
    · rw [hvisible]
      exact not_hasValue_nil
    · rw [hcarry]
      exact not_hasValue_nil
  have hne : passage ++ e :: later ≠ [] :=
    List.append_ne_nil_of_right_ne_nil passage (List.cons_ne_nil e later)
  have hlacks := (hstart.runPart hbefore hm2).2 hne
  obtain ⟨hcarries, hheld⟩ := hlacks.toCarriesAtMost.passage hpassage hm2'
  exact ⟨m, hm, hrun, hcarries, fun hdeclared => hheld (.inr hdeclared)⟩

/-! ### A scope that takes the carried symbols -/

/-- When a scope follows, it takes the carried value and shows it to a cursor inside. -/
lemma visible_of_carried {opening closing : ScopeEvent} {inside : List ScopeEvent}
    (hopened : r.stack ≠ []) (hcarry : HasValue n r.carry)
    (hopening : opening.kind = .opens .scope) (hnested : Nested inside)
    (hclosing : closing.kind = .closes .scope) (hstart : opening.offset < r.cursor)
    (hstop : r.cursor ≤ closing.offset)
    (hclauses : ∀ e ∈ inside, ∀ c : LoopClause, e.kind = .closes c.extent → e.offset < r.cursor)
    (hrun : runPart t [] (opening :: (inside ++ closing :: later)) r = .ok q) :
    HasValue n q.visible := by
  obtain ⟨m1, hm1, hrun⟩ := exists_of_bind hrun
  obtain ⟨m2, hm2, hrun⟩ := exists_of_runPart_append hrun
  obtain ⟨m3, hm3, hrun⟩ := exists_of_bind hrun
  obtain ⟨⟨access, owner, hstack1⟩, _⟩ := exists_of_opens hm1 (by rw [hopening]; rfl)
  have hcursor1 : m1.cursor = r.cursor := by
    refine cursor_of_step ?_ hm1
    rintro ⟨⟨c, hkind⟩, _⟩
    cases hopening.symm.trans hkind
  have hcursor2 := cursor_of_runPart hm2 hclauses hcursor1
  obtain ⟨next, rest, hstack⟩ := List.exists_cons_of_ne_nil hopened
  obtain ⟨top, hstack2, hstart2, hsubset⟩ :=
    stack_of_nested hnested (List.cons_ne_nil _ _) hm2 hstack1
  rw [hstack] at hstack2
  obtain ⟨m, hclose, hshown, _⟩ := exists_close_of_step hclosing hstack2 hm3
  obtain ⟨seen, rfl, _, hseen⟩ := exists_seen_of_close hclose
  have hsymbols : top.symbols ⊆ seen := hseen (by rw [hstart2, hcursor2]; exact hstart) (by omega)
  have hshow : HasValue n m3.visible := by
    have htop : HasValue n top.symbols := hcarry.mono hsubset
    have hnew := (htop.mono hsymbols).mono (List.subset_append_right m2.visible seen)
    exact hnew.mono hshown
  exact runPart_invariant (P := fun r => HasValue n r.visible)
    (fun _ _ _ _ _ hr hstep => hr.mono (visible_subset_of_step hstep)) hrun hshow

end Replay

end LazeEdit
