import LazeEdit.Proofs.Classification.Echo
import LazeEdit.Scope.Build

/-!
# The events of an echo

The signatures, loops and repetitions that are found at places of two texts in lockstep are the
same, moved: their recognisers are taken apart step by step, with a search along a line at each list
and clause. So the events of an echo are those of the text, moved. Sorting them by offset does not
tell the two apart, and only the scope of the whole document opens at the start of both
(`scopeEvents_echo`).
-/

namespace LazeEdit

variable {k : Nat} {t t' : Text} {s s' : Site}

/-! ### Signatures and loops in lockstep -/

/-- The ends of a stretch further on. -/
def Ends.moved (k : Nat) (e : Ends) : Ends :=
  ⟨e.opening + k, e.closing + k⟩

/-- The results of a function further on. -/
def Results.moved (k : Nat) (r : Results) : Results :=
  ⟨r.list.moved k, r.body.map (·.moved k)⟩

/-- A signature further on. -/
def Signature.moved (k : Nat) (s : Signature) : Signature :=
  ⟨s.parameters.moved k, s.results.map (·.moved k)⟩

/-- A loop further on. -/
def Loop.moved (k : Nat) (l : Loop) : Loop :=
  ⟨l.declaration.moved k, l.condition.moved k, l.step.moved k⟩

namespace Site.Lockstep

variable {Exact Loose : Site → Site → Prop}

lemma ends_eq {z z' : Site} (h : Lockstep k Exact Loose) (hs : Exact s s') (hz : Exact z z') :
    (⟨s'.offset, z'.offset⟩ : Ends) = Ends.moved k ⟨s.offset, z.offset⟩ := by
  rw [h.offset hs, h.offset hz]
  rfl

lemma expressionBody? (h : Lockstep k Exact Loose) (hs : Exact s s') :
    Option.Rel (fun e f => f = e.moved k) s.expressionBody? s'.expressionBody? := by
  apply rel_bind (h.char? (h.skipBlanks (h.loose hs)) (by decide))
  rintro inner inner' ⟨hopening, hinner⟩
  refine .some ?_
  rw [h.offset hopening, h.lineEnd hinner]
  rfl

lemma results? (h : Lockstep k Exact Loose) (hs : Exact s s') :
    Option.Rel (fun r q => q = r.moved k) s.results? s'.results? := by
  apply rel_bind (h.char? (h.skipBlanks (h.loose hs)) (by decide))
  rintro equals equals' ⟨_, hequals⟩
  apply rel_bind (h.char? (h.skipBlanks (h.loose hequals)) (by decide))
  rintro arrow arrow' ⟨_, harrow⟩
  apply rel_bind (h.char? (h.skipBlanks (h.loose harrow)) (by decide))
  rintro inner inner' ⟨hopening, hinner⟩
  apply h.searchLine hinner (by decide)
  intro close close' hclose hbehind
  refine .some ?_
  rw [h.ends_eq hopening hclose, eq_map_of_rel (h.expressionBody? hbehind)]
  rfl

lemma signature? (h : Lockstep k Exact Loose) (hs : Exact s s') :
    Option.Rel (fun a b => b = a.moved k) s.signature? s'.signature? := by
  apply rel_bind (h.char? (h.skipBlanks (h.loose hs)) (by decide))
  rintro inner inner' ⟨hopening, hinner⟩
  apply rel_orElse
  · apply h.searchLine hinner (by decide)
    intro close close' hclose hbehind
    apply rel_map (h.results? hbehind)
    rintro r _ rfl
    rw [h.ends_eq hopening hclose]
    rfl
  · apply h.searchLine hinner (by decide)
    intro close close' hclose _
    refine .some ?_
    rw [h.ends_eq hopening hclose]
    rfl

/-- What goes on behind a clause corresponds when it does so at corresponding places. -/
lemma clause? {α β : Type} {R : α → β → Prop} {f : Ends → Site → Option α}
    {g : Ends → Site → Option β} (h : Lockstep k Exact Loose) (hs : Loose s s')
    (hfg : ∀ e z z', Exact z z' → Option.Rel R (f e z) (g (e.moved k) z')) :
    Option.Rel R (s.clause? f) (s'.clause? g) := by
  apply rel_bind (h.char? hs (by decide))
  rintro inner inner' ⟨hs, hinner⟩
  apply h.searchLine hinner (by decide)
  intro close close' hclose hbehind
  rw [h.ends_eq hs hclose]
  exact hfg _ _ _ hbehind

lemma link? {w : Text} (h : Lockstep k Exact Loose) (hs : Exact s s') (hw : isName w) :
    Option.Rel Loose (s.link? w) (s'.link? w) :=
  rel_map (h.word? (h.skipBlanks (h.loose hs)) hw) fun _ _ hab => h.skipBlanks (h.loose hab)

lemma findLoop (h : Lockstep k Exact Loose) (hs : Exact s s') :
    Option.Rel (fun x y => y.1 = x.1.moved k ∧ x.2 = y.2) (findLoop s) (findLoop s') := by
  apply h.clause? (h.loose hs)
  intro declaration s1 s1' h1
  apply rel_bind (h.link? h1 (by decide))
  intro s2 s2' h2
  apply h.clause? h2
  intro condition s3 s3' h3
  apply rel_bind (h.link? h3 (by decide))
  intro s4 s4' h4
  apply h.clause? h4
  intro step s5 s5' h5
  apply rel_bind (h.char? (h.skipBlanks (h.loose h5)) (by decide))
  intro brace brace' _
  refine .some ⟨rfl, ?_⟩
  rw [h.offset hs, h.offset h5]
  omega

lemma findRepeat (h : Lockstep k Exact Loose) (hs : Exact s s') :
    Option.Rel (fun x y => y.1 = x.1 + k ∧ x.2 = y.2) (findRepeat s) (findRepeat s') :=
  rel_map (h.word? (h.loose hs) (by decide)) fun _ _ _ => ⟨h.offset hs, rfl⟩

end Site.Lockstep

lemma steady_findLoop (k : Nat) : findLoop.Steady k (fun l m => m = l.moved k) where
  feed := fun _ _ _ => rfl
  echo := fun _ _ => (Site.Echo.lockstep k).findLoop

lemma steady_findRepeat (k : Nat) : findRepeat.Steady k (fun m n => n = m + k) where
  feed := fun _ _ _ => rfl
  echo := fun _ _ => (Site.Echo.lockstep k).findRepeat

/-! ### Events -/

/-- An event further on. -/
def ScopeEvent.moved (k : Nat) (e : ScopeEvent) : ScopeEvent :=
  { e with offset := e.offset + k }

@[simp] lemma ScopeEvent.moved_zero (e : ScopeEvent) : e.moved 0 = e := by
  rw [moved, Int.natCast_zero, Int.add_zero]

lemma Ends.events_moved (k : Nat) (e : Ends) (extent : Extent) (name : Text) :
    (e.moved k).events extent name = (e.events extent name).map (·.moved k) := by
  simp only [events, moved, Int.natCast_add]
  rfl

lemma Signature.events_moved (k : Nat) (s : Signature) (name : Text) :
    (s.moved k).events name = (s.events name).map (·.moved k) := by
  obtain ⟨parameters, results⟩ := s
  simp only [events, moved, Ends.events_moved, List.map_append]
  congr 1
  cases results with
  | none => rfl
  | some r =>
    obtain ⟨list, body⟩ := r
    simp only [Option.map_some, Results.moved, Ends.events_moved, List.map_append]
    congr 1
    cases body with
    | none => rfl
    | some body => exact body.events_moved k .scope name

lemma Loop.events_moved (k : Nat) (l : Loop) : (l.moved k).events = l.events.map (·.moved k) := by
  simp only [events, moved, Ends.events_moved, List.map_append]

lemma Classification.events_moved (k : Nat) (c : Classification) :
    (c.moved k).events = c.events.map (·.moved k) := by
  simp only [events, moved, List.map_append, List.map_map]
  rfl

lemma signatureEvents_echo (h : Echoes k t t') {d : Declaration} (hd : 0 ≤ d.stop) :
    signatureEvents t' (d.moved k) = (signatureEvents t d).map (·.moved k) := by
  have hstop : (d.moved k).stop.toNat = d.stop.toNat + k := by
    show (d.stop + k).toNat = _
    omega
  rw [signatureEvents, signatureEvents, hstop,
    eq_map_of_rel ((Site.Echo.lockstep k).signature? (h.ofOffset d.stop.toNat))]
  cases (Site.ofOffset t d.stop.toNat).signature? with
  | none => rfl
  | some s => exact s.events_moved k d.name

/-- The names of declared functions end inside the text. -/
lemma stop_nonneg_of_mem_functions {d : Declaration} (h : d ∈ (classify t).functions) :
    0 ≤ d.stop := by
  obtain ⟨f, _, hd⟩ := List.mem_filterMap.mp h
  rw [FunctionForm.declaration?] at hd
  split at hd
  · cases hd
    exact Int.natCast_nonneg _
  · cases hd

lemma braceEventsFrom_feeds (n offset : Nat) (u : Text) :
    braceEventsFrom offset (List.replicate n '\n' ++ u) = braceEventsFrom (offset + n) u := by
  induction n generalizing offset with
  | zero => rfl
  | succ n ih =>
    rw [List.replicate_succ, List.cons_append, braceEventsFrom]
    exact (ih (offset + 1)).trans (by rw [Nat.add_right_comm]; rfl)

lemma braceEvents_echo (h : Echoes k t t') :
    braceEventsFrom 0 t' = (braceEventsFrom 0 t).map (·.moved k) := by
  obtain ⟨u, rfl, htu⟩ := h
  have hopen : WidthFree isOpenBrace := by decide
  have hclose : WidthFree isCloseBrace := by decide
  rw [braceEventsFrom_feeds]
  generalize 0 = offset
  induction htu generalizing offset with
  | nil => rfl
  | @cons c d t u hcd _ ih =>
    rw [braceEventsFrom, braceEventsFrom, ← hcd.apply hopen, ← hcd.apply hclose,
      Nat.add_right_comm, ih (offset + 1), Int.natCast_add]
    split
    · rfl
    split
    · rfl
    · rfl

/-- The events of an echo before they are put in order. -/
lemma innerEvents_echo (h : Echoes k t t') :
    innerEvents t' (classify t') = (innerEvents t (classify t)).map (·.moved k) := by
  have hsignatures : ((classify t).functions.map (·.moved k)).flatMap (signatureEvents t')
      = ((classify t).functions.flatMap (signatureEvents t)).map (·.moved k) := by
    rw [List.flatMap_map, List.map_flatMap]
    apply List.flatMap_congr
    intro d hd
    exact signatureEvents_echo h (stop_nonneg_of_mem_functions hd)
  have hloops : loopEvents t' = (loopEvents t).map (·.moved k) := by
    have hforms : occurrences findLoop t' = (occurrences findLoop t).map (·.moved k) := by
      simpa using map_of_forall₂ (f := id) ((steady_findLoop k).occurrences h) fun _ _ e => e
    rw [loopEvents, loopEvents, hforms, List.flatMap_map, List.map_flatMap]
    simp only [Loop.events_moved]
  have hrepeats : repeatEvents t' = (repeatEvents t).map (·.moved k) := by
    apply map_of_forall₂ ((steady_findRepeat k).occurrences h)
    rintro n _ rfl
    rw [Int.natCast_add]
    rfl
  rw [innerEvents, innerEvents, braceEvents_echo h, classify_echo h,
    Classification.events_moved, hloops, hrepeats]
  simp only [List.map_append]
  rw [← hsignatures]
  rfl

/-- The events of an echo are those of the text, moved, inside the scope of the whole document. -/
lemma scopeEvents_echo (h : Echoes k t t') :
    ∃ later, scopeEvents t (classify t) = ⟨0, .opens .scope, [], none⟩ :: later ∧
      scopeEvents t' (classify t')
        = ⟨0, .opens .scope, [], none⟩ :: later.map (·.moved k) := by
  let byOffset (a b : ScopeEvent) : Bool := a.offset ≤ b.offset
  have hsort : ((innerEvents t (classify t)).mergeSort byOffset).map (·.moved k)
      = ((innerEvents t (classify t)).map (·.moved k)).mergeSort byOffset := by
    apply List.map_mergeSort
    intro a _ b _
    show decide (a.offset ≤ b.offset) = decide (a.offset + k ≤ b.offset + k)
    rw [decide_eq_decide]
    omega
  -- the end of the document moves with the others
  refine ⟨(innerEvents t (classify t)).mergeSort byOffset
    ++ [⟨t.length, .closes .scope, [], none⟩], rfl, ?_⟩
  rw [List.map_append, hsort, ← innerEvents_echo h, scopeEvents, h.length_eq, Int.natCast_add]
  rfl

end LazeEdit
