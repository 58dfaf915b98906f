import LazeEdit.Proofs.Classification.Names
import LazeEdit.Proofs.Scope.Loops

/-!
# Where events stand

A recogniser moves from one place of a text to the next, and the offset of every event is that of
such a place. So no event stands behind the end of its document (`offset_le_of_mem_innerEvents`).
-/

namespace LazeEdit

variable {t : Text} {s : Site} {e : ScopeEvent}

/-! ### Declarations -/

lemma offset_of_findFunction {types : List Text} {f : FunctionForm} {n : Nat}
    (h : findFunction types s = some (f, n)) : f.offset = s.offset := by
  rw [findFunction] at h
  split at h
  case isTrue => cases h
  case isFalse =>
    obtain h | h := eq_some_or_of_orElse h
    · obtain ⟨w, _, h⟩ := List.exists_of_findSome?_eq_some h
      obtain ⟨_, _, h⟩ := Option.bind_eq_some_iff.mp h
      obtain ⟨_, _, h⟩ := Option.bind_eq_some_iff.mp h
      cases h
      rfl
    · obtain ⟨_, _, h⟩ := Option.map_eq_some_iff.mp h
      cases h
      rfl

/-- The name of a declared function ends inside the text. -/
lemma stop_le_of_mem_functions {d : Declaration} (h : d ∈ (classify t).functions) :
    d.offset ≤ t.length ∧ d.stop ≤ t.length := by
  obtain ⟨f, hf, hd⟩ := List.mem_filterMap.mp h
  obtain ⟨o, n, hfound⟩ := mem_occurrences.mp hf
  have hin := Site.ofOffset_in t o
  have hoffset := offset_of_findFunction hfound.finds
  have hstop := (isWord_of_findFunction hin hfound.finds).le_length
  have hbound := hin.bound
  rw [FunctionForm.declaration?] at hd
  split at hd
  case isTrue =>
    cases hd
    dsimp only
    omega
  case isFalse => cases hd

lemma offset_le_of_mem_classes {d : Declaration} (h : d ∈ (classify t).classes) :
    d.offset ≤ t.length := by
  obtain ⟨f, hf, rfl⟩ := List.mem_map.mp h
  obtain ⟨o, n, hfound⟩ := mem_occurrences.mp hf
  have hin := Site.ofOffset_in t o
  have hoffset := (findClass_eq_some hin hfound.finds).2.1
  have hbound := hin.bound
  show (f.offset : Int) ≤ _
  omega

lemma offset_le_of_mem_bindings {d : Declaration} (h : d ∈ (classify t).bindings) :
    d.offset ≤ t.length := by
  obtain ⟨f, hf, hd⟩ := List.mem_filterMap.mp h
  obtain ⟨o, n, hfound⟩ := mem_occurrences.mp hf
  have hword := isWord_of_findVariable (Site.ofOffset_in t o) hfound.finds
  cases f with
  | declared type name =>
    have hlt := hword.lt
    have hle := hword.le_length
    rw [VariableForm.declaration?] at hd
    split at hd
    case isTrue => cases hd
    case isFalse =>
      cases hd
      show (name.offset : Int) ≤ _
      change name.offset < name.stop at hlt
      change name.stop ≤ t.length at hle
      omega
  | used name => cases hd

lemma offset_le_of_mem_access {offset : Int} {access : Access}
    (h : (offset, access) ∈ (classify t).access) : offset ≤ t.length := by
  obtain ⟨p, hp, hchange⟩ := List.mem_filterMap.mp h
  obtain ⟨o, n, hfound⟩ := mem_occurrences.mp hp
  obtain ⟨w, _, hw⟩ := Option.map_eq_some_iff.mp hfound.finds
  have hbound := (Site.ofOffset_in t o).bound
  cases hw
  rw [accessChange?] at hchange
  split at hchange
  · cases hchange
    exact Int.ofNat_le.mpr hbound
  split at hchange
  · cases hchange
    exact Int.ofNat_le.mpr hbound
  · cases hchange

/-! ### Signatures and loops -/

/-- A stretch that does not reach over the end of a text. -/
def Ends.In (t : Text) (ends : Ends) : Prop :=
  ends.opening ≤ t.length ∧ ends.closing ≤ t.length

lemma Ends.In.offset_le {ends : Ends} {extent : Extent} {name : Text} (h : ends.In t)
    (he : e ∈ ends.events extent name) : e.offset ≤ t.length := by
  obtain rfl | rfl := Ends.eq_of_mem_events he
  · exact Int.ofNat_le.mpr h.1
  · exact Int.ofNat_le.mpr h.2

lemma Site.In.expressionBody? {body : Ends} (h : s.In t) (e : s.expressionBody? = some body) :
    body.In t := by
  obtain ⟨inner, hinner, e⟩ := Option.bind_eq_some_iff.mp e
  cases e
  have hopening := h.skipWhile isBlank
  exact ⟨hopening.bound, ((hopening.char? hinner).skipWhile _).bound⟩

lemma Site.In.results? {results : Results} (h : s.In t) (e : s.results? = some results) :
    results.list.In t ∧ ∀ body, results.body = some body → body.In t := by
  obtain ⟨equals, hequals, e⟩ := Option.bind_eq_some_iff.mp e
  obtain ⟨arrow, harrow, e⟩ := Option.bind_eq_some_iff.mp e
  obtain ⟨inner, hinner, e⟩ := Option.bind_eq_some_iff.mp e
  have hin := (((h.skipWhile isBlank).char? hequals).skipWhile isBlank).char? harrow
  have hopening := hin.skipWhile isBlank
  obtain ⟨close, hclose, hbehind, e⟩ := (hopening.char? hinner).searchLine e
  cases e
  exact ⟨⟨hopening.bound, hclose.bound⟩, fun body hbody => hbehind.expressionBody? hbody⟩

lemma Site.In.signature? {signature : Signature} (h : s.In t) (e : s.signature? = some signature) :
    signature.parameters.In t ∧ ∀ results, signature.results = some results →
      results.list.In t ∧ ∀ body, results.body = some body → body.In t := by
  obtain ⟨inner, hinner, e⟩ := Option.bind_eq_some_iff.mp e
  have hopening := h.skipWhile isBlank
  have hin := hopening.char? hinner
  obtain e | e := eq_some_or_of_orElse e
  · obtain ⟨close, hclose, hbehind, e⟩ := hin.searchLine e
    obtain ⟨r, hr, rfl⟩ := Option.map_eq_some_iff.mp e
    refine ⟨⟨hopening.bound, hclose.bound⟩, ?_⟩
    rintro _ ⟨⟩
    exact hbehind.results? hr
  · obtain ⟨close, hclose, _, e⟩ := hin.searchLine e
    cases e
    exact ⟨⟨hopening.bound, hclose.bound⟩, fun _ hresults => nomatch hresults⟩

lemma offset_le_of_mem_signatureEvents {d : Declaration} (h : e ∈ signatureEvents t d) :
    e.offset ≤ t.length := by
  rw [signatureEvents] at h
  split at h
  case h_1 => cases h
  case h_2 signature hsignature =>
    obtain ⟨hparameters, hbehind⟩ := (Site.ofOffset_in t _).signature? hsignature
    rw [Signature.events] at h
    obtain h | h := List.mem_append.mp h
    · exact hparameters.offset_le h
    split at h
    case h_1 => cases h
    case h_2 results hresults =>
      obtain ⟨hlist, hbody⟩ := hbehind results hresults
      obtain h | h := List.mem_append.mp h
      · exact hlist.offset_le h
      split at h
      case h_1 => cases h
      case h_2 body hsome => exact (hbody body hsome).offset_le h

lemma offset_le_of_mem_loopEvents (h : e ∈ loopEvents t) : e.offset ≤ t.length := by
  obtain ⟨l, hl, h⟩ := List.mem_flatMap.mp h
  obtain ⟨hdeclaration, hcondition, hconditions, hstep, hsteps, hbody, hbrace⟩ :=
    in_of_mem_loops hl
  have hlt := hbrace.lt_length
  simp only [Loop.events, List.mem_append] at h
  obtain (h | h) | h := h
  · exact Ends.In.offset_le ⟨by omega, by omega⟩ h
  · exact Ends.In.offset_le ⟨by omega, by omega⟩ h
  · exact Ends.In.offset_le ⟨by omega, by omega⟩ h

/-! ### Events -/

/-- No event stands behind the end of its document. -/
lemma offset_le_of_mem_innerEvents (h : e ∈ innerEvents t (classify t)) :
    e.offset ≤ t.length := by
  simp only [innerEvents, List.mem_append] at h
  obtain (((h | h) | h) | h) | h := h
  · have hbounds := offset_of_mem_braceEventsFrom h
    omega
  · simp only [Classification.events, List.mem_append, List.mem_map] at h
    obtain ((⟨d, hd, rfl⟩ | ⟨d, hd, rfl⟩) | ⟨d, hd, rfl⟩) | ⟨⟨offset, access⟩, hd, rfl⟩ := h
    · exact offset_le_of_mem_classes hd
    · exact (stop_le_of_mem_functions hd).1
    · exact offset_le_of_mem_bindings hd
    · exact offset_le_of_mem_access hd
  · obtain ⟨d, _, h⟩ := List.mem_flatMap.mp h
    exact offset_le_of_mem_signatureEvents h
  · exact offset_le_of_mem_loopEvents h
  · obtain ⟨n, hn, rfl⟩ := List.mem_map.mp h
    obtain ⟨o, _, hfound⟩ := mem_occurrences.mp hn
    obtain ⟨_, _, hrepeat⟩ := Option.map_eq_some_iff.mp hfound.finds
    cases hrepeat
    exact Int.ofNat_le.mpr (Site.ofOffset_in t o).bound

end LazeEdit
