import LazeEdit.Proofs.Text.Search
import LazeEdit.Scope.Build

/-!
# Where scopes open

Behind the scope of the whole document, a scope opens at a brace or at the equals sign of an
expression body. Both are characters of the text, so the events of a document open no scope at its
end or outside it (`inside_of_mem_innerEvents`).
-/

namespace LazeEdit

/-- An offset of a character of a text. -/
def Inside (t : Text) (offset : Int) : Prop :=
  0 ≤ offset ∧ offset < t.length

lemma offset_le_trans (a b d : ScopeEvent) (hab : decide (a.offset ≤ b.offset))
    (hbd : decide (b.offset ≤ d.offset)) : decide (a.offset ≤ d.offset) := by
  rw [decide_eq_true_iff] at hab hbd ⊢
  exact Int.le_trans hab hbd

lemma offset_le_total (a b : ScopeEvent) :
    decide (a.offset ≤ b.offset) || decide (b.offset ≤ a.offset) := by
  rw [Bool.or_eq_true, decide_eq_true_iff, decide_eq_true_iff]
  exact Int.le_total a.offset b.offset

lemma braceEventsFrom_append (t u : Text) (offset : Nat) :
    braceEventsFrom offset (t ++ u)
      = braceEventsFrom offset t ++ braceEventsFrom (offset + t.length) u := by
  induction t generalizing offset with
  | nil => rfl
  | cons c t ih =>
    have hnext : offset + (c :: t).length = offset + 1 + t.length := by
      rw [List.length_cons]
      omega
    rw [List.cons_append, braceEventsFrom, braceEventsFrom, ih, hnext]
    split
    · rfl
    split
    · rfl
    · rfl

/-- The braces of a text stand inside it. -/
lemma offset_of_mem_braceEventsFrom {t : Text} {offset : Nat} {e : ScopeEvent}
    (h : e ∈ braceEventsFrom offset t) : offset ≤ e.offset ∧ e.offset < offset + t.length := by
  induction t generalizing offset with
  | nil => cases h
  | cons c cs ih =>
    rw [List.length_cons]
    have later : e ∈ braceEventsFrom (offset + 1) cs →
        offset ≤ e.offset ∧ e.offset < offset + (cs.length + 1 : Nat) := by
      intro h
      have := ih h
      omega
    rw [braceEventsFrom] at h
    split at h
    · obtain rfl | h := List.mem_cons.mp h
      · show (offset : Int) ≤ offset ∧ (offset : Int) < _
        omega
      · exact later h
    split at h
    · obtain rfl | h := List.mem_cons.mp h
      · show (offset : Int) ≤ offset ∧ (offset : Int) < _
        omega
      · exact later h
    · exact later h

/-- An expression body opens inside the text. -/
lemma inside_of_expressionBody? {t : Text} {s : Site} {body : Ends} (h : s.In t)
    (e : s.expressionBody? = some body) : Inside t body.opening := by
  obtain ⟨inner, hinner, e⟩ := Option.bind_eq_some_iff.mp e
  cases e
  have := ((h.skipWhile isBlank).charAt_of_char? hinner).lt_length
  exact ⟨Int.natCast_nonneg _, by exact_mod_cast this⟩

/-- The body behind a list of results opens inside the text. -/
lemma inside_of_results? {t : Text} {s : Site} {results : Results} {body : Ends} (h : s.In t)
    (e : s.results? = some results) (hbody : results.body = some body) :
    Inside t body.opening := by
  obtain ⟨equals, hequals, e⟩ := Option.bind_eq_some_iff.mp e
  obtain ⟨arrow, harrow, e⟩ := Option.bind_eq_some_iff.mp e
  obtain ⟨inner, hinner, e⟩ := Option.bind_eq_some_iff.mp e
  have hin := (((h.skipWhile isBlank).char? hequals).skipWhile isBlank).char? harrow
  obtain ⟨close, _, hclose, e⟩ := ((hin.skipWhile isBlank).char? hinner).searchLine e
  cases e
  exact inside_of_expressionBody? hclose hbody

/-- The body of a signature opens inside the text. -/
lemma inside_of_signature? {t : Text} {s : Site} {signature : Signature} {results : Results}
    {body : Ends} (h : s.In t) (e : s.signature? = some signature)
    (hresults : signature.results = some results) (hbody : results.body = some body) :
    Inside t body.opening := by
  obtain ⟨inner, hinner, e⟩ := Option.bind_eq_some_iff.mp e
  have hin := (h.skipWhile isBlank).char? hinner
  obtain e | e := eq_some_or_of_orElse e
  · obtain ⟨close, _, hclose, e⟩ := hin.searchLine e
    obtain ⟨r, hr, rfl⟩ := Option.map_eq_some_iff.mp e
    cases hresults
    exact inside_of_results? hclose hr hbody
  · obtain ⟨close, _, _, e⟩ := hin.searchLine e
    cases e
    cases hresults

/-- A scope that opens with a stretch is the stretch. -/
lemma Ends.opens_of_mem_events {ends : Ends} {extent : Extent} {name : Text} {e : ScopeEvent}
    (h : e ∈ ends.events extent name) (hkind : e.kind = .opens .scope) :
    extent = .scope ∧ e.offset = ends.opening := by
  simp only [Ends.events, List.mem_cons, List.not_mem_nil, or_false] at h
  obtain rfl | rfl := h
  · cases hkind
    exact ⟨rfl, rfl⟩
  · cases hkind

/-- A scope that the signature of a function opens is its expression body. -/
lemma inside_of_mem_signatureEvents {t : Text} {d : Declaration} {e : ScopeEvent}
    (h : e ∈ signatureEvents t d) (hkind : e.kind = .opens .scope) : Inside t e.offset := by
  rw [signatureEvents] at h
  split at h
  case h_1 => cases h
  case h_2 signature hsignature =>
    rw [Signature.events] at h
    obtain h | h := List.mem_append.mp h
    · cases (Ends.opens_of_mem_events h hkind).1
    split at h
    case h_1 => cases h
    case h_2 results hresults =>
      obtain h | h := List.mem_append.mp h
      · cases (Ends.opens_of_mem_events h hkind).1
      split at h
      case h_1 => cases h
      case h_2 body hbody =>
        rw [(Ends.opens_of_mem_events h hkind).2]
        exact inside_of_signature? (Site.ofOffset_in t _) hsignature hresults hbody

/-- The events of a classification open no scope. -/
lemma kind_of_mem_events {c : Classification} {e : ScopeEvent} (h : e ∈ c.events) :
    e.kind ≠ .opens .scope := by
  simp only [Classification.events, List.mem_append, List.mem_map] at h
  obtain ((⟨d, _, rfl⟩ | ⟨d, _, rfl⟩) | ⟨d, _, rfl⟩) | ⟨⟨offset, access⟩, _, rfl⟩ := h <;>
    exact EventKind.noConfusion

/-- The clauses of loops open no scope. -/
lemma kind_of_mem_loopEvents {t : Text} {e : ScopeEvent} (h : e ∈ loopEvents t) :
    e.kind ≠ .opens .scope := by
  obtain ⟨l, _, h⟩ := List.mem_flatMap.mp h
  intro hkind
  simp only [Loop.events, List.mem_append] at h
  obtain (h | h) | h := h
  · cases (Ends.opens_of_mem_events h hkind).1
  · cases (Ends.opens_of_mem_events h hkind).1
  · cases (Ends.opens_of_mem_events h hkind).1

/-- A scope inside a document opens at a character of it. -/
lemma inside_of_mem_innerEvents {t : Text} {c : Classification} {e : ScopeEvent}
    (h : e ∈ innerEvents t c) (hkind : e.kind = .opens .scope) : Inside t e.offset := by
  simp only [innerEvents, List.mem_append] at h
  obtain (((h | h) | h) | h) | h := h
  · have := offset_of_mem_braceEventsFrom h
    exact ⟨by omega, by omega⟩
  · exact absurd hkind (kind_of_mem_events h)
  · obtain ⟨d, _, h⟩ := List.mem_flatMap.mp h
    exact inside_of_mem_signatureEvents h hkind
  · exact absurd hkind (kind_of_mem_loopEvents h)
  · obtain ⟨n, _, rfl⟩ := List.mem_map.mp h
    cases hkind

end LazeEdit
