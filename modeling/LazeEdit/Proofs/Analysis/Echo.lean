import LazeEdit.Proofs.Analysis.Tokens
import LazeEdit.Proofs.Completion.Echo
import LazeEdit.Proofs.Completion.Safety
import LazeEdit.Proofs.Mask.Echo

/-!
# The analysis of an echo

Each part of an analysis is carried over to an echo of the text: the masked text is an echo of the
masked text, so what is found in it is moved, a merge and the wire form keep it so, and a replay of
the moved events finds the same symbols. Two cases are stated for every document. Without lines
before it, an echo is the text with some structural characters in full width, and nothing is moved:
`analyze_width_insensitive`. With one line before it and no character widened, everything is moved
by one: `analyze_cons_newline`.
-/

namespace LazeEdit

variable {k : Nat} {t t' : Text}

/-! ### The parts of an analysis -/

/-- The spans of the passes over an echo are those of the text, moved. -/
lemma passSpans_echo (h : Echoes k t t') : passSpans t' = (passSpans t).map (·.moved k) := by
  rw [passSpans, passSpans, maskTokens_echo h, classify_echo (maskText_echo h), List.map_append]
  rfl

lemma tokens_echo (h : Echoes k t t') :
    (analyze t').tokens = (analyze t).tokens.map (·.moved k) := by
  show mergeSpans (passSpans t') = (mergeSpans (passSpans t)).map (·.moved k)
  rw [passSpans_echo h]
  exact mergeSpans_moved k fun s hs => (proper_of_mem_passSpans hs).1

lemma classes_echo (h : Echoes k t t') : (analyze t').classes = (analyze t).classes := by
  show (classify (maskText t')).classNames = (classify (maskText t)).classNames
  rw [classify_echo (maskText_echo h)]
  exact List.map_map

/-- The stream of an echo starts as many rows further down. -/
lemma semanticTokens_echo (h : Echoes k t t') :
    (analyze t').semanticTokens = (analyze t).semanticTokens.modifyHead (· + (k : Int)) := by
  rw [Analysis.semanticTokens, tokens_echo h]
  exact Wire.encode_echo h fun s hs => proper_of_mem_passSpans (mem_of_mem_mergeSpans hs)

/-- The symbols in view at a cursor of a text are in view at the moved cursor of its echo. -/
lemma visibleAt_analyze_echo (h : Echoes k t t') {cursor : Nat} (hle : cursor ≤ t.length)
    (hbehind : 0 < k → 0 < cursor) :
    ∃ symbols, visibleAt t (analyze t).events cursor = .ok symbols ∧
      visibleAt t' (analyze t').events (cursor + k : Nat) = .ok symbols := by
  obtain ⟨later, hevents, hevents'⟩ := scopeEvents_echo (maskText_echo h)
  have hopens : ∀ e ∈ later, e.kind = .opens .scope → Inside t e.offset := by
    obtain ⟨first, rest, last, hall, _, _, _, hinside⟩ := analyze_events t
    obtain rfl : later = rest ++ [last] := (List.cons.inj (hevents.symm.trans hall)).2
    exact hinside
  have hview : ∃ symbols,
      visibleAt t (⟨0, .opens .scope, [], none⟩ :: later) cursor = .ok symbols := by
    have hroot : (⟨0, .opens .scope, [], none⟩ : ScopeEvent).kind = .opens .scope := rfl
    obtain ⟨r, hr, _⟩ := replay_ok (P := fun c => c ≤ t.length) (fun c hc => hc) hroot
      (Int.ofNat_le.mpr hle) fun e he hkind => (hopens e he hkind).2
    refine ⟨r.visible, ?_⟩
    rw [visibleAt, hr]
    rfl
  -- the replay over the text comes to an end, and that over the echo follows it
  obtain ⟨symbols, hsymbols⟩ := hview
  refine ⟨symbols, ?_, ?_⟩
  · show visibleAt t (scopeEvents _ _) _ = _
    rw [hevents]
    exact hsymbols
  · show visibleAt t' (scopeEvents _ _) _ = _
    rw [hevents', Int.natCast_add]
    exact visibleAt_echo h rfl rfl (fun e he hkind => (hopens e he hkind).1)
      (Int.natCast_nonneg cursor) (fun hk => Int.natCast_pos.mpr (hbehind hk)) hsymbols

/-! ### Widths -/

lemma offset_widened (h : List.Forall₂ Widened t t') (row column : Int) :
    (Source.ofText t').offset row column = (Source.ofText t).offset row column := by
  by_cases hrow : row < 0
  · rw [Source.offset, Source.offset, if_pos hrow, if_pos hrow]
  · have hecho : Echoes 0 t t' := ⟨t', rfl, h⟩
    have hoffset := offset_echo hecho (Int.not_lt.mp hrow) column
    rwa [Int.natCast_zero, Int.add_zero] at hoffset

/-- The suggestions at a position are made from the symbols in view there. -/
lemma complete_of_visibleAt {a : Analysis} {row column : Int} {symbols : List Symbol}
    (h : visibleAt a.source.text a.events (a.source.offset row column) = .ok symbols)
    (withSnippets : Bool) :
    a.complete row column withSnippets
      = .ok ((if withSnippets then snippets else []) ++ symbols.map Item.ofSymbol) := by
  rw [Analysis.complete, visibleAtPosition, h]
  rfl

/-- Writing structural characters of a document in full width, some of them or all, changes neither
the regions, spans, events, classes and stream of its analysis nor the suggestions at any position,
which are always given. -/
theorem analyze_width_insensitive (h : List.Forall₂ Widened t t') :
    (analyze t').masks = (analyze t).masks ∧
    (analyze t').tokens = (analyze t).tokens ∧
    (analyze t').events = (analyze t).events ∧
    (analyze t').classes = (analyze t).classes ∧
    (analyze t').semanticTokens = (analyze t).semanticTokens ∧
    ∀ (row column : Int) (withSnippets : Bool), ∃ items,
      (analyze t).complete row column withSnippets = .ok items ∧
      (analyze t').complete row column withSnippets = .ok items := by
  have hecho : Echoes 0 t t' := ⟨t', rfl, h⟩
  have hmasks : (analyze t').masks = (analyze t).masks := by
    show maskSpans t' = maskSpans t
    simpa using maskSpans_echo hecho
  have htokens : (analyze t').tokens = (analyze t).tokens := by
    simpa using tokens_echo hecho
  have hevents : (analyze t').events = (analyze t).events := by
    obtain ⟨later, hevents, hevents'⟩ := scopeEvents_echo (maskText_echo hecho)
    simp only [ScopeEvent.moved_zero, List.map_id'] at hevents'
    exact hevents'.trans hevents.symm
  have hstream : (analyze t').semanticTokens = (analyze t).semanticTokens := by
    rw [semanticTokens_echo hecho]
    cases (analyze t).semanticTokens with
    | nil => rfl
    | cons rows later => exact congrArg (· :: later) (Int.add_zero rows)
  refine ⟨hmasks, htokens, hevents, classes_echo hecho, hstream, ?_⟩
  intro row column withSnippets
  obtain ⟨symbols, hview, hview'⟩ := visibleAt_analyze_echo hecho
    (offset_le_length t row column) fun hzero => absurd hzero (Nat.lt_irrefl 0)
  refine ⟨_, complete_of_visibleAt hview withSnippets, complete_of_visibleAt ?_ withSnippets⟩
  show visibleAt t' _ ((Source.ofText t').offset row column) = _
  rw [offset_widened h]
  exact hview'

/-- A function with a parameter that assigns a string. -/
def narrowFunction : Text :=
  ['関', '数', ':', 'f', '(', '整', '数', ':', ' ', 'x', ')', '\x7b', 'x', '=', '"', 'a', '\'', '"',
    '\x7d']

/-- The same function in mixed widths. -/
def mixedFunction : Text :=
  ['関', '数', '：', 'f', '（', '整', '数', ':', '\u3000', 'x', '）', '｛', 'x', '＝', '”', 'a', '’',
    '"', '\x7d']

theorem analyze_mixedFunction :
    List.Forall₂ Widened narrowFunction mixedFunction ∧
    (analyze mixedFunction).masks = (analyze narrowFunction).masks ∧
    (analyze mixedFunction).tokens = (analyze narrowFunction).tokens ∧
    (analyze mixedFunction).events = (analyze narrowFunction).events ∧
    (analyze mixedFunction).classes = (analyze narrowFunction).classes ∧
    (analyze mixedFunction).semanticTokens = (analyze narrowFunction).semanticTokens ∧
    ∀ (row column : Int) (withSnippets : Bool), ∃ items,
      (analyze narrowFunction).complete row column withSnippets = .ok items ∧
      (analyze mixedFunction).complete row column withSnippets = .ok items := by
  have hwidened : List.Forall₂ Widened narrowFunction mixedFunction := by decide
  exact ⟨hwidened, analyze_width_insensitive hwidened⟩

/-! ### Lines -/

/-- A line feed before a document moves its analysis by one: the regions, the spans and all events
but the first, which opens the scope of the whole document at offset zero. The classes stay the
same, and of the stream only the first number changes. The symbols in view at a position are in view
one row further down, unless the position is at offset zero: there the cursor of the text is not yet
inside the scope of the document, and behind the line feed it is. -/
theorem analyze_cons_newline (t : Text) :
    (analyze ('\n' :: t)).masked = '\n' :: (analyze t).masked ∧
    (analyze ('\n' :: t)).masks = (analyze t).masks.map (·.moved 1) ∧
    (analyze ('\n' :: t)).tokens = (analyze t).tokens.map (·.moved 1) ∧
    (∃ later, (analyze t).events = ⟨0, .opens .scope, [], none⟩ :: later ∧
      (analyze ('\n' :: t)).events
        = ⟨0, .opens .scope, [], none⟩ :: later.map (·.moved 1)) ∧
    (analyze ('\n' :: t)).classes = (analyze t).classes ∧
    (analyze ('\n' :: t)).semanticTokens = (analyze t).semanticTokens.modifyHead (· + 1) ∧
    ∀ row column : Int, 0 ≤ row → 1 ≤ (analyze t).source.offset row column →
      ∃ symbols, visibleAtPosition (analyze t).source (analyze t).events row column
          = .ok symbols ∧
        visibleAtPosition (analyze ('\n' :: t)).source (analyze ('\n' :: t)).events (row + 1)
          column = .ok symbols := by
  have hecho : Echoes 1 t ('\n' :: t) := ⟨t, rfl, List.forall₂_same.mpr fun c _ => .inl rfl⟩
  refine ⟨maskText_feeds 1 t, maskSpans_echo hecho, tokens_echo hecho,
    scopeEvents_echo (maskText_echo hecho), classes_echo hecho, semanticTokens_echo hecho, ?_⟩
  intro row column hrow hoffset
  obtain ⟨symbols, hview, hview'⟩ := visibleAt_analyze_echo hecho
    (offset_le_length t row column) fun _ => hoffset
  refine ⟨symbols, hview, ?_⟩
  rw [visibleAtPosition]
  show visibleAt _ _ ((Source.ofText ('\n' :: t)).offset (row + (1 : Nat)) column : Int) = _
  rw [offset_echo hecho hrow]
  exact hview'

/-- A value before a block with another value in it. -/
def blockBehindValue : Text :=
  ['整', '数', ':', 'a', ';', '\x7b', '整', '数', ':', 'b', ';', '\x7d']

lemma events_blockBehindValue :
    (analyze blockBehindValue).events =
      [⟨0, .opens .scope, [], none⟩, ⟨3, .declares .value, ['a'], some ['整', '数']⟩,
        ⟨5, .opens .scope, [], none⟩, ⟨9, .declares .value, ['b'], some ['整', '数']⟩,
        ⟨11, .closes .scope, [], none⟩, ⟨12, .closes .scope, [], none⟩] := by
  have hmask : maskText blockBehindValue = blockBehindValue := by decide
  have hclasses : occurrences findClass blockBehindValue = [] := by decide
  have hinner : innerEvents blockBehindValue (classify blockBehindValue)
      = [⟨5, .opens .scope, [], none⟩, ⟨11, .closes .scope, [], none⟩,
        ⟨3, .declares .value, ['a'], some ['整', '数']⟩,
        ⟨9, .declares .value, ['b'], some ['整', '数']⟩] := by
    simp only [innerEvents, classify, hclasses, List.map_nil, typeForms_nil]
    decide
  simp only [analyze, hmask, scopeEvents, hinner,
    mergeSort_eq_foldr offset_le_trans offset_le_total]
  decide

/-- At the end of the block both values are in view, and so they are one row further down. -/
theorem visible_below_newline :
    1 ≤ (analyze blockBehindValue).source.offset 0 11 ∧
    visibleAtPosition (analyze blockBehindValue).source (analyze blockBehindValue).events 0 11
      = .ok [⟨.value, ['b'], some ['整', '数'], .everyone⟩,
        ⟨.value, ['a'], some ['整', '数'], .everyone⟩] ∧
    visibleAtPosition (analyze ('\n' :: blockBehindValue)).source
        (analyze ('\n' :: blockBehindValue)).events 1 11
      = .ok [⟨.value, ['b'], some ['整', '数'], .everyone⟩,
        ⟨.value, ['a'], some ['整', '数'], .everyone⟩] := by
  have hoffset : 1 ≤ (analyze blockBehindValue).source.offset 0 11 := by decide
  have hview : visibleAtPosition (analyze blockBehindValue).source (analyze blockBehindValue).events
      0 11 = .ok [⟨.value, ['b'], some ['整', '数'], .everyone⟩,
        ⟨.value, ['a'], some ['整', '数'], .everyone⟩] := by
    rw [events_blockBehindValue]
    decide
  obtain ⟨_, _, _, _, _, _, hbelow⟩ := analyze_cons_newline blockBehindValue
  obtain ⟨symbols, hsymbols, hmoved⟩ := hbelow 0 11 (by decide) hoffset
  obtain rfl := Except.ok.inj (hsymbols.symm.trans hview)
  exact ⟨hoffset, hview, hmoved⟩

end LazeEdit
