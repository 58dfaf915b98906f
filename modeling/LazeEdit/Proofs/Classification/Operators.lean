import LazeEdit.Proofs.Classification.Functions

/-!
# Operators

The operators of a text are those of the text in which each character of an operator is in ASCII
(`asciiOperator`), read from left to right: at each place the longest operator that begins there, or
one character when none does (`munch`). The recogniser looks for the operators in all spellings,
longer ones first. The operator that it finds at a place is as long as the longest one in ASCII
(`longestOperator?_map`), so the two readings stay in step (`map_occurrencesFrom_findOperator`).
-/

namespace LazeEdit

variable {t : Text} {p : Piece} {o n : Nat}

/-! ### Operators in ASCII -/

/-- A character in ASCII, when it is the full-width counterpart of a character of operators. -/
def asciiOperator (c : Char) : Char :=
  (['=', '<', '>', '+', '*', '&'].find? fun a => fullWidth? a == some c).getD c

/-- The length of the longest operator in ASCII that begins a text. -/
def longestOperator? (t : Text) : Option Nat :=
  ((baseOperators.filter (·.isPrefixOf t)).map List.length).max?

/-- The operators in ASCII of a text that begins at an offset: where they stand and how long they
are. At each place the longest one is taken, and one character is passed where there is none. -/
def munch (offset : Nat) : Text → List (Nat × Nat)
  | [] => []
  | c :: cs =>
    match longestOperator? (c :: cs) with
    | none => munch (offset + 1) cs
    | some n => (offset, n) :: munch (offset + n) (cs.drop (n - 1))
termination_by t => t.length

/-- A character is a way to write what it is in ASCII. -/
lemma mem_charSpellings_asciiOperator (c : Char) : c ∈ charSpellings (asciiOperator c) := by
  rw [asciiOperator]
  cases h : ['=', '<', '>', '+', '*', '&'].find? fun a => fullWidth? a == some c with
  | none =>
    rw [Option.getD_none, charSpellings]
    split <;> exact List.mem_cons_self
  | some a =>
    have hwide := List.find?_some h
    rw [beq_iff_eq] at hwide
    rw [Option.getD_some, charSpellings, hwide]
    exact List.mem_cons_of_mem a List.mem_cons_self

lemma mem_operators_iff_asciiOperator {v : Text} :
    v ∈ operators ↔ v.map asciiOperator ∈ baseOperators :=
  mem_operators_iff_map mem_charSpellings_asciiOperator (by decide)

/-! ### The operator at a place -/

/-- An operator in ASCII that begins a text in ASCII is one that begins the text. -/
lemma take_mem_operators {w : Text} (hw : w ∈ baseOperators) (hbegin : w <+: t.map asciiOperator) :
    t.take w.length ∈ operators ∧ (t.take w.length).length = w.length := by
  rw [mem_operators_iff_asciiOperator, List.map_take, ← List.prefix_iff_eq_take.mp hbegin]
  have hle := hbegin.length_le
  rw [List.length_map] at hle
  rw [List.length_take, Nat.min_eq_left hle]
  exact ⟨hw, rfl⟩

/-- The operator that is read is as long as the longest one in ASCII. -/
lemma longestOperator?_map (t : Text) :
    longestOperator? (t.map asciiOperator) = (leadingOperator? t).map List.length := by
  cases h : leadingOperator? t with
  | none =>
    rw [Option.map_none, longestOperator?, List.max?_eq_none_iff, List.map_eq_nil_iff,
      List.filter_eq_nil_iff]
    intro w hw hbegin
    obtain ⟨hmem, _⟩ := take_mem_operators hw (List.isPrefixOf_iff_prefix.mp hbegin)
    have hnot := List.find?_eq_none.mp h _ hmem
    exact hnot (List.isPrefixOf_iff_prefix.mpr (List.take_prefix _ _))
  | some v =>
    obtain ⟨hmem, hbegin⟩ := leadingOperator?_spec h
    rw [mem_operators_iff_asciiOperator] at hmem
    rw [Option.map_some, longestOperator?, List.max?_eq_some_iff]
    constructor
    · refine List.mem_map.mpr ⟨v.map asciiOperator, List.mem_filter.mpr ⟨hmem, ?_⟩,
        List.length_map _⟩
      exact List.isPrefixOf_iff_prefix.mpr (hbegin.map asciiOperator)
    · intro k hk
      obtain ⟨w, hw, rfl⟩ := List.mem_map.mp hk
      obtain ⟨hbase, hprefix⟩ := List.mem_filter.mp hw
      obtain ⟨hop, hlength⟩ := take_mem_operators hbase (List.isPrefixOf_iff_prefix.mp hprefix)
      rw [← hlength]
      exact length_le_of_leadingOperator? h hop (List.take_prefix _ _)

/-! ### The operators of a text -/

/-- The search for operators and the reading in ASCII find the same ranges. -/
lemma map_occurrencesFrom_findOperator (t : Text) (offset : Nat) (before : Option Char) :
    (occurrencesFrom findOperator 0 offset before t).map (fun p => (p.offset, p.text.length))
      = munch offset (t.map asciiOperator) := by
  induction hlength : t.length using Nat.strong_induction_on generalizing t offset before with
  | _ k ih =>
    subst hlength
    cases t with
    | nil =>
      rw [List.map_nil, munch]
      rfl
    | cons c cs =>
      rw [occurrencesFrom, findOperator, List.map_cons, munch, ← List.map_cons,
        longestOperator?_map]
      cases h : leadingOperator? (c :: cs) with
      | none => exact ih cs.length (Nat.lt_succ_self _) cs (offset + 1) (some c) rfl
      | some w =>
        obtain ⟨hmem, v, hv⟩ := leadingOperator?_spec h
        obtain ⟨hne, _⟩ := of_mem_operators hmem
        -- the operator is the first character and `u`, and the text goes on with `v`
        cases w with
        | nil => exact absurd rfl hne
        | cons d u =>
          obtain ⟨rfl, rfl⟩ : d = c ∧ u ++ v = cs := List.cons.inj hv
          obtain ⟨before', hskip⟩ := occurrencesFrom_skip findOperator (offset + 1) (some d) u v
          have hlt : v.length < (d :: (u ++ v)).length := by
            rw [List.length_cons, List.length_append]
            omega
          have hrest := ih v.length hlt v (offset + 1 + u.length) before' rfl
          simp only [Option.map_some, List.map_cons, List.length_cons, Nat.add_sub_cancel, hskip,
            hrest, ← List.map_drop, List.drop_left]
          congr 2
          omega

/-- What is found is an operator at its offset. -/
lemma Found.operatorIn (h : Found findOperator t p o n) :
    p.In t ∧ p.text.map asciiOperator ∈ baseOperators := by
  obtain ⟨w, hw, e⟩ := Option.map_eq_some_iff.mp h.finds
  cases e
  obtain ⟨hmem, hbegin⟩ := leadingOperator?_spec hw
  exact ⟨(Site.ofOffset_in t o).pieceIn hbegin, mem_operators_iff_asciiOperator.mp hmem⟩

/-- Only the pass over the operators gives spans of their kind. -/
lemma filter_tokens_operator (t : Text) :
    (classify t).tokens.filter (·.type = .operator)
      = (occurrences findOperator t).map (Piece.token · .operator) := by
  obtain ⟨others, hothers, htokens⟩ : ∃ others : List TokenSpan,
      (∀ s ∈ others, s.type ≠ .operator) ∧
        (classify t).tokens
          = others ++ (occurrences findOperator t).map (Piece.token · .operator) := by
    refine ⟨_, ?_, rfl⟩
    intro s h htype
    simp only [List.mem_append, or_assoc] at h
    obtain h | h | h | h | h | h | h := h
    · obtain ⟨turn, e⟩ := type_of_mem_bracketTokensFrom h
      cases e.symm.trans htype
    · obtain ⟨f, _, rfl⟩ := List.mem_map.mp h
      cases htype
    · obtain ⟨p, _, h⟩ := List.mem_filterMap.mp h
      obtain e | e := type_of_wordToken? h <;> cases e.symm.trans htype
    · obtain ⟨f, _, h⟩ := List.mem_filterMap.mp h
      obtain e | e := ((functionToken?_iff Iff.rfl).mp h).2.type_cases <;> cases e.symm.trans htype
    · obtain ⟨f, _, h⟩ := List.mem_filterMap.mp h
      cases (token?_eq_some h).2.symm.trans htype
    · obtain ⟨p, _, rfl⟩ := List.mem_map.mp h
      cases htype
    · obtain ⟨f, _, rfl⟩ := List.mem_map.mp h
      cases htype
  rw [htokens, List.filter_append, List.filter_eq_nil_iff.mpr, List.nil_append,
    List.filter_eq_self.mpr]
  · intro s hs
    obtain ⟨p, _, rfl⟩ := List.mem_map.mp hs
    rfl
  · intro s hs htype
    exact hothers s hs (of_decide_eq_true htype)

/-! ### Single operators -/

/-- An operator in ASCII is read whole. -/
lemma munch_of_mem_baseOperators {w : Text} (hw : w ∈ baseOperators) :
    munch 0 w = [(0, w.length)] := by
  have hlongest : ∀ v ∈ baseOperators, longestOperator? v = some v.length := by decide
  cases w with
  | nil => exact absurd hw (by decide)
  | cons c cs =>
    have hrest : cs.drop ((c :: cs).length - 1) = [] := List.drop_length
    rw [munch, hlongest _ hw]
    dsimp only
    rw [hrest, munch]

/-- An ampersand or a vertical bar is part only of an operator of two of them. -/
lemma eq_pair_of_mem_baseOperators {w : Text} {c : Char} (hw : w ∈ baseOperators)
    (hc : c ∈ ['&', '|']) (hcw : c ∈ w) : w = [c, c] := by
  have hand : ∀ v ∈ baseOperators, '&' ∈ v → v = ['&', '&'] := by decide
  have hor : ∀ v ∈ baseOperators, '|' ∈ v → v = ['|', '|'] := by decide
  obtain rfl | rfl := List.mem_pair.mp hc
  · exact hand w hw hcw
  · exact hor w hw hcw

/-- An operator that holds an ampersand or a vertical bar holds another one beside it. -/
lemma Found.exists_neighbour (h : Found findOperator t p o n) {i : Nat} {c : Char}
    (hc : c ∈ ['&', '|']) (hi : (t.map asciiOperator)[i]? = some c) (hle : p.offset ≤ i)
    (hlt : i < p.stop) :
    (t.map asciiOperator)[i + 1]? = some c ∨ 0 < i ∧ (t.map asciiOperator)[i - 1]? = some c := by
  obtain ⟨hin, hbase⟩ := h.operatorIn
  -- the operator in ASCII, at its offset in the text in ASCII
  have hat : ∀ k < p.text.length,
      (t.map asciiOperator)[p.offset + k]? = (p.text.map asciiOperator)[k]? := by
    intro k hk
    rw [List.getElem?_map, List.getElem?_map, ← List.getElem?_drop]
    have hget := List.prefix_iff_getElem?.mp hin k hk
    rw [hget, List.getElem?_eq_getElem hk]
  rw [Piece.stop] at hlt
  obtain ⟨k, rfl⟩ := Nat.exists_eq_add_of_le hle
  rw [hat k (by omega)] at hi
  have hpair := eq_pair_of_mem_baseOperators hbase hc (List.mem_of_getElem? hi)
  have hlength := congrArg List.length hpair
  rw [List.length_map] at hlength
  change p.text.length = 2 at hlength
  obtain rfl | rfl : k = 0 ∨ k = 1 := by omega
  · left
    rw [Nat.add_assoc, hat 1 (by omega), hpair]
    rfl
  · right
    rw [Nat.add_sub_cancel, ← Nat.add_zero p.offset, hat 0 (by omega), hpair]
    exact ⟨by omega, rfl⟩

/-- The spans of operators are those that reading the text in ASCII gives, the longest operator at
each place. So a text that is an operator in ASCII is one operator, whatever the widths of its
characters, and an ampersand or a vertical bar without another one beside it is in none. -/
theorem operators_exact (t : Text) :
    (classify t).tokens.filter (·.type = .operator)
      = (munch 0 (t.map asciiOperator)).map
        (fun range => ⟨range.1, range.2, .operator, .none⟩) ∧
    (t.map asciiOperator ∈ baseOperators →
      (classify t).tokens.filter (·.type = .operator) = [⟨0, t.length, .operator, .none⟩]) ∧
    ∀ i : Nat, ∀ c ∈ ['&', '|'], (t.map asciiOperator)[i]? = some c →
      (0 < i → (t.map asciiOperator)[i - 1]? ≠ some c) →
      (t.map asciiOperator)[i + 1]? ≠ some c →
      ∀ s ∈ (classify t).tokens, s.type = .operator → ¬ s.Covers i := by
  have hmunch : (classify t).tokens.filter (·.type = .operator)
      = (munch 0 (t.map asciiOperator)).map
        (fun range => ⟨range.1, range.2, .operator, .none⟩) := by
    rw [filter_tokens_operator, ← map_occurrencesFrom_findOperator t 0 none, List.map_map]
    rfl
  refine ⟨hmunch, ?_, ?_⟩
  · intro hbase
    rw [hmunch, munch_of_mem_baseOperators hbase, List.length_map]
    rfl
  · intro i c hc hi hbefore hafter s hs htype hcovers
    have hmem : s ∈ (classify t).tokens.filter (·.type = .operator) :=
      List.mem_filter.mpr ⟨hs, decide_eq_true htype⟩
    rw [filter_tokens_operator] at hmem
    obtain ⟨p, hp, rfl⟩ := List.mem_map.mp hmem
    obtain ⟨o, n, hfound⟩ := mem_occurrences.mp hp
    obtain ⟨j, hj, hle, hlt⟩ := (p.token_at _ _).covers_iff.mp hcovers
    obtain rfl : i = j := Int.ofNat.inj hj
    obtain hnext | ⟨hpos, hprev⟩ := hfound.exists_neighbour hc hi hle hlt
    · exact hafter hnext
    · exact hbefore hpos hprev

example : munch 0 ['=', '=', '=', '>', '='] = [(0, 2), (2, 2), (4, 1)] := by cbv

/-- An operator of mixed widths, and an ampersand alone between names. -/
theorem operators_mixedWidths :
    let lexeme : Text := ['＋', '=']
    let lone : Text := ['a', '＆', 'b']
    (lexeme.map asciiOperator ∈ baseOperators ∧
      (classify lexeme).tokens.filter (·.type = .operator) = [⟨0, 2, .operator, .none⟩]) ∧
    ((lone.map asciiOperator)[1]? = some '&' ∧
      ∀ s ∈ (classify lone).tokens, s.type = .operator → ¬ s.Covers 1) := by
  intro lexeme lone
  have hbase : lexeme.map asciiOperator ∈ baseOperators := by decide
  have hlone : (lone.map asciiOperator)[1]? = some '&' := by decide
  refine ⟨⟨hbase, (operators_exact lexeme).2.1 hbase⟩, hlone, ?_⟩
  exact (operators_exact lone).2.2 1 '&' (by decide) hlone (by decide) (by decide)

end LazeEdit
