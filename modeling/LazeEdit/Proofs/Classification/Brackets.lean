import LazeEdit.Proofs.Classification.Lexemes

/-!
# Brackets

The pass over the brackets carries a depth that it counts up behind an opening bracket and down
before a closing one, and that may be negative. The depth at a place is that of the start and the
number of opening brackets between the two less that of closing ones (`bracketTokensFrom_append`).
So the span of a bracket is determined by what stands before it (`filter_bracketTokens_start`), and
an opening bracket and a closing one have the same colour when between them as many brackets open as
close (`bracketTokens_exact`).
-/

namespace LazeEdit

/-! ### Depths -/

/-- By how much the end of a text lies deeper in brackets than its start. -/
def bracketDepth (t : Text) : Int :=
  t.countP isOpenBracket - t.countP isCloseBracket

/-- No bracket both opens and closes. -/
lemma not_isOpenBracket_of_isCloseBracket {c : Char} (h : isCloseBracket c) :
    ¬ isOpenBracket c := by
  have hall : closeBrackets.all (! isOpenBracket ·) := by decide
  have hopen := List.all_eq_true.mp hall c (List.contains_iff_mem.mp h)
  rwa [Bool.not_eq_true', ← Bool.not_eq_true] at hopen

lemma bracketDepth_append (t u : Text) :
    bracketDepth (t ++ u) = bracketDepth t + bracketDepth u := by
  rw [bracketDepth, bracketDepth, bracketDepth, List.countP_append, List.countP_append]
  omega

lemma bracketDepth_open {c : Char} (h : isOpenBracket c) (t : Text) :
    bracketDepth (c :: t) = bracketDepth t + 1 := by
  have hclose : ¬ isCloseBracket c := fun hclose => not_isOpenBracket_of_isCloseBracket hclose h
  rw [bracketDepth, bracketDepth, List.countP_cons_of_pos h, List.countP_cons_of_neg hclose]
  omega

lemma bracketDepth_close {c : Char} (h : isCloseBracket c) (t : Text) :
    bracketDepth (c :: t) = bracketDepth t - 1 := by
  rw [bracketDepth, bracketDepth, List.countP_cons_of_pos h,
    List.countP_cons_of_neg (not_isOpenBracket_of_isCloseBracket h)]
  omega

lemma bracketDepth_other {c : Char} (hopen : ¬ isOpenBracket c) (hclose : ¬ isCloseBracket c)
    (t : Text) : bracketDepth (c :: t) = bracketDepth t := by
  rw [bracketDepth, bracketDepth, List.countP_cons_of_neg hopen, List.countP_cons_of_neg hclose]

/-! ### The pass -/

/-- The brackets of a second part are read from the depth at which the first one ends. -/
lemma bracketTokensFrom_append (depth : Int) (offset : Nat) (t u : Text) :
    bracketTokensFrom depth offset (t ++ u)
      = bracketTokensFrom depth offset t
        ++ bracketTokensFrom (depth + bracketDepth t) (offset + t.length) u := by
  induction t generalizing depth offset with
  | nil =>
    show bracketTokensFrom depth offset u = bracketTokensFrom (depth + 0) offset u
    rw [Int.add_zero]
  | cons c cs ih =>
    rw [List.cons_append, bracketTokensFrom, bracketTokensFrom, List.length_cons]
    have hoffset : offset + (cs.length + 1) = offset + 1 + cs.length := by omega
    rw [hoffset]
    split
    case isTrue hopen =>
      have hdepth : depth + bracketDepth (c :: cs) = depth + 1 + bracketDepth cs := by
        rw [bracketDepth_open hopen]
        omega
      rw [ih, hdepth, List.cons_append]
    case isFalse hopen =>
      split
      case isTrue hclose =>
        have hdepth : depth + bracketDepth (c :: cs) = depth - 1 + bracketDepth cs := by
          rw [bracketDepth_close hclose]
          omega
        rw [ih, hdepth, List.cons_append]
      case isFalse hclose => rw [ih, bracketDepth_other hopen hclose]

/-- The spans of the brackets of a text begin inside it. -/
lemma start_of_mem_bracketTokensFrom {depth : Int} {offset : Nat} {t : Text} {s : TokenSpan}
    (h : s ∈ bracketTokensFrom depth offset t) :
    (offset : Int) ≤ s.start ∧ s.start < offset + t.length := by
  obtain ⟨i, hi, hat⟩ := exists_of_mem_bracketTokensFrom h
  have hlt := hi.lt_length
  rw [hat.1]
  omega

/-- No span begins at an offset outside the text. -/
lemma filter_bracketTokensFrom_start {depth : Int} {offset n : Nat} {t : Text}
    (h : n < offset ∨ offset + t.length ≤ n) :
    (bracketTokensFrom depth offset t).filter (fun u => u.start = (n : Int)) = [] := by
  rw [List.filter_eq_nil_iff]
  intro u hu hstart
  have hinside := start_of_mem_bracketTokensFrom hu
  rw [of_decide_eq_true hstart] at hinside
  omega

/-- Only the character at an offset gives a span that begins there. -/
lemma filter_bracketTokens_start (p s : Text) (c : Char) :
    (bracketTokens (p ++ c :: s)).filter (fun u => u.start = (p.length : Int))
      = bracketTokensFrom (bracketDepth p) p.length [c] := by
  have hhere : (bracketTokensFrom (bracketDepth p) p.length [c]).filter
      (fun u => u.start = (p.length : Int)) = bracketTokensFrom (bracketDepth p) p.length [c] := by
    rw [List.filter_eq_self]
    intro u hu
    have hinside := start_of_mem_bracketTokensFrom hu
    rw [List.length_singleton] at hinside
    exact decide_eq_true (by omega)
  rw [bracketTokens, bracketTokensFrom_append, ← List.singleton_append, bracketTokensFrom_append,
    List.filter_append, List.filter_append, filter_bracketTokensFrom_start (.inr (by omega)),
    Int.zero_add, Nat.zero_add, hhere, List.length_singleton,
    filter_bracketTokensFrom_start (.inl (by omega)), List.append_nil, List.nil_append]

/-- Each bracket of a text gives one span of one character, in their order. -/
lemma map_bracketTokensFrom (depth : Int) (offset : Nat) (t : Text) :
    (bracketTokensFrom depth offset t).map (fun s => (s.start, s.length, s.modifiers))
      = ((t.zipIdx offset).filter (fun x => isBracket x.1)).map
        (fun x => ((x.2 : Int), 1, .only (if isOpenBracket x.1 then .opening else .closing))) := by
  induction t generalizing depth offset with
  | nil => rfl
  | cons c cs ih =>
    rw [bracketTokensFrom, List.zipIdx_cons, List.filter_cons, isBracket]
    split
    case isTrue hopen =>
      rw [hopen, Bool.true_or, if_pos rfl, List.map_cons, List.map_cons, ih, if_pos hopen]
    case isFalse hopen =>
      split
      case isTrue hclose =>
        rw [hclose, Bool.or_true, if_pos rfl, List.map_cons, List.map_cons, ih, if_neg hopen]
      case isFalse hclose =>
        rw [if_neg (by simp [hopen, hclose]), ih]

/-! ### Colours -/

lemma scopeTurn_val (depth : Int) : ((scopeTurn depth).val : Int) = depth % 3 := by
  show (((depth % 3).toNat : Nat) : Int) = depth % 3
  omega

/-- The pass gives one span of one character for each bracket of a text, in order and marked as
opening or closing. The spans of an opening bracket and of a closing one behind it are of one kind
when between the two as many brackets open as close, as between brackets that match: the colour of
the depth of what stands before the first, counted modulo three also below zero. -/
theorem bracketTokens_exact (t : Text) :
    (bracketTokens t).map (fun s => (s.start, s.length, s.modifiers))
      = (t.zipIdx.filter (fun x => isBracket x.1)).map
        (fun x => ((x.2 : Int), 1, .only (if isOpenBracket x.1 then .opening else .closing))) ∧
    ∀ p o w c s, t = p ++ o :: w ++ c :: s → isOpenBracket o → isCloseBracket c →
      w.countP isOpenBracket = w.countP isCloseBracket →
      ∃ turn : Fin 3,
        (turn : Int) = (p.countP isOpenBracket - p.countP isCloseBracket : Int) % 3 ∧
        (bracketTokens t).filter (fun u => u.start = (p.length : Int))
          = [⟨p.length, 1, .scope turn, .only .opening⟩] ∧
        (bracketTokens t).filter (fun u => u.start = ((p ++ o :: w).length : Int))
          = [⟨(p ++ o :: w).length, 1, .scope turn, .only .closing⟩] := by
  refine ⟨map_bracketTokensFrom 0 0 t, ?_⟩
  rintro p o w c s rfl hopen hclose hbalanced
  refine ⟨scopeTurn (bracketDepth p), scopeTurn_val _, ?_, ?_⟩
  · rw [List.append_assoc, List.cons_append, filter_bracketTokens_start, bracketTokensFrom,
      if_pos hopen]
    rfl
  · have hdepth : bracketDepth (p ++ o :: w) - 1 = bracketDepth p := by
      have hw : bracketDepth w = 0 := by
        rw [bracketDepth, hbalanced]
        omega
      rw [bracketDepth_append, bracketDepth_open hopen, hw]
      omega
    rw [filter_bracketTokens_start, bracketTokensFrom,
      if_neg (not_isOpenBracket_of_isCloseBracket hclose), if_pos hclose, hdepth]
    rfl

/-- An opening bracket behind two closing ones, with brackets of other shapes up to its partner. -/
theorem bracketTokens_behind_closing :
    let t : Text := ['）', '\x7d', '\x7b', '［', '(', 'x', '）', ']', '｝', 'y']
    (bracketTokens t).filter (fun u => u.start = 2) = [⟨2, 1, .scope 1, .only .opening⟩] ∧
    (bracketTokens t).filter (fun u => u.start = 8) = [⟨8, 1, .scope 1, .only .closing⟩] := by
  intro t
  obtain ⟨turn, hturn, hopening, hclosing⟩ := (bracketTokens_exact t).2 ['）', '\x7d'] '\x7b'
    ['［', '(', 'x', '）', ']'] '｝' ['y'] rfl (by decide) (by decide) (by decide)
  have hdepth : (turn : Int) = 1 := hturn
  obtain rfl : turn = 1 := Fin.ext (Int.ofNat.inj hdepth)
  exact ⟨hopening, hclosing⟩

end LazeEdit
