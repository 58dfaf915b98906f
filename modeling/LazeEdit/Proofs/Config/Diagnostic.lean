import LazeEdit.Config.Settings
import LazeEdit.Proofs.Text.Characters
import Mathlib.Tactic.Lemma

/-!
# What a diagnostic shows

A diagnostic with a place has five lines (`format_eq_joinWith`). The fourth has a gutter with the
number of the line and what is shown of it, the fifth a caret that stands under the column of what
is shown (`pointsAt_iff`). Lines are numbered by line feeds alone, but what is shown is looked up
among the lines of a terminal, which end at other characters too and hold none of them
(`unbroken_of_mem_terminalLinesFrom`). The two agree as long as only line feeds end the lines
(`shownLine_eq`), so the diagnostics of a text point at the right place exactly as far as that is
so.
-/

namespace LazeEdit

/-! ### Lines on a terminal -/

/-- A text that no character breaks into lines. -/
def Unbroken (t : Text) : Prop :=
  ∀ c ∈ t, ¬ isLineBreak c

/-- A character that breaks no line belongs to the line that is being read. -/
lemma terminalLinesFrom_cons {c : Char} (h : ¬ isLineBreak c) (line cs : Text) :
    terminalLinesFrom line (c :: cs) = terminalLinesFrom (c :: line) cs := by
  rw [terminalLinesFrom]
  · exact if_neg h
  · rintro _ rfl
    exact absurd rfl h

/-- A text without line breaks belongs to the line that is being read. -/
lemma terminalLinesFrom_append {p : Text} (h : Unbroken p) (line t : Text) :
    terminalLinesFrom line (p ++ t) = terminalLinesFrom (p.reverse ++ line) t := by
  induction p generalizing line with
  | nil => rfl
  | cons c cs ih =>
    have hcs : Unbroken cs := fun d hd => h d (List.mem_cons_of_mem c hd)
    rw [List.cons_append, terminalLinesFrom_cons (h c List.mem_cons_self), ih hcs,
      List.reverse_cons, List.append_assoc]
    rfl

/-- The first line of a text, when a line feed is the first to end one. -/
lemma terminalLines_append_feed {p : Text} (h : Unbroken p) (t : Text) :
    terminalLines (p ++ '\n' :: t) = p :: terminalLines t := by
  rw [terminalLines, terminalLinesFrom_append h, List.append_nil, terminalLinesFrom,
    List.reverse_reverse]
  · rfl
  · intro _ he
    cases he

/-- The only line of a text without line breaks; it is empty when there is none. -/
lemma head_terminalLines {t : Text} (h : Unbroken t) : (terminalLines t)[0]?.getD [] = t := by
  have hread := terminalLinesFrom_append h [] []
  rw [List.append_nil, List.append_nil] at hread
  rw [terminalLines, hread, terminalLinesFrom]
  cases t with
  | nil => rfl
  | cons c cs =>
    rw [if_neg (by simp), List.reverse_reverse]
    rfl

/-- The lines on a terminal hold no line break. -/
lemma unbroken_of_mem_terminalLinesFrom {line t p : Text} (hline : Unbroken line)
    (h : p ∈ terminalLinesFrom line t) : Unbroken p := by
  have hnew : Unbroken [] := fun c hc => (List.not_mem_nil hc).elim
  have hread {line : Text} (hline : Unbroken line) : Unbroken line.reverse :=
    fun c hc => hline c (List.mem_reverse.mp hc)
  fun_induction terminalLinesFrom line t with
  | case1 line => cases h
  | case2 line =>
    rw [List.mem_singleton.mp h]
    exact hread hline
  | case3 line cs ih =>
    cases h with
    | head => exact hread hline
    | tail _ h => exact ih hnew h
  | case4 line c cs _ _ ih =>
    cases h with
    | head => exact hread hline
    | tail _ h => exact ih hnew h
  | case5 line c cs _ hc ih =>
    apply ih _ h
    intro d hd
    cases hd with
    | head => exact hc
    | tail _ hd => exact hline d hd

namespace Diagnostic

/-! ### The line that is shown -/

/-- What is shown of a line holds no line break. -/
lemma unbroken_shownLine (source : Text) (number : Int) : Unbroken (shownLine source number) := by
  have hnew : Unbroken [] := fun c hc => (List.not_mem_nil hc).elim
  rw [shownLine]
  split
  · exact hnew
  · cases h : (terminalLines source)[(number - 1).toNat]? with
    | none => exact hnew
    | some line => exact unbroken_of_mem_terminalLinesFrom hnew (List.mem_of_getElem? h)

/-- A line is shown as it is when only line feeds end it and the lines before it. -/
lemma shownLine_eq {source line : Text} {n : Nat}
    (hline : (splitAtChar '\n' source)[n]? = some line)
    (h : ∀ l ∈ (splitAtChar '\n' source).take (n + 1), Unbroken l) :
    shownLine source (n + 1 : Nat) = line := by
  have hshown : shownLine source (n + 1 : Nat) = (terminalLines source)[n]?.getD [] := by
    rw [shownLine, if_neg (by omega)]
    congr
    omega
  rw [hshown]
  clear hshown
  induction n generalizing source with
  | zero =>
    by_cases hfeed : '\n' ∈ source
    · obtain ⟨p, t, rfl, hp⟩ := List.eq_append_cons_of_mem hfeed
      rw [splitAtChar_append_cons hp] at hline h
      rw [terminalLines_append_feed (h p List.mem_cons_self)]
      exact Option.some.inj hline
    · rw [splitAtChar_of_not_mem hfeed] at hline h
      rw [head_terminalLines (h source List.mem_cons_self)]
      exact Option.some.inj hline
  | succ n ih =>
    by_cases hfeed : '\n' ∈ source
    · obtain ⟨p, t, rfl, hp⟩ := List.eq_append_cons_of_mem hfeed
      rw [splitAtChar_append_cons hp] at hline h
      rw [terminalLines_append_feed (h p List.mem_cons_self)]
      exact ih hline fun l hl => h l (List.mem_cons_of_mem p hl)
    · rw [splitAtChar_of_not_mem hfeed] at hline
      cases hline

/-! ### The lines of a diagnostic -/

/-- What stands before a line of the source: its number and a bar. -/
def lineGutter (number : Nat) : Text :=
  intText number ++ [' ', '|', ' ']

/-- What stands before the caret: blanks and a bar under the gutter, and blanks up to a column. -/
def caretPadding (number column : Nat) : Text :=
  List.replicate ((intText number).length + 1) ' ' ++ ['|', ' '] ++ List.replicate (column - 1) ' '

lemma length_caretPadding (number column : Nat) :
    (caretPadding number column).length = (lineGutter number).length + (column - 1) := by
  rw [caretPadding, lineGutter, List.length_append, List.length_append, List.length_replicate,
    List.length_replicate, List.length_append]
  rfl

/-- Blanks and bars are no other character. -/
lemma not_mem_caretPadding {c : Char} (hblank : c ≠ ' ') (hbar : c ≠ '|') (number column : Nat) :
    c ∉ caretPadding number column := by
  simp [caretPadding, hblank, hbar]

/-- A number is written in digits. -/
lemma isDigit_of_mem_intText {n : Nat} {c : Char} (h : c ∈ intText n) : c.isDigit := by
  have hdigits : intText n = Nat.toDigits 10 n := Nat.toList_repr
  rw [hdigits] at h
  exact Nat.isDigit_of_mem_toDigits (by decide) (by decide) h

lemma feed_not_mem_intText (n : Nat) : '\n' ∉ intText n :=
  fun h => absurd (isDigit_of_mem_intText h) (by decide)

/-- The diagnostic of a line and a column of a text. -/
abbrev atPlace (message : Text) (path : Path) (number column : Nat) (source : Text) : Diagnostic :=
  ⟨message, path, some number, some column, source⟩

/-- The lines of a diagnostic with a place: what is wrong, where, an empty line of the gutter, the
line of the source and the caret. -/
def linesAt (message : Text) (path : Path) (number column : Nat) (source : Text) : List Text :=
  let blanks := List.replicate ((intText number).length + 1) ' '
  ["error: ".toList ++ message,
    blanks ++ "--> ".toList ++ path.text ++ [':'] ++ intText number ++ [':'] ++ intText column,
    blanks ++ ['|'],
    lineGutter number ++ shownLine source number,
    caretPadding number column ++ ['^']]

/-- A diagnostic points at a column of a line: its fourth line is a gutter and the line, and its
fifth has its caret at the index that the column has in the fourth. -/
structure PointsAt (d : Diagnostic) (number : Nat) (line : Text) (column : Nat) : Prop where
  shown : (splitAtChar '\n' d.format)[3]? = some (lineGutter number ++ line)
  caret : ∃ padding, (splitAtChar '\n' d.format)[4]? = some (padding ++ ['^']) ∧ '^' ∉ padding ∧
    padding.length = (lineGutter number).length + (column - 1)

section Lines

variable {message : Text} {path : Path} {number column : Nat} {source line : Text}

/-- A diagnostic with a place is made of its lines. -/
lemma format_eq_joinWith (hcolumn : 0 < column) :
    (atPlace message path number column source).format
      = joinWith ['\n'] (linesAt message path number column source) := by
  have hshown : (atPlace message path number column source).shownColumn = column :=
    if_neg (by omega)
  have hpad : ((column : Int) - 1).toNat = column - 1 := by omega
  simp only [format, atPlace, hshown, hpad, linesAt, joinWith, lineGutter, caretPadding,
    List.append_assoc, List.cons_append, List.nil_append]

/-- The lines of a diagnostic come back when it is split at line feeds. -/
lemma splitAtChar_format (hmessage : '\n' ∉ message) (hpath : '\n' ∉ path.text)
    (hcolumn : 0 < column) :
    splitAtChar '\n' (atPlace message path number column source).format
      = linesAt message path number column source := by
  have hnumber := feed_not_mem_intText
  have hshown : '\n' ∉ shownLine source number := fun h =>
    unbroken_shownLine source number '\n' h rfl
  have hpadding := not_mem_caretPadding (c := '\n') (by decide) (by decide) number column
  rw [format_eq_joinWith hcolumn, linesAt]
  apply splitAtChar_joinWith (List.cons_ne_nil _ _)
  simp [lineGutter, hmessage, hpath, hshown, hnumber, hpadding]

/-- A diagnostic points at a line exactly when it is the line that is shown. -/
lemma pointsAt_iff (hmessage : '\n' ∉ message) (hpath : '\n' ∉ path.text) (hcolumn : 0 < column) :
    (atPlace message path number column source).PointsAt number line column ↔
      shownLine source number = line := by
  have hlines : splitAtChar '\n' (atPlace message path number column source).format
      = linesAt message path number column source := splitAtChar_format hmessage hpath hcolumn
  constructor
  · rintro ⟨hfourth, _⟩
    rw [hlines] at hfourth
    exact List.append_cancel_left (Option.some.inj hfourth)
  · rintro rfl
    have hcaret := not_mem_caretPadding (c := '^') (by decide) (by decide) number column
    exact ⟨by rw [hlines]; rfl, _, by rw [hlines]; rfl, hcaret, length_caretPadding number column⟩

end Lines

end Diagnostic

/-- A place in a text: the number of a line, the line, and a column of it or the one behind its end.
Numbers and columns count from one. -/
structure PlaceIn (source : Text) (number : Nat) (line : Text) (column : Nat) : Prop where
  number_pos : 0 < number
  line_eq : (splitAtChar '\n' source)[number - 1]? = some line
  column_pos : 0 < column
  column_le : column ≤ line.length + 1

/-- The diagnostics of the first lines of a text point at their places exactly when no character but
a line feed ends one of these lines. -/
theorem diagnostics_point_iff (source : Text) (count : Nat) :
    (∀ message path number line column, '\n' ∉ message → '\n' ∉ Path.text path →
      PlaceIn source number line column → number ≤ count →
      (Diagnostic.atPlace message path number column source).PointsAt number line column) ↔
    ∀ line ∈ (splitAtChar '\n' source).take count, Unbroken line := by
  constructor
  · intro hpoint line hline
    obtain ⟨n, hn⟩ := List.mem_iff_getElem?.mp hline
    have hlt : n < count := by
      have := (List.getElem?_eq_some_iff.mp hn).1
      rw [List.length_take] at this
      omega
    rw [List.getElem?_take_of_lt hlt] at hn
    -- any message and path will do: the line that is shown has no break
    have hplace : PlaceIn source (n + 1) line 1 := ⟨by omega, hn, by omega, by omega⟩
    have hpoints := hpoint [] ⟨.relative, []⟩ (n + 1) line 1 (by decide) (by decide) hplace hlt
    rw [← (Diagnostic.pointsAt_iff (by decide) (by decide) (by decide)).mp hpoints]
    exact Diagnostic.unbroken_shownLine source _
  · intro hplain message path number line column hmessage hpath hplace hcount
    rw [Diagnostic.pointsAt_iff hmessage hpath hplace.column_pos]
    obtain ⟨hpos, hline, _, _⟩ := hplace
    have hfirst : ∀ l ∈ (splitAtChar '\n' source).take (number - 1 + 1), Unbroken l :=
      fun l hl => hplain l (List.take_subset_take_left _ (by omega) hl)
    have hshown := Diagnostic.shownLine_eq hline hfirst
    rwa [Nat.sub_add_cancel hpos] at hshown

/-- Whether a reading ends with a given error can be decided without comparing what it gives. -/
instance decidableEqError {ε α : Type} [DecidableEq ε] (x : Except ε α) (e : ε) :
    Decidable (x = .error e) :=
  match x with
  | .error f => decidable_of_iff (f = e) ⟨congrArg Except.error, Except.error.inj⟩
  | .ok _ => isFalse fun h => nomatch h

/-- A configuration with a line separator inside a string of its first line, and no value in its
second. -/
def separatedConfig : Text :=
  "a = \"x\u2028y\"\nb = \n".toList

/-- The separator ends a line on a terminal, so the diagnostic of the missing value in the second
line shows the end of the string instead. -/
theorem separatedConfig_not_pointsAt :
    ∃ message, let d := Diagnostic.atPlace message ⟨.relative, [configName]⟩ 2 5 separatedConfig
      loadConfig (fun _ => .file (Utf8.encode separatedConfig)) none ⟨.relative, []⟩
        = .error (.diagnosed d) ∧
      '\n' ∉ message ∧ '\n' ∉ d.path.text ∧ PlaceIn separatedConfig 2 "b = ".toList 5 ∧
      (splitAtChar '\n' d.format)[3]? = some "2 | y\"".toList ∧ ¬ d.PointsAt 2 "b = ".toList 5 := by
  refine ⟨"invalid TOML: Invalid value".toList, ?_⟩
  intro d
  have hfourth : (splitAtChar '\n' d.format)[3]? = some "2 | y\"".toList := by decide +kernel
  refine ⟨by decide +kernel, by decide +kernel, by decide +kernel,
    ⟨by decide, by decide +kernel, by decide, by decide⟩, hfourth, ?_⟩
  intro hpoints
  have hshown := hpoints.shown
  rw [hfourth] at hshown
  exact absurd hshown (by decide +kernel)

end LazeEdit
