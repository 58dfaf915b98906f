import LazeEdit.Command.Run
import LazeEdit.Proofs.Config.Diagnostic
import LazeEdit.Proofs.Text.Utf8
import Mathlib.Data.List.TakeWhile
import Mathlib.Tactic.ByContra

/-!
# Errors of options

Options are settled in stages (`resolveOptions_eq`): the configuration file, its settings, the log
level and the position. A stage gives a value, an error that a call reports, or one that escapes it
(`Escapes`), and an error escapes the whole exactly when it escapes one stage behind the values of
those before it (`escapes_bind_iff`). So for each stage it is said what it gives and what escapes
it. A configuration file escapes that is no UTF-8 text, that has an integer of too many digits, or
that the system does not look up for another reason than that it is not there
(`escapes_loadConfig_iff`); a level that is two dashes (`Arguments.escapes_levelText_iff`); and a
position that is two dashes, or that has the form of one with a digit that is no decimal digit or
with too many of them (`escapes_position?_iff`).
-/

namespace LazeEdit

/-! ### Reported errors -/

/-- The errors that a call reports: a diagnostic of the configuration, and an argument that is no
level or no position. -/
inductive OptionError.Reported : OptionError → Prop where
  | config (d : Diagnostic) : Reported (.config (.diagnosed d))
  | level (cause : UnknownLevel) : Reported (.level cause)
  | position (argument : Text) : Reported (.position (.malformed argument))

/-- The errors that are reported are those that end a call with the exit code 2. -/
lemma OptionError.reported_iff {e : OptionError} :
    e.Reported ↔ ∃ message, e.outcome = { stderr := message ++ ['\n'], ending := .exits 2 } := by
  constructor
  · intro h
    cases h with
    | config d => exact ⟨_, rfl⟩
    | level cause => exact ⟨_, rfl⟩
    | position t => exact ⟨_, rfl⟩
  · rintro ⟨message, h⟩
    have hending := congrArg Outcome.ending h
    cases e with
    | config cause =>
      cases cause with
      | diagnosed d => exact .config d
      | unreachable path why => cases hending
      | undecodable cause => cases hending
      | tooManyDigits count => cases hending
    | level cause => exact .level cause
    | noLevel => cases hending
    | position cause =>
      cases cause with
      | malformed t => exact .position t
      | notDecimal digits => cases hending
      | tooManyDigits count => cases hending
    | noPosition => cases hending

/-- A stage ends with an error that no call reports. -/
def Escapes {α : Type} (x : Except OptionError α) : Prop :=
  ∃ e, x = .error e ∧ ¬ e.Reported

lemma not_escapes_ok {α : Type} (a : α) : ¬ Escapes (Except.ok a) := by
  rintro ⟨e, h, _⟩
  cases h

lemma escapes_error_iff {α : Type} {e : OptionError} :
    Escapes (.error e : Except OptionError α) ↔ ¬ e.Reported := by
  constructor
  · rintro ⟨_, h, hnot⟩
    cases h
    exact hnot
  · exact fun hnot => ⟨e, rfl, hnot⟩

/-- An error escapes two stages when it escapes the first, or the second behind the value of the
first. -/
lemma escapes_bind_iff {α β : Type} {x : Except OptionError α} {f : α → Except OptionError β} :
    Escapes (x >>= f) ↔ Escapes x ∨ ∃ a, x = .ok a ∧ Escapes (f a) := by
  cases x with
  | error e =>
    constructor
    · exact fun h => .inl (escapes_error_iff.mpr (escapes_error_iff.mp h))
    · rintro (h | ⟨a, h, _⟩)
      · exact escapes_error_iff.mpr (escapes_error_iff.mp h)
      · cases h
  | ok a =>
    constructor
    · exact fun h => .inr ⟨a, rfl, h⟩
    · rintro (h | ⟨b, h, hb⟩)
      · exact (not_escapes_ok a h).elim
      · cases h
        exact hb

/-! ### Configuration files -/

/-- What is wrong with the file at a path so that no diagnostic says it. -/
inductive ConfigFault (files : Files) (path : Path) : Prop where
  /-- The bytes of the file are no UTF-8 text. -/
  | undecodable (bytes : List UInt8) (hfile : files path = .file bytes)
    (h : ∀ t, Utf8.encode t ≠ bytes)
  /-- A decimal integer has more digits than are converted. -/
  | tooManyDigits (t : Text) (count : Nat) (hfile : files path = .file (Utf8.encode t))
    (h : Toml.parse (normalizeLineEnds t) = .error (.tooManyDigits count))
  /-- The system does not look up the path, and not because nothing stands there. -/
  | unreachable (why : Refusal) (hlookup : files path = .refused why) (h : ¬ why.meansAbsent)

/-- No file stands at a path, so far as the system says. -/
inductive Entry.NoFile : Entry → Prop where
  | absent (why : Refusal) (h : why.meansAbsent) : NoFile (.refused why)
  | device (bytes : List UInt8) : NoFile (.device bytes)
  | locked (why : Refusal) : NoFile (.locked false why)
  | unaskable : NoFile .unaskable

/-- The configuration at a path is a table: that of the file there or, where there is none and none
is asked for, the empty one. -/
inductive Configured (files : Files) (asked : Option Path) (path : Path) : Toml.Table → Prop where
  | file (t : Text) (config : Toml.Table) (hfile : files path = .file (Utf8.encode t))
    (h : Toml.parse (normalizeLineEnds t) = .ok config) : Configured files asked path config
  | absent (hasked : asked = none) (h : (files path).NoFile) : Configured files asked path []

/-- A file has a text exactly when its bytes are the encoding of one. -/
lemma readText_eq_ok_iff {bytes : List UInt8} {t : Text} :
    readText bytes = .ok t ↔ ∃ u, bytes = Utf8.encode u ∧ t = normalizeLineEnds u := by
  constructor
  · intro h
    obtain ⟨u, hu, ht⟩ := Utf8.exists_of_map_eq_ok h
    exact ⟨u, Utf8.decode_eq_ok_iff.mp hu, ht⟩
  · rintro ⟨u, hu, rfl⟩
    rw [readText, Utf8.decode_eq_ok_iff.mpr hu]
    rfl

/-- Bytes that are no encoding have no text. -/
lemma exists_readText_error {bytes : List UInt8} (h : ∀ t, Utf8.encode t ≠ bytes) :
    ∃ cause, readText bytes = .error cause := by
  cases hread : readText bytes with
  | error cause => exact ⟨cause, rfl⟩
  | ok t =>
    obtain ⟨u, hu, -⟩ := readText_eq_ok_iff.mp hread
    exact (h u hu.symm).elim

section Config

variable {files : Files} {asked : Option Path} {directory path : Path} {config : Toml.Table}

/-- Where there is no file, none is loaded. -/
lemma loadConfig_of_noFile (hpath : path = asked.getD (directory.child configName))
    (h : (files path).NoFile) : loadConfig files asked directory = missingConfig asked path := by
  generalize hentry : files path = entry at h
  cases h with
  | absent why habsent =>
    simp only [loadConfig, ← hpath, hentry]
    exact if_pos habsent
  | device bytes => simp only [loadConfig, ← hpath, hentry]
  | locked why => simp only [loadConfig, ← hpath, hentry]
  | unaskable => simp only [loadConfig, ← hpath, hentry]

/-- A configuration that is there is loaded. -/
lemma Configured.loadConfig (hpath : path = asked.getD (directory.child configName))
    (h : Configured files asked path config) : loadConfig files asked directory = .ok config := by
  cases h with
  | file t config hfile hparse =>
    have hread := readText_eq_ok_iff.mpr ⟨t, rfl, rfl⟩
    simp only [LazeEdit.loadConfig, ← hpath, hfile, hread, hparse]
  | absent hasked hnone =>
    rw [loadConfig_of_noFile hpath hnone, hasked]
    rfl

/-- A fault of a configuration file is an error that escapes. -/
lemma ConfigFault.loadConfig (hpath : path = asked.getD (directory.child configName))
    (h : ConfigFault files path) :
    ∃ e, loadConfig files asked directory = .error e ∧ ¬ (OptionError.config e).Reported := by
  cases h with
  | undecodable bytes hfile hbytes =>
    obtain ⟨cause, hread⟩ := exists_readText_error hbytes
    refine ⟨.undecodable cause, ?_, nofun⟩
    simp only [LazeEdit.loadConfig, ← hpath, hfile, hread]
  | tooManyDigits t count hfile hparse =>
    have hread := readText_eq_ok_iff.mpr ⟨t, rfl, rfl⟩
    refine ⟨.tooManyDigits count, ?_, nofun⟩
    simp only [LazeEdit.loadConfig, ← hpath, hfile, hread, hparse]
  | unreachable why hlookup hpresent =>
    refine ⟨.unreachable path why, ?_, nofun⟩
    simp only [LazeEdit.loadConfig, ← hpath, hlookup]
    exact if_neg hpresent

/-- Where there is neither a configuration nor a fault of its file, a diagnostic says why. -/
lemma exists_diagnosed (hpath : path = asked.getD (directory.child configName))
    (hconfig : ∀ config, ¬ Configured files asked path config) (hfault : ¬ ConfigFault files path) :
    ∃ d, loadConfig files asked directory = .error (.diagnosed d) := by
  by_cases hnone : (files path).NoFile
  · cases asked with
    | none => exact (hconfig [] (.absent rfl hnone)).elim
    | some p => exact ⟨_, loadConfig_of_noFile hpath hnone⟩
  cases hentry : files path with
  | file bytes =>
    by_cases htext : ∃ t, Utf8.encode t = bytes
    · obtain ⟨t, rfl⟩ := htext
      have hread := readText_eq_ok_iff.mpr ⟨t, rfl, rfl⟩
      cases hparse : Toml.parse (normalizeLineEnds t) with
      | ok config => exact (hconfig config (.file t config hentry hparse)).elim
      | error fault =>
        cases fault with
        | malformed reason offset =>
          refine ⟨tomlDiagnostic path (normalizeLineEnds t) reason offset, ?_⟩
          simp only [loadConfig, ← hpath, hentry, hread, hparse]
        | tooManyDigits count => exact (hfault (.tooManyDigits t count hentry hparse)).elim
    · exact (hfault (.undecodable bytes hentry fun t ht => htext ⟨t, ht⟩)).elim
  | device bytes => exact (hnone (hentry ▸ .device bytes)).elim
  | locked isFile why =>
    cases isFile with
    | false => exact (hnone (hentry ▸ .locked why)).elim
    | true =>
      refine ⟨{ message := "cannot read config file: ".toList ++ why.reason.toList, path := path },
        ?_⟩
      simp only [loadConfig, ← hpath, hentry]
  | refused why =>
    by_cases habsent : why.meansAbsent
    · exact (hnone (hentry ▸ .absent why habsent)).elim
    · exact (hfault (.unreachable why hentry habsent)).elim
  | unaskable => exact (hnone (hentry ▸ .unaskable)).elim

/-- A configuration is loaded exactly when it is there. -/
lemma loadConfig_eq_ok_iff (hpath : path = asked.getD (directory.child configName)) :
    loadConfig files asked directory = .ok config ↔ Configured files asked path config := by
  constructor
  · intro h
    by_contra hnot
    have hfault : ¬ ConfigFault files path := by
      intro hfault
      obtain ⟨e, he, -⟩ := hfault.loadConfig hpath
      rw [h] at he
      cases he
    have hconfig : ∀ config, ¬ Configured files asked path config := by
      intro other hother
      have hload := hother.loadConfig hpath
      rw [h] at hload
      cases hload
      exact hnot hother
    obtain ⟨d, hd⟩ := exists_diagnosed hpath hconfig hfault
    rw [h] at hd
    cases hd
  · exact Configured.loadConfig hpath

/-- What escapes the loading of a configuration are the faults of its file. -/
lemma escapes_loadConfig_iff (hpath : path = asked.getD (directory.child configName)) :
    Escapes ((loadConfig files asked directory).mapError OptionError.config) ↔
      ConfigFault files path := by
  constructor
  · intro h
    by_contra hfault
    by_cases hconfig : ∃ config, Configured files asked path config
    · obtain ⟨config, hconfig⟩ := hconfig
      rw [hconfig.loadConfig hpath] at h
      exact not_escapes_ok config h
    · obtain ⟨d, hd⟩ := exists_diagnosed hpath (fun config h => hconfig ⟨config, h⟩) hfault
      rw [hd] at h
      exact escapes_error_iff.mp h (.config d)
  · intro h
    obtain ⟨e, he, hnot⟩ := h.loadConfig hpath
    rw [he]
    exact escapes_error_iff.mpr hnot

end Config

/-! ### Settings -/

section Settings

variable {config : Toml.Table} {path : Path} {group key : String}

/-- A truth value is read off a setting that is missing or has one. -/
lemma booleanSetting_eq_ok_iff {b : Option Bool} :
    booleanSetting config path group key = .ok b ↔
      setting? config group key = b.map Toml.Value.boolean := by
  rw [booleanSetting]
  cases setting? config group key with
  | none => cases b <;> simp
  | some v => cases v <;> cases b <;> simp

/-- A text is read off a setting that is missing or has one. -/
lemma textSetting_eq_ok_iff {t : Option Text} :
    textSetting config path group key = .ok t ↔
      setting? config group key = t.map Toml.Value.string := by
  rw [textSetting]
  cases setting? config group key with
  | none => cases t <;> simp
  | some v => cases v <;> cases t <;> simp

/-- A setting of another type is diagnosed. -/
lemma not_escapes_booleanSetting :
    ¬ Escapes ((booleanSetting config path group key).mapError OptionError.config) := by
  rw [booleanSetting]
  split
  · exact not_escapes_ok _
  · exact not_escapes_ok _
  · exact fun h => escapes_error_iff.mp h (.config _)

lemma not_escapes_textSetting :
    ¬ Escapes ((textSetting config path group key).mapError OptionError.config) := by
  rw [textSetting]
  split
  · exact not_escapes_ok _
  · exact not_escapes_ok _
  · exact fun h => escapes_error_iff.mp h (.config _)

end Settings

/-! ### Positions -/

/-- An argument of the form of a position: digits of any kind on both sides of a colon. -/
structure PositionForm (argument row column : Text) : Prop where
  text : argument = row ++ ':' :: column
  row_ne : row ≠ []
  row_digits : ∀ c ∈ row, isAnyDigit c
  column_ne : column ≠ []
  column_digits : ∀ c ∈ column, isAnyDigit c

/-- Digits that write a number: decimal ones, and no more than are converted. -/
def IsNumeral (digits : Text) : Prop :=
  (∀ c ∈ digits, (decimalValue? c).isSome) ∧ digits.length ≤ Toml.maxDigits

/-- Decimal digits write a number. -/
lemma decimalNumber?_isSome_iff {n : Nat} {digits : Text} :
    (decimalNumber? n digits).isSome ↔ ∀ c ∈ digits, (decimalValue? c).isSome := by
  induction digits generalizing n with
  | nil => simp [decimalNumber?]
  | cons c cs ih =>
    rw [decimalNumber?, List.forall_mem_cons]
    cases decimalValue? c with
    | none => simp
    | some d => simp [ih]

/-- Digits that write a number are read as one. -/
lemma IsNumeral.positionNumber {digits : Text} (h : IsNumeral digits) :
    ∃ n, positionNumber digits = .ok n := by
  obtain ⟨hdecimal, hlength⟩ := h
  have hcount : (digits.takeWhile fun c => (decimalValue? c).isSome) = digits :=
    List.takeWhile_eq_self_iff.mpr hdecimal
  have hsome : (decimalNumber? 0 digits).isSome := decimalNumber?_isSome_iff.mpr hdecimal
  obtain ⟨n, hn⟩ := Option.isSome_iff_exists.mp hsome
  refine ⟨n, ?_⟩
  simp only [LazeEdit.positionNumber, hcount, hn]
  exact if_neg (Nat.not_lt.mpr hlength)

/-- Other digits are an error, but not one of the form of the argument. -/
lemma positionNumber_of_not_isNumeral {digits : Text} (h : ¬ IsNumeral digits) :
    ∃ e, positionNumber digits = .error e ∧ ¬ (OptionError.position e).Reported := by
  rw [positionNumber]
  by_cases hcount :
      Toml.maxDigits < (digits.takeWhile fun c => (decimalValue? c).isSome).length
  · exact ⟨.tooManyDigits _, if_pos hcount, nofun⟩
  · have hnone : decimalNumber? 0 digits = none := by
      rw [← Option.not_isSome_iff_eq_none, decimalNumber?_isSome_iff]
      intro hdecimal
      rw [List.takeWhile_eq_self_iff.mpr hdecimal] at hcount
      exact h ⟨hdecimal, Nat.le_of_not_lt hcount⟩
    simp only [hnone]
    exact ⟨.notDecimal digits, if_neg hcount, nofun⟩

section Position

variable {argument row column : Text}

/-- A position is read by its row and its column. -/
lemma PositionForm.parsePosition (h : PositionForm argument row column) :
    parsePosition argument = (do
      let r ← positionNumber row
      let c ← positionNumber column
      return (r, c)) := by
  obtain ⟨rfl, hrow, hrowDigits, hcolumn, hcolumnDigits⟩ := h
  have hcolon : ∀ c ∈ row, (c != ':') = true := by
    intro c hc
    rw [bne_iff_ne]
    rintro rfl
    exact absurd (hrowDigits ':' hc) (by decide)
  have htake : (row ++ ':' :: column).takeWhile (· != ':') = row :=
    takeWhile_append_stop hcolon (by simp)
  have hnumbers : ((!row.isEmpty && row.all isAnyDigit) &&
      (!column.isEmpty && column.all isAnyDigit)) = true := by
    simp [hrow, hcolumn, List.all_eq_true.mpr hrowDigits, List.all_eq_true.mpr hcolumnDigits]
  simp only [LazeEdit.parsePosition, htake, List.drop_left]
  exact if_pos hnumbers

/-- An argument of another form is refused. -/
lemma parsePosition_of_not_form (h : ∀ row column, ¬ PositionForm argument row column) :
    parsePosition argument = .error (.malformed argument) := by
  simp only [parsePosition]
  split
  case h_1 column hdrop =>
    apply if_neg
    intro hnumbers
    simp only [Bool.and_eq_true, Bool.not_eq_true', List.isEmpty_eq_false_iff,
      List.all_eq_true] at hnumbers
    obtain ⟨⟨hrow, hrowDigits⟩, hcolumn, hcolumnDigits⟩ := hnumbers
    have htext : argument = argument.takeWhile (· != ':') ++ ':' :: column := by
      rw [← hdrop]
      exact (List.prefix_iff_eq_append.mp (List.takeWhile_prefix _)).symm
    exact h _ column ⟨htext, hrow, hrowDigits, hcolumn, hcolumnDigits⟩
  case h_2 => rfl

/-- Numbers on both sides make a position. -/
lemma PositionForm.parsePosition_eq_ok (h : PositionForm argument row column)
    (hrow : IsNumeral row) (hcolumn : IsNumeral column) :
    ∃ p, LazeEdit.parsePosition argument = .ok p := by
  obtain ⟨r, hr⟩ := hrow.positionNumber
  obtain ⟨c, hc⟩ := hcolumn.positionNumber
  refine ⟨(r, c), ?_⟩
  rw [h.parsePosition, hr, hc]
  rfl

/-- The form of a position without its numbers is an error that escapes. -/
lemma PositionForm.parsePosition_eq_error (h : PositionForm argument row column)
    (hnot : ¬ (IsNumeral row ∧ IsNumeral column)) :
    ∃ e, LazeEdit.parsePosition argument = .error e ∧ ¬ (OptionError.position e).Reported := by
  rw [h.parsePosition]
  by_cases hrow : IsNumeral row
  · obtain ⟨r, hr⟩ := hrow.positionNumber
    have hcolumn : ¬ IsNumeral column := fun hcolumn => hnot ⟨hrow, hcolumn⟩
    obtain ⟨e, he, hescapes⟩ := positionNumber_of_not_isNumeral hcolumn
    refine ⟨e, ?_, hescapes⟩
    rw [hr, he]
    rfl
  · obtain ⟨e, he, hescapes⟩ := positionNumber_of_not_isNumeral hrow
    refine ⟨e, ?_, hescapes⟩
    rw [he]
    rfl

end Position

/-- What is wrong with the position of a call so that it is not reported. -/
inductive Arguments.PositionFault (as : Arguments) : Prop where
  /-- The argument has the form of a position, but a side of it is no number. -/
  | unconvertible (input : Option Text) (argument row column : Text)
    (hoperands : as.operands = [input, some argument]) (hform : PositionForm argument row column)
    (hnot : ¬ (IsNumeral row ∧ IsNumeral column))
  /-- The argument is nothing but two dashes. -/
  | dashes (input : Option Text) (hoperands : as.operands = [input, none])

/-- What escapes the reading of a position are its faults. -/
lemma escapes_position?_iff {as : Arguments} : Escapes as.position? ↔ as.PositionFault := by
  constructor
  · intro h
    rw [Arguments.position?] at h
    split at h
    case h_1 input hoperands => exact .dashes input hoperands
    case h_2 input argument hoperands =>
      by_cases hform : ∃ row column, PositionForm argument row column
      · obtain ⟨row, column, hform⟩ := hform
        refine .unconvertible input argument row column hoperands hform ?_
        rintro ⟨hrow, hcolumn⟩
        obtain ⟨p, hp⟩ := hform.parsePosition_eq_ok hrow hcolumn
        rw [hp] at h
        exact not_escapes_ok _ h
      · have hnot : ∀ row column, ¬ PositionForm argument row column :=
          fun row column hform' => hform ⟨row, column, hform'⟩
        rw [parsePosition_of_not_form hnot] at h
        exact (escapes_error_iff.mp h (.position argument)).elim
    case h_3 => exact (not_escapes_ok _ h).elim
  · intro h
    cases h with
    | unconvertible input argument row column hoperands hform hnot =>
      obtain ⟨e, he, hescapes⟩ := hform.parsePosition_eq_error hnot
      simp only [Arguments.position?, hoperands, he]
      exact escapes_error_iff.mpr hescapes
    | dashes input hoperands =>
      simp only [Arguments.position?, hoperands]
      exact escapes_error_iff.mpr nofun

/-! ### Levels -/

/-- The level that is asked for: by the argument, else by the setting, else by default. -/
def Arguments.levelText (as : Arguments) (setting : Option Text) : Except OptionError Text :=
  match as.logLevel with
  | some none => .error .noLevel
  | some (some t) => .ok t
  | none => .ok (setting.getD defaultLogLevel)

section Level

variable {as : Arguments} {setting : Option Text} {t : Text}

lemma Arguments.levelText_eq_ok_iff :
    as.levelText setting = .ok t ↔ as.logLevel.getD (setting.getD defaultLogLevel) = some t := by
  rw [Arguments.levelText]
  cases as.logLevel with
  | none => simp
  | some given => cases given <;> simp

/-- Of a level, two dashes escape. -/
lemma Arguments.escapes_levelText_iff :
    Escapes (as.levelText setting) ↔ as.logLevel = some none := by
  rw [Arguments.levelText]
  cases as.logLevel with
  | none => simp [not_escapes_ok]
  | some given =>
    cases given with
    | none => exact ⟨fun _ => rfl, fun _ => escapes_error_iff.mpr nofun⟩
    | some t => simp [not_escapes_ok]

lemma LogLevel.ofText_eq_ok_iff {l : LogLevel} :
    LogLevel.ofText t = .ok l ↔ LogLevel.ofText? t = some l := by
  rw [LogLevel.ofText]
  cases LogLevel.ofText? t <;> simp

/-- A name of no level is reported. -/
lemma LogLevel.not_escapes_ofText : ¬ Escapes ((LogLevel.ofText t).mapError OptionError.level) := by
  cases LogLevel.ofText t with
  | error cause => exact fun h => escapes_error_iff.mp h (.level cause)
  | ok l => exact not_escapes_ok l

end Level

/-! ### Stages -/

/-- Options are settled in stages. -/
lemma resolveOptions_eq (files : Files) (as : Arguments) :
    resolveOptions files as = (do
      let config ← (loadConfig files as.config? as.directory).mapError .config
      let snippets ←
        (booleanSetting config as.configPath "completion" "snippets").mapError .config
      let setting ← (textSetting config as.configPath "log" "level").mapError .config
      let logLevel ← as.levelText setting
      let level ← (LogLevel.ofText logLevel).mapError .level
      let logJson ← (booleanSetting config as.configPath "log" "json").mapError .config
      let position ← as.position?
      return {
        command := as.command
        input := as.input?
        position := position
        json := as.json
        raw := as.raw
        snippets := !as.noSnippets && snippets.getD true
        logLevel := logLevel
        logging := ⟨level, logJson.getD false⟩ }) := by
  refine congrArg₂ bind ?config (funext fun config => ?_)
  case config => cases loadConfig files as.config? as.directory <;> rfl
  refine congrArg₂ bind ?snippets (funext fun snippets => ?_)
  case snippets =>
    cases booleanSetting config as.configPath "completion" "snippets" <;> rfl
  refine congrArg₂ bind ?setting (funext fun setting => ?_)
  case setting => cases textSetting config as.configPath "log" "level" <;> rfl
  rw [Arguments.levelText]
  cases as.logLevel with
  | none =>
    dsimp only [bind, Except.bind]
    cases LogLevel.ofText (setting.getD defaultLogLevel) with
    | error e => rfl
    | ok level => cases booleanSetting config as.configPath "log" "json" <;> rfl
  | some given =>
    cases given with
    | none => rfl
    | some t =>
      dsimp only [bind, Except.bind]
      cases LogLevel.ofText t with
      | error e => rfl
      | ok level => cases booleanSetting config as.configPath "log" "json" <;> rfl

lemma mapError_eq_ok_iff {ε ε' α : Type} {x : Except ε α} {f : ε → ε'} {a : α} :
    x.mapError f = .ok a ↔ x = .ok a := by
  cases x with
  | error e => exact ⟨nofun, nofun⟩
  | ok b => simp [Except.mapError]

/-- The configuration of a call, with the settings that are read before the level: whether there are
snippets, and the level. -/
structure Arguments.Configures (as : Arguments) (files : Files) (config : Toml.Table)
    (level : Option Text) : Prop where
  configured : Configured files as.config? as.configPath config
  snippets : ∃ b : Option Bool, setting? config "completion" "snippets" = b.map .boolean
  level : setting? config "log" "level" = level.map .string

/-- Where an error of a call is not reported: at a fault of its configuration file, at two dashes
for its level, or at a fault of its position, each behind stages that give a value. -/
inductive Unreported (files : Files) (as : Arguments) : Prop where
  | config (h : ConfigFault files as.configPath)
  | level (config : Toml.Table) (setting : Option Text)
    (hconfig : as.Configures files config setting) (h : as.logLevel = some none)
  | position (config : Toml.Table) (setting : Option Text) (text : Text) (level : LogLevel)
    (json : Option Bool) (hconfig : as.Configures files config setting)
    (htext : as.logLevel.getD (setting.getD defaultLogLevel) = some text)
    (hlevel : LogLevel.ofText? text = some level)
    (hjson : setting? config "log" "json" = json.map .boolean) (h : as.PositionFault)

/-- An error escapes a call exactly at the faults that are not reported. -/
lemma escapes_resolveOptions_iff {files : Files} {as : Arguments} :
    Escapes (resolveOptions files as) ↔ Unreported files as := by
  have hpure (o : Options) : ¬ Escapes (pure o : Except OptionError Options) := not_escapes_ok o
  simp only [resolveOptions_eq, escapes_bind_iff, mapError_eq_ok_iff, escapes_loadConfig_iff rfl,
    loadConfig_eq_ok_iff rfl, not_escapes_booleanSetting, booleanSetting_eq_ok_iff,
    not_escapes_textSetting, textSetting_eq_ok_iff, Arguments.escapes_levelText_iff,
    Arguments.levelText_eq_ok_iff, LogLevel.not_escapes_ofText, LogLevel.ofText_eq_ok_iff,
    escapes_position?_iff, hpure, false_or, or_false, and_false, exists_false]
  constructor
  · rintro (h | ⟨config, hconfig, b, hb, setting, hsetting, h | h⟩)
    · exact .config h
    · exact .level config setting ⟨hconfig, ⟨b, hb⟩, hsetting⟩ h
    · obtain ⟨text, htext, level, hlevel, json, hjson, h⟩ := h
      exact .position config setting text level json ⟨hconfig, ⟨b, hb⟩, hsetting⟩ htext hlevel
        hjson h
  · intro h
    cases h with
    | config h => exact .inl h
    | level config setting hconfig h =>
      obtain ⟨b, hb⟩ := hconfig.snippets
      exact .inr ⟨config, hconfig.configured, b, hb, setting, hconfig.level, .inl h⟩
    | position config setting text level json hconfig htext hlevel hjson h =>
      obtain ⟨b, hb⟩ := hconfig.snippets
      exact .inr ⟨config, hconfig.configured, b, hb, setting, hconfig.level,
        .inr ⟨text, htext, level, hlevel, json, hjson, h⟩⟩

/-- Arguments and files give options or an error that is reported exactly when they have none of the
faults of `Unreported`; and what is reported is a message and the exit code 2. -/
theorem resolveOptions_reports_iff (files : Files) (as : Arguments) :
    (((∃ o, resolveOptions files as = .ok o) ∨
        ∃ e, resolveOptions files as = .error e ∧ e.Reported) ↔ ¬ Unreported files as) ∧
      ∀ e : OptionError, e.Reported ↔
        ∃ message, e.outcome = { stderr := message ++ ['\n'], ending := .exits 2 } := by
  refine ⟨?_, fun e => OptionError.reported_iff⟩
  rw [← escapes_resolveOptions_iff]
  cases resolveOptions files as with
  | error e => simp [escapes_error_iff]
  | ok o => simp [not_escapes_ok]

/-- Three calls whose errors are not reported: one for a position with a superscript digit, one
beside a configuration file that is no text, and one for a configuration file in a directory that
may not be searched. -/
theorem unreported_calls :
    (∃ as e, parseArguments ["complete".toList, "doc.laze".toList, "²:0".toList] = .ok as ∧
      resolveOptions (Tree.directory [("doc.laze".toList, .file [])]).files as = .error e ∧
      e.outcome.ending = .fails (.position (.notDecimal ['²'])) ∧ ¬ e.Reported) ∧
    (∃ as e cause, parseArguments ["tokens".toList, "doc.laze".toList] = .ok as ∧
      resolveOptions (Tree.directory
        [("doc.laze".toList, .file []), (configName, .file [0xFF])]).files as = .error e ∧
      e.outcome.ending = .fails (.undecodableConfig cause) ∧ ¬ e.Reported) ∧
    ∃ as e, parseArguments
        ["tokens".toList, "--config".toList, "locked/laze.toml".toList, "doc.laze".toList]
          = .ok as ∧
      resolveOptions (fun _ => .refused (.other 13 "Permission denied")) as = .error e ∧
      e.outcome.ending = .fails
        (.unreachable (.ofText "locked/laze.toml".toList) (.other 13 "Permission denied")) ∧
      ¬ e.Reported := by
  refine ⟨?_, ?_, ?_⟩
  · exact ⟨{ command := .complete, operands := [some "doc.laze".toList, some "²:0".toList] },
      .position (.notDecimal ['²']), by decide +kernel, by decide +kernel, rfl, nofun⟩
  · exact ⟨{ command := .tokens, operands := [some "doc.laze".toList] },
      .config (.undecodable ⟨.badStart, 0, [0xFF]⟩), _, by decide +kernel, by decide +kernel, rfl,
      nofun⟩
  · exact ⟨
      { command := .tokens
        operands := [some "doc.laze".toList]
        config := some "locked/laze.toml".toList },
      .config (.unreachable (.ofText "locked/laze.toml".toList) (.other 13 "Permission denied")),
      by decide +kernel, by decide +kernel, rfl, nofun⟩

end LazeEdit
