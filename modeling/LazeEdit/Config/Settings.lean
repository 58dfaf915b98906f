import LazeEdit.Config.Diagnostic
import LazeEdit.Files
import LazeEdit.Toml.Document

/-!
# Configuration files

Loading a configuration file, and the typed settings in it.
-/

namespace LazeEdit

/-- The name of the configuration file that is looked for. -/
def configName : Text := "laze.toml".toList

/-- Why a configuration cannot be used. -/
inductive ConfigError where
  | diagnosed (d : Diagnostic)
  /-- Whether there is a file cannot be found out. -/
  | unreachable (path : Path) (why : Refusal)
  | undecodable (cause : Utf8.Error)
  | tooManyDigits (count : Nat)
  deriving DecidableEq, Repr

/-- The diagnostic of a malformed document. A place at the end of the document stays in the message,
any other is the place of the diagnostic. -/
def tomlDiagnostic (path : Path) (document : Text) (reason : Toml.Reason) (offset : Nat) :
    Diagnostic :=
  let message := "invalid TOML: ".toList ++ reason.message
  match Toml.place? document offset with
  | some (line, column) => ⟨message, path, some line, some column, document⟩
  | none => ⟨message ++ " (at end of document)".toList, path, none, none, document⟩

/-- The table where there is no configuration file: the empty one, unless the file is asked for. -/
def missingConfig (asked : Option Path) (path : Path) : Except ConfigError Toml.Table :=
  match asked with
  | some _ => .error (.diagnosed { message := "config file not found".toList, path := path })
  | none => .ok []

/-- The table of a configuration file: the one that is asked for, which must be there, or else the
one in a directory, if there is one. -/
def loadConfig (files : Files) (asked : Option Path) (directory : Path) :
    Except ConfigError Toml.Table :=
  let path := asked.getD (directory.child configName)
  match files path with
  | .file bytes =>
    match readText bytes with
    | .error cause => .error (.undecodable cause)
    | .ok document =>
      match Toml.parse document with
      | .ok table => .ok table
      | .error (.tooManyDigits count) => .error (.tooManyDigits count)
      | .error (.malformed reason offset) =>
        .error (.diagnosed (tomlDiagnostic path document reason offset))
  | .locked true why =>
    .error (.diagnosed
      { message := "cannot read config file: ".toList ++ why.reason.toList, path := path })
  -- looking for the file is no part of reading it: what is refused here is not diagnosed
  | .refused why =>
    if why.meansAbsent then missingConfig asked path else .error (.unreachable path why)
  | .device _ | .locked false _ | .unaskable => missingConfig asked path

/-- The types of settings. -/
inductive SettingType where
  | boolean
  | string
  deriving DecidableEq, Repr

/-- The name of a type of settings. -/
def SettingType.name : SettingType → String
  | boolean => "bool"
  | string => "str"

/-- The diagnostic of a setting with a value of another type. -/
def mistyped (path : Path) (group key : String) (expected : SettingType) : Diagnostic :=
  { message := ("[" ++ group ++ "] " ++ key ++ " must be a " ++ expected.name).toList
    path := path }

/-- The value of a setting, if the configuration has it. -/
def setting? (config : Toml.Table) (group key : String) : Option Toml.Value :=
  match config.get? group.toList with
  | some (.table entries) => Toml.Table.get? entries key.toList
  | _ => none

/-- The truth value of a setting, if the configuration has it. -/
def booleanSetting (config : Toml.Table) (path : Path) (group key : String) :
    Except ConfigError (Option Bool) :=
  match setting? config group key with
  | none => .ok none
  | some (.boolean b) => .ok (some b)
  | some _ => .error (.diagnosed (mistyped path group key .boolean))

/-- The text of a setting, if the configuration has it. -/
def textSetting (config : Toml.Table) (path : Path) (group key : String) :
    Except ConfigError (Option Text) :=
  match setting? config group key with
  | none => .ok none
  | some (.string t) => .ok (some t)
  | some _ => .error (.diagnosed (mistyped path group key .string))

end LazeEdit
