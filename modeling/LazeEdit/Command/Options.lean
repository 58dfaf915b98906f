import LazeEdit.Command.Arguments
import LazeEdit.Command.Position
import LazeEdit.Config.Settings
import LazeEdit.Log

/-!
# Options

What a command is to do, from its arguments and the configuration file. An argument goes before a
setting of the file, and that before the default.
-/

namespace LazeEdit

/-- What a command is to do. The log level is kept as it is written. -/
structure Options where
  command : CommandName
  input : Option Path
  position : Option (Nat × Nat)
  json : Bool
  raw : Bool
  snippets : Bool
  logLevel : Text
  logging : Logging
  deriving DecidableEq, Repr

/-- Why arguments and configuration give no options. -/
inductive OptionError where
  | config (cause : ConfigError)
  | level (cause : UnknownLevel)
  /-- The argument for the log level is nothing but two dashes. -/
  | noLevel
  | position (cause : PositionError)
  /-- The argument for the position is nothing but two dashes. -/
  | noPosition
  deriving DecidableEq, Repr

/-- The path that an argument writes; none for an empty one. -/
def pathArgument? (argument : Option Text) : Option Path :=
  match argument with
  | none | some [] => none
  | some t => some (Path.ofText t)

namespace Arguments

/-- The path of the input. -/
def input? (as : Arguments) : Option Path :=
  pathArgument? (as.operands.head?.bind id)

/-- The directory in which a configuration file is looked for: that of the input. -/
def directory (as : Arguments) : Path :=
  match as.input? with
  | some p => p.parent
  | none => ⟨.relative, []⟩

/-- The configuration file that is asked for. -/
def config? (as : Arguments) : Option Path :=
  pathArgument? as.config

/-- The path that errors about the configuration name. -/
def configPath (as : Arguments) : Path :=
  as.config?.getD (as.directory.child configName)

/-- The position of the cursor, if the command has one. -/
def position? (as : Arguments) : Except OptionError (Option (Nat × Nat)) :=
  match as.operands with
  | [_, none] => .error .noPosition
  | [_, some t] =>
    match parsePosition t with
    | .ok p => .ok (some p)
    | .error e => .error (.position e)
  | _ => .ok none

end Arguments

/-- The level at which a program logs that is told nothing else. -/
def defaultLogLevel : Text := "WARNING".toList

/-- The options of some arguments and the files around them. -/
def resolveOptions (files : Files) (as : Arguments) : Except OptionError Options := do
  let fromConfig {α : Type} (r : Except ConfigError α) : Except OptionError α :=
    match r with
    | .ok a => .ok a
    | .error e => .error (.config e)
  let config ← fromConfig (loadConfig files as.config? as.directory)
  let snippets ← fromConfig (booleanSetting config as.configPath "completion" "snippets")
  let configLevel ← fromConfig (textSetting config as.configPath "log" "level")
  let logLevel ← match as.logLevel with
    | some none => .error .noLevel
    | some (some t) => .ok t
    | none => .ok (configLevel.getD defaultLogLevel)
  let level ← match LogLevel.ofText logLevel with
    | .ok l => .ok l
    | .error e => .error (.level e)
  let logJson ← fromConfig (booleanSetting config as.configPath "log" "json")
  let position ← as.position?
  return {
    command := as.command
    input := as.input?
    position := position
    json := as.json
    raw := as.raw
    snippets := !as.noSnippets && snippets.getD true
    logLevel := logLevel
    logging := ⟨level, logJson.getD false⟩ }

end LazeEdit
