import LazeEdit.Command.Usage
import LazeEdit.Text.Digit
import LazeEdit.Text.Quoted

/-!
# Command-line arguments

Options may stand before, between and behind operands. A long option may be cut short as long as it
stays the only one, and may have its value behind an equals sign; two dashes alone end the options.
The arguments behind the name of a command are read by the rules of that command.
-/

namespace LazeEdit

/-- What an option asks for. -/
inductive Flag where
  | help
  | config
  | logLevel
  | json
  | raw
  | noSnippets
  deriving DecidableEq, Repr

namespace Flag

/-- The ways to write an option. -/
def names : Flag → List Text
  | help => [['-', 'h'], "--help".toList]
  | config => ["--config".toList]
  | logLevel => ["--log-level".toList]
  | json => ["--json".toList]
  | raw => ["--raw".toList]
  | noSnippets => ["--no-snippets".toList]

/-- Whether an option takes a value. -/
def takesValue : Flag → Bool
  | config | logLevel => true
  | _ => false

/-- An option as errors name it. -/
def label (f : Flag) : Text :=
  joinWith ['/'] f.names

end Flag

namespace CommandName

/-- The options of a command, in order. -/
def flags : CommandName → List Flag
  | tokens => [.help, .config, .logLevel, .json, .raw]
  | complete => [.help, .config, .logLevel, .json, .noSnippets]
  | events | server => [.help, .config, .logLevel]

/-- The names of the operands of a command, in order. -/
def operands : CommandName → List String
  | tokens | events => ["input"]
  | complete => ["input", "position"]
  | server => []

end CommandName

/-- Why arguments cannot be read. -/
inductive ArgumentError where
  | ambiguous (argument : Text) (names : List Text)
  | ignoredValue (flag : Flag) (value : Text)
  | missingValue (flag : Flag)
  | missingOperands (names : List String)
  | unknownCommand (name : Text)
  | unrecognized (arguments : List Text)
  deriving DecidableEq, Repr

/-- The words for why arguments cannot be read. -/
def ArgumentError.message : ArgumentError → Text
  | ambiguous argument names =>
    "ambiguous option: ".toList ++ argument ++ " could match ".toList ++ joinWith [',', ' '] names
  | ignoredValue flag value =>
    "argument ".toList ++ flag.label ++ ": ignored explicit argument ".toList ++ quoted value
  | missingValue flag => "argument ".toList ++ flag.label ++ ": expected one argument".toList
  | missingOperands names =>
    "the following arguments are required: ".toList ++ joinWith [',', ' '] (names.map String.toList)
  | unknownCommand name =>
    "argument command: invalid choice: ".toList ++ quoted name ++ " (choose from ".toList
      ++ joinWith [',', ' '] (CommandName.all.map fun c => quoted c.name.toList) ++ [')']
  | unrecognized arguments => "unrecognized arguments: ".toList ++ joinWith [' '] arguments

/-- Why reading the arguments ends early: help is asked for, or they cannot be read. The command is
the one whose rules were being followed, if any. -/
inductive Halt where
  | helpWanted (command : Option CommandName)
  | refused (command : Option CommandName) (error : ArgumentError)
  deriving DecidableEq, Repr

/-! ### Reading one argument -/

/-- How one argument is read. -/
inductive Reading where
  | operand
  | separator
  | option (flag : Flag) (name : Text) (attached : Option Text)
  | unknownOption
  deriving DecidableEq, Repr

/-- The option of a name. -/
def flagOf? (flags : List Flag) (name : Text) : Option Flag :=
  flags.find? fun f => f.names.contains name

/-- The text before the first equals sign and, if there is one, the text behind it. -/
def splitAtEquals (t : Text) : Text × Option Text :=
  let name := t.takeWhile (· != '=')
  match t.drop name.length with
  | _ :: value => (name, some value)
  | [] => (name, none)

/-- The options that a cut-short argument may stand for. A long one is matched up to its equals
sign; a short one may have its value, or more short options, right behind it. -/
def candidates (flags : List Flag) (argument : Text) : List (Flag × Text × Option Text) :=
  flags.flatMap fun f => f.names.filterMap fun name =>
    match argument with
    | '-' :: '-' :: _ =>
      let (start, value) := splitAtEquals argument
      if start.isPrefixOf name then some (f, name, value) else none
    | _ =>
      if name = argument.take 2 then some (f, name, some (argument.drop 2))
      else if argument.isPrefixOf name then some (f, name, none)
      else none

/-- Whether an argument is a negative number: digits behind a minus, perhaps with a point before the
last ones and a line feed at the end. -/
def isNegativeNumber (argument : Text) : Bool :=
  let digit (c : Char) : Bool := (decimalValue? c).isSome
  let atEnd (t : Text) : Bool := t = [] || t = ['\n']
  match argument with
  | '-' :: cs =>
    let whole := cs.takeWhile digit
    match cs.drop whole.length with
    | '.' :: rest =>
      let fraction := rest.takeWhile digit
      !fraction.isEmpty && atEnd (rest.drop fraction.length)
    | rest => !whole.isEmpty && atEnd rest
  | _ => false

/-- How an argument before the separator is read. -/
def readArgument (flags : List Flag) (argument : Text) : Except ArgumentError Reading :=
  match argument with
  | '-' :: _ :: _ =>
    match flagOf? flags argument with
    | some f => .ok (.option f argument none)
    | none =>
      let (name, value) := splitAtEquals argument
      match value, flagOf? flags name with
      | some v, some f => .ok (.option f name (some v))
      | _, _ =>
        match candidates flags argument with
        | [(f, name, attached)] => .ok (.option f name attached)
        | [] =>
          if isNegativeNumber argument || argument.contains ' ' then .ok .operand
          else .ok .unknownOption
        | several => .error (.ambiguous argument (several.map fun (_, name, _) => name))
  | _ => .ok .operand

/-- How each argument is read; behind two dashes all are operands. -/
def readArguments (flags : List Flag) : List Text → Except ArgumentError (List (Text × Reading))
  | [] => .ok []
  | argument :: rest =>
    if argument = ['-', '-'] then .ok ((argument, .separator) :: rest.map (·, .operand))
    else do
      let reading ← readArgument flags argument
      let readings ← readArguments flags rest
      return (argument, reading) :: readings

/-! ### Reading the arguments of a command -/

/-- The value that an argument gives; two dashes give none. -/
def givenValue (argument : Text) : Option Text :=
  if argument = ['-', '-'] then none else some argument

/-- The arguments of a command as they are given. An operand or a log level is there, but has no
value, where two dashes stand for it. -/
structure Arguments where
  command : CommandName
  operands : List (Option Text) := []
  config : Option Text := none
  logLevel : Option (Option Text) := none
  json : Bool := false
  raw : Bool := false
  noSnippets : Bool := false
  /-- What no rule accounts for. -/
  extras : List Text := []
  deriving DecidableEq, Repr

/-- The first operand of some arguments, with the separator next to it, and the arguments behind
it. -/
def takeOperand : List (Text × Reading) → Option (Option Text × List (Text × Reading))
  | (_, .separator) :: (a, .operand) :: rest => some (some a, rest)
  | (a, .operand) :: (_, .separator) :: rest => some (some a, rest)
  | (a, .operand) :: rest => some (givenValue a, rest)
  | _ => none

/-- As many operands at the start of some arguments as there are, but no more than a number. -/
def takeOperands : Nat → List (Text × Reading) → List (Option Text) × List (Text × Reading)
  | 0, xs => ([], xs)
  | n + 1, xs =>
    match takeOperand xs with
    | none => ([], xs)
    | some (a, rest) =>
      let (more, rest) := takeOperands n rest
      (a :: more, rest)

/-- Whether an argument is read as an option. -/
def isOption : Text × Reading → Bool
  | (_, .option ..) | (_, .unknownOption) => true
  | _ => false

/-- What is wrong with the characters right behind a short option without a value, which may be more
short options. -/
def clusterFault? (flags : List Flag) (f : Flag) : Text → Option ArgumentError
  | [] => none
  | c :: rest =>
    match flagOf? flags ['-', c] with
    | none => some (.ignoredValue f (c :: rest))
    | some next => clusterFault? flags next rest

/-- What is wrong with the value that is attached to an option without one. -/
def attachedFault? (flags : List Flag) (f : Flag) (name value : Text) : Option ArgumentError :=
  match name, value with
  | '-' :: '-' :: _, _ | _, [] => some (.ignoredValue f value)
  | _, _ => clusterFault? flags f value

namespace Arguments

/-- Puts an option with its value into effect. -/
def apply (as : Arguments) (f : Flag) (value : Option Text) : Except Halt Arguments :=
  match f with
  | .help => .error (.helpWanted as.command)
  | .config => .ok { as with config := value }
  | .logLevel => .ok { as with logLevel := some value }
  | .json => .ok { as with json := true }
  | .raw => .ok { as with raw := true }
  | .noSnippets => .ok { as with noSnippets := true }

/-- The arguments with the option in front put into effect, and those behind it. -/
def takeOption (as : Arguments) (flag : Flag) (name : Text) (attached : Option Text)
    (rest : List (Text × Reading)) : Except Halt (Arguments × List (Text × Reading)) :=
  let refuse (e : ArgumentError) : Except Halt (Arguments × List (Text × Reading)) :=
    .error (.refused as.command e)
  match flag.takesValue, attached with
  | true, some a => (as.apply flag (givenValue a)).map (·, rest)
  | true, none =>
    match rest with
    | (a, .operand) :: rest => (as.apply flag (givenValue a)).map (·, rest)
    | _ => refuse (.missingValue flag)
  | false, none => (as.apply flag none).map (·, rest)
  | false, some a =>
    match attachedFault? as.command.flags flag name a with
    | some e => refuse e
    | none => (as.apply flag none).map (·, rest)

/-- The number of operands that a command still waits for. -/
def missing (as : Arguments) : Nat :=
  as.command.operands.length - as.operands.length

/-- Reads arguments until none is left; each step takes at least one. -/
def collect : Nat → Arguments → List (Text × Reading) → Except Halt Arguments
  | 0, as, _ => .ok as
  | steps + 1, as, xs =>
    match xs with
    | [] => .ok as
    | (_, .option flag name attached) :: rest => do
      let (as, rest) ← as.takeOption flag name attached rest
      collect steps as rest
    | (a, .unknownOption) :: rest => collect steps { as with extras := as.extras ++ [a] } rest
    | xs =>
      match takeOperands as.missing xs with
      | ([], _) =>
        let surplus := xs.takeWhile (!isOption ·)
        let as := { as with extras := as.extras ++ surplus.map Prod.fst }
        collect steps as (xs.drop surplus.length)
      | (operands, rest) => collect steps { as with operands := as.operands ++ operands } rest

/-- The arguments behind the name of a command. -/
def ofCommand (command : CommandName) (argv : List Text) : Except Halt Arguments := do
  match readArguments command.flags argv with
  | .error e => .error (.refused command e)
  | .ok xs =>
    let as ← collect (xs.length + 1) { command := command } xs
    match command.operands.drop as.operands.length with
    | [] => return as
    | names => .error (.refused command (.missingOperands names))

end Arguments

/-- The arguments of the program, of which `extras` are those before the command that no rule
accounts for. -/
def readCommand (extras : List Text) : List (Text × Reading) → Except Halt Arguments
  | [] => .error (.refused none (.missingOperands ["command"]))
  | (name, .operand) :: rest =>
    match CommandName.ofText? name with
    | none => .error (.refused none (.unknownCommand name))
    | some command => do
      let as ← Arguments.ofCommand command (rest.map Prod.fst)
      match extras ++ as.extras with
      | [] => return as
      | arguments => .error (.refused none (.unrecognized arguments))
  | (_, .separator) :: [] => .error (.refused none (.missingOperands ["command"]))
  | (a, .separator) :: _ => .error (.refused none (.unknownCommand a))
  | (a, .unknownOption) :: rest => readCommand (extras ++ [a]) rest
  | (_, .option flag name attached) :: _ =>
    match attached.bind (attachedFault? [.help] flag name) with
    | some e => .error (.refused none e)
    | none => .error (.helpWanted none)

/-- The arguments of the program. -/
def parseArguments (argv : List Text) : Except Halt Arguments :=
  match readArguments [.help] argv with
  | .error e => .error (.refused none e)
  | .ok xs => readCommand [] xs

/-- What a halt prints to the standard output. -/
def Halt.stdout : Halt → Text
  | helpWanted command => (help command).toList
  | refused _ _ => []

/-- What a halt prints to the standard error. -/
def Halt.stderr : Halt → Text
  | helpWanted _ => []
  | refused command e =>
    (usage command).toList ++ (callName command).toList ++ ": error: ".toList ++ e.message ++ ['\n']

/-- The exit code of a halt. -/
def Halt.code : Halt → Nat
  | helpWanted _ => 0
  | refused _ _ => 2

end LazeEdit
