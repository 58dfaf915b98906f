import LazeEdit.Command.Options
import LazeEdit.Dump

/-!
# Running a command

What a call of the program prints, and how it ends.
-/

namespace LazeEdit

/-- A fault that the program does not report itself. -/
inductive Failure where
  | undecodableConfig (cause : Utf8.Error)
  | tooManyDigits (count : Nat)
  | position (cause : PositionError)
  | noPosition
  | noLevel
  | noInput
  /-- The path of the input has a null character. -/
  | unaskableInput
  | unreachable (path : Path) (why : Refusal)
  | unresolved (cause : ResolveError)
  deriving DecidableEq, Repr

/-- The words for a fault that the program does not report itself. -/
def Failure.message : Failure → Text
  | undecodableConfig cause => cause.message.toList
  | tooManyDigits count => tooManyDigitsMessage count
  | position cause => cause.message
  | noPosition => "'list' object has no attribute 'partition'".toList
  | noLevel => "'list' object has no attribute 'upper'".toList
  | noInput => []
  | unaskableInput => "embedded null byte".toList
  | unreachable path why => why.message path
  | unresolved cause => cause.message.toList

/-- How a call ends. -/
inductive Ending where
  | exits (code : Nat)
  /-- The arguments were not read to their end. -/
  | halts (code : Nat)
  | fails (failure : Failure)
  /-- The language server takes over. -/
  | serves (logging : Logging)
  deriving DecidableEq, Repr

/-- What a call prints, and how it ends. -/
structure Outcome where
  stdout : Text := []
  stderr : Text := []
  ending : Ending
  deriving DecidableEq, Repr

/-- The outcome of options that could not be settled. -/
def OptionError.outcome (e : OptionError) : Outcome :=
  let reported (message : Text) : Outcome := { stderr := message ++ ['\n'], ending := .exits 2 }
  match e with
  | config (.diagnosed d) => reported d.format
  | config (.undecodable cause) => { ending := .fails (.undecodableConfig cause) }
  | config (.tooManyDigits count) => { ending := .fails (.tooManyDigits count) }
  | config (.unreachable path why) => { ending := .fails (.unreachable path why) }
  | noLevel => { ending := .fails .noLevel }
  | level cause => reported ("error: ".toList ++ cause.message)
  | position (.malformed t) => reported ("error: ".toList ++ (PositionError.malformed t).message)
  | position cause => { ending := .fails (.position cause) }
  | noPosition => { ending := .fails .noPosition }

/-- Whole numbers with a separator between them. -/
def numberList (sep : Text) (ns : List Int) : Text :=
  joinWith sep (ns.map intText)

/-- What the command for spans prints. -/
def tokensOutput (o : Options) (a : Analysis) : Text :=
  if o.json then
    "\x7b\"data\": [".toList ++ numberList [',', ' '] a.semanticTokens ++ "]\x7d\n".toList
  else if o.raw then numberList [' '] a.semanticTokens ++ ['\n']
  else a.dumpTokens

/-- An item as a JSON object. -/
def Item.json (i : Item) : Text :=
  "\x7b\"label\": ".toList ++ jsonString false i.label
    ++ ", \"kind\": ".toList ++ jsonString false i.kind.name.toList
    ++ ", \"insertText\": ".toList ++ jsonString false i.insertText ++ ['\x7d']

/-- What the command for completion prints. -/
def completeOutput (o : Options) (items : List Item) : Text :=
  if o.json then ['['] ++ joinWith [',', ' '] (items.map Item.json) ++ [']', '\n']
  else items.flatMap fun i => i.label ++ ['\t'] ++ i.kind.name.toList ++ ['\n']

/-- What a command prints about an analysed document. -/
def commandOutput (o : Options) (a : Analysis) : Except Failure Text :=
  match o.command with
  | .tokens => .ok (tokensOutput o a)
  | .events => .ok a.dumpEvents
  | .complete =>
    match o.position with
    | none => .error .noPosition
    | some (row, column) =>
      match a.complete row column o.snippets with
      | .ok items => .ok (completeOutput o items)
      | .error e => .error (.unresolved e)
  | .server => .ok []

/-- What is logged of a command. -/
def commandEntry (o : Options) (input : Path) : LogEntry :=
  ⟨.debug, "command".toList,
    [("command".toList, .text o.command.name.toList), ("input".toList, .text input.text)]⟩

/-- What is logged of an analysis. -/
def Analysis.logEntry (a : Analysis) : LogEntry :=
  let count (name : String) (n : Nat) : Text × FieldValue := (name.toList, .number n)
  ⟨.debug, "analysis_complete".toList,
    [count "length" a.source.length, count "tokens" a.tokens.length, count "events" a.events.length,
      count "classes" a.classes.length]⟩

/-- The outcome of a command with its options. -/
def runOptions (time : Text) (files : Files) (o : Options) : Outcome :=
  match o.command, o.input with
  | .server, _ => { ending := .serves o.logging }
  | _, none => { ending := .fails .noInput }
  | _, some input =>
    match (files input).text with
    | .error .unaskable => { ending := .fails .unaskableInput }
    | .error e =>
      let message := "error: cannot read ".toList ++ input.text ++ [':', ' '] ++ e.message input
      { stderr := message ++ ['\n'], ending := .exits 1 }
    | .ok text =>
      let a := analyze text
      let log := o.logging.lines time [commandEntry o input, a.logEntry]
      match commandOutput o a with
      | .ok output => { stdout := output, stderr := log, ending := .exits 0 }
      | .error e => { stderr := log, ending := .fails e }

/-- The outcome of a call of the program with some arguments, at a time and among some files. -/
def runProgram (time : Text) (files : Files) (argv : List Text) : Outcome :=
  match parseArguments argv with
  | .error halt => { stdout := halt.stdout, stderr := halt.stderr, ending := .halts halt.code }
  | .ok as =>
    match resolveOptions files as with
    | .error e => e.outcome
    | .ok o => runOptions time files o

end LazeEdit
