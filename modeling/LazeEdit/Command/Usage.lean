import LazeEdit.Text.Basic

/-!
# Commands and their usage

The commands of the program, with the texts that say how to call them.
-/

namespace LazeEdit

/-- The commands. -/
inductive CommandName where
  | tokens
  | complete
  | events
  | server
  deriving DecidableEq, Repr

namespace CommandName

/-- The commands in the order in which they are listed. -/
def all : List CommandName :=
  [tokens, complete, events, server]

/-- The name of a command. -/
def name : CommandName → String
  | tokens => "tokens"
  | complete => "complete"
  | events => "events"
  | server => "lsp"

/-- The command of a name. -/
def ofText? (t : Text) : Option CommandName :=
  all.find? fun c => c.name.toList = t

end CommandName

/-- The name of the program. -/
def programName : String := "laze"

/-- The name under which errors are reported: that of the program, or of one of its commands. -/
def callName : Option CommandName → String
  | none => programName
  | some c => programName ++ " " ++ c.name

/-- How to call the program or one of its commands. -/
def usage : Option CommandName → String
  | none => "usage: laze [-h] \x7btokens,complete,events,lsp\x7d ...\n"
  | some .tokens =>
    "usage: laze tokens [-h] [--config FILE] [--log-level LEVEL] [--json] [--raw]\n"
      ++ "                   input\n"
  | some .complete =>
    "usage: laze complete [-h] [--config FILE] [--log-level LEVEL] [--json]\n"
      ++ "                     [--no-snippets]\n"
      ++ "                     input position\n"
  | some .events => "usage: laze events [-h] [--config FILE] [--log-level LEVEL] input\n"
  | some .server => "usage: laze lsp [-h] [--config FILE] [--log-level LEVEL]\n"

/-- The options that all commands share. -/
def sharedOptionsHelp : String :=
  "options:\n"
    ++ "  -h, --help         show this help message and exit\n"
    ++ "  --config FILE      Config file (default: auto-discover laze.toml)\n"
    ++ "  --log-level LEVEL  Log level for stderr output (default: WARNING)\n"

/-- What the program or one of its commands does, after its usage. -/
def helpBody : Option CommandName → String
  | none =>
    "Laze source analyzer: semantic tokens and completion\n\n"
      ++ "positional arguments:\n"
      ++ "  \x7btokens,complete,events,lsp\x7d\n"
      ++ "    tokens              Print classified token spans\n"
      ++ "    complete            Print completion items\n"
      ++ "    events              Print the sorted scope events\n"
      ++ "    lsp                 Run the language server on stdio\n\n"
      ++ "options:\n"
      ++ "  -h, --help            show this help message and exit\n"
  | some .tokens =>
    "positional arguments:\n"
      ++ "  input              Input .laze file\n\n"
      ++ sharedOptionsHelp
      ++ "  --json             Print the semantic token data as JSON\n"
      ++ "  --raw              Print the semantic token integers\n"
  | some .complete =>
    "positional arguments:\n"
      ++ "  input              Input .laze file\n"
      ++ "  position           Cursor position LINE:COL (0-based)\n\n"
      ++ sharedOptionsHelp
      ++ "  --json             Print items as JSON\n"
      ++ "  --no-snippets      Omit snippet completions\n"
  | some .events =>
    "positional arguments:\n"
      ++ "  input              Input .laze file\n\n"
      ++ sharedOptionsHelp
  | some .server => sharedOptionsHelp

/-- The help for the program or one of its commands. -/
def help (c : Option CommandName) : String :=
  usage c ++ "\n" ++ helpBody c

end LazeEdit
