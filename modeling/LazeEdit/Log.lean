import LazeEdit.Text.Json

/-!
# Log lines

The levels of log lines, and a line as a person or a program reads it. The time is given from
outside.
-/

namespace LazeEdit

/-- The levels of log lines. -/
inductive LogLevel where
  | debug
  | info
  | warning
  | error
  deriving DecidableEq, Repr

namespace LogLevel

/-- The weight of a level. -/
def number : LogLevel → Nat
  | debug => 10
  | info => 20
  | warning => 30
  | error => 40

/-- The name of a level. -/
def name : LogLevel → String
  | debug => "debug"
  | info => "info"
  | warning => "warning"
  | error => "error"

/-- A character in upper case, as far as the names of levels need it: ASCII letters and the dotless
`ı`. -/
def upperChar (c : Char) : Char :=
  if c = 'ı' then 'I' else c.toUpper

/-- The level of a name in any case. -/
def ofText? (t : Text) : Option LogLevel :=
  match String.ofList (t.map upperChar) with
  | "DEBUG" => some debug
  | "INFO" => some info
  | "WARN" | "WARNING" => some warning
  | "ERROR" => some error
  | _ => none

/-- The level at which the transport of the language server logs; below `info` it would log every
message. -/
def forTransport (l : LogLevel) : LogLevel :=
  if l.number < info.number then info else l

end LogLevel

/-- A name that is no level. -/
structure UnknownLevel where
  name : Text
  deriving DecidableEq, Repr

/-- The text of the error about a name that is no level. -/
def UnknownLevel.message (e : UnknownLevel) : Text :=
  "unknown log level: ".toList ++ e.name

/-- The level of a name, or the error that says there is none. -/
def LogLevel.ofText (t : Text) : Except UnknownLevel LogLevel :=
  match LogLevel.ofText? t with
  | some l => .ok l
  | none => .error ⟨t⟩

/-! ### Lines -/

/-- The value of a field. -/
inductive FieldValue where
  | number (n : Int)
  | text (t : Text)
  deriving DecidableEq, Repr

/-- The value of a field as it is. -/
def FieldValue.plain : FieldValue → Text
  | number n => intText n
  | text t => t

/-- The characters that would make the end of a value unclear to a person. -/
def isUnclearInValue (c : Char) : Bool :=
  [' ', '\t', '=', '\r', '\n', '"', '\''].contains c

/-- The value of a field for a person; quoted where its end would be unclear. -/
def FieldValue.shown : FieldValue → Text
  | number n => intText n
  | text t => if t.any isUnclearInValue then quoted t else t

/-- The value of a field in JSON. -/
def FieldValue.json : FieldValue → Text
  | number n => intText n
  | text t => jsonString true t

/-- What is logged: a level, the name of an event, and fields in the order in which they are
given. -/
structure LogEntry where
  level : LogLevel
  event : Text
  fields : List (Text × FieldValue)
  deriving DecidableEq, Repr

/-- How log lines are written, and from which level on. -/
structure Logging where
  level : LogLevel
  json : Bool
  deriving DecidableEq, Repr

/-- Fields with one set to a value: in its place if it is there, else behind the others. -/
def setField (name : Text) (v : FieldValue) : List (Text × FieldValue) → List (Text × FieldValue)
  | [] => [(name, v)]
  | (n, old) :: rest => if n = name then (n, v) :: rest else (n, old) :: setField name v rest

/-- A text without the spaces at its end. -/
def trimEndSpaces (t : Text) : Text :=
  (t.reverse.dropWhile (· == ' ')).reverse

namespace LogEntry

/-- The names of the fields that a line for a person shows in a way of their own or, those about
exceptions, not at all. -/
def columnNames : List Text :=
  ["timestamp".toList, "level".toList, "event".toList, "logger".toList, "logger_name".toList,
    "stack".toList, "exception".toList, "exc_info".toList]

/-- A line for a person: time, level and event, the names of loggers in brackets, and the other
fields by name. What is empty is left out. -/
def console (e : LogEntry) (time : Text) : Text :=
  let level := e.level.name.toList
  let logger (name : String) : Text :=
    match e.fields.lookup name.toList with
    | none => []
    | some v => ['['] ++ v.plain ++ [']']
  let others := e.fields.filter fun (name, _) => !columnNames.contains name
  let columns :=
    [time, ['['] ++ level ++ List.replicate (9 - level.length) ' ' ++ [']'], e.event,
      logger "logger", logger "logger_name"]
      ++ (others.mergeSort fun a b => textLE a.1 b.1).map fun (name, v) => name ++ ['='] ++ v.shown
  trimEndSpaces (joinWith [' '] (columns.filter (· != []))) ++ ['\n']

/-- The fields of a line for a program: those given, and the event, the level and the time, which
take the place of given fields of their names. -/
def record (e : LogEntry) (time : Text) : List (Text × FieldValue) :=
  setField "timestamp".toList (.text time)
    (setField "level".toList (.text e.level.name.toList)
      (setField "event".toList (.text e.event) e.fields))

/-- A line for a program: its fields as a JSON object. -/
def jsonLine (e : LogEntry) (time : Text) : Text :=
  let entries := (e.record time).map fun (name, v) => jsonString true name ++ [':', ' '] ++ v.json
  ['\x7b'] ++ joinWith [',', ' '] entries ++ ['\x7d', '\n']

end LogEntry

/-- The lines of the entries whose level is high enough. -/
def Logging.lines (l : Logging) (time : Text) (entries : List LogEntry) : Text :=
  (entries.filter fun e => l.level.number ≤ e.level.number).flatMap fun e =>
    if l.json then e.jsonLine time else e.console time

end LazeEdit
