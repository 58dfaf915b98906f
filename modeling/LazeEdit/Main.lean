import LazeEdit.Calendar
import LazeEdit.Command.Run
import Std.Time

/-!
# The program

Reads the files that the arguments name, runs the command and prints what it gives. The transport of
the language server is no part of this program.
-/

namespace LazeEdit

/-- The refusal that an error of the system stands for. Errors of a lookup have their numbers
negated. -/
def refusalOf : IO.Error → Refusal
  | .alreadyExists _ code reason | .otherError code reason | .resourceBusy code reason
  | .resourceVanished code reason | .unsupportedOperation code reason | .hardwareFault code reason
  | .unsatisfiedConstraints code reason | .illegalOperation code reason | .protocolError code reason
  | .timeExpired code reason | .interrupted _ code reason | .noFileOrDirectory _ code reason
  | .invalidArgument _ code reason | .permissionDenied _ code reason
  | .resourceExhausted _ code reason | .inappropriateType _ code reason
  | .noSuchThing _ code reason => .ofNumber code.toInt32.toInt.natAbs reason.capitalize
  | .unexpectedEof => .other 5 "Input/output error"
  | .userError reason => .other 5 reason

/-- Whether a file stands at a path, as against a directory or a device. -/
def lookUp (name : String) : IO (Except Refusal Bool) := do
  try
    let found ← ((← IO.currentDir) / name).metadata
    return .ok (found.type == .file)
  catch e => return .error (refusalOf e)

/-- The bytes at a path. -/
def readBytes (name : String) : IO (Except Refusal (List UInt8)) := do
  try
    let bytes ← IO.FS.readBinFile name
    return .ok bytes.toList
  catch e => return .error (refusalOf e)

/-- What stands at a path. A device may have no end, so it is read only where its bytes are asked
for. -/
def readEntry (readsDevices : Bool) (path : Path) : IO Entry := do
  if path.text.contains '\x00' then return .unaskable
  let name := String.ofList path.text
  match ← lookUp name with
  | .error why => return .refused why
  | .ok isFile =>
    if !isFile && !readsDevices then return .device []
    match ← readBytes name with
    | .error why => return .locked isFile why
    | .ok bytes => return if isFile then .file bytes else .device bytes

/-- The current date and time. -/
def currentTime : IO Text := do
  let now ← Std.Time.Timestamp.now
  return timeText now.toSecondsSinceUnixEpoch.val.toNat

/-- The files that a call of the program may look at. -/
def filesOf (argv : List Text) : IO Files := do
  match parseArguments argv with
  | .error _ => return fun _ => .refused .missing
  | .ok as =>
    let inputs ← as.input?.toList.mapM fun path => return (path, ← readEntry true path)
    let config := (as.configPath, ← readEntry false as.configPath)
    return fun path => ((inputs ++ [config]).lookup path).getD (.refused .missing)

/-- Runs the program and gives its exit code. -/
def runMain (args : List String) : IO UInt32 := do
  let argv := args.map String.toList
  let outcome := runProgram (← currentTime) (← filesOf argv) argv
  (← IO.getStdout).putStr (String.ofList outcome.stdout)
  (← IO.getStderr).putStr (String.ofList outcome.stderr)
  match outcome.ending with
  | .exits code | .halts code => return code.toUInt32
  | .serves _ => return 0
  | .fails failure =>
    (← IO.getStderr).putStrLn (String.ofList failure.message)
    return 1

end LazeEdit

/-- The entry point of the program. -/
def main (args : List String) : IO UInt32 :=
  LazeEdit.runMain args
