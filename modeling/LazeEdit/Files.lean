import LazeEdit.Path
import LazeEdit.Text.Lines
import LazeEdit.Text.Quoted
import LazeEdit.Text.Utf8

/-!
# Files

What stands at a path, and reading it as text. A tree of files can be held in memory.
-/

namespace LazeEdit

/-- Why the system does not look up a path, or does not give out the bytes there. -/
inductive Refusal where
  | missing
  /-- A part before the last one is a file. -/
  | belowFile
  | directory
  /-- A name, or the whole path, has more bytes than the system takes. -/
  | nameTooLong
  | other (number : Nat) (reason : String)
  deriving DecidableEq, Repr

namespace Refusal

/-- The number that the system gives a refusal. -/
def number : Refusal → Nat
  | missing => 2
  | belowFile => 20
  | directory => 21
  | nameTooLong => 36
  | other number _ => number

/-- The system's words for a refusal. -/
def reason : Refusal → String
  | missing => "No such file or directory"
  | belowFile => "Not a directory"
  | directory => "Is a directory"
  | nameTooLong => "File name too long"
  | other _ reason => reason

/-- The refusal of a number. The reason is that of a refusal without a name of its own. -/
def ofNumber (number : Nat) (reason : String) : Refusal :=
  match number with
  | 2 => missing
  | 20 => belowFile
  | 21 => directory
  | 36 => nameTooLong
  | 40 => other 40 "Too many levels of symbolic links"
  | _ => other number reason

/-- The numbers of the refusals to look up a path that mean that nothing stands there: it is
missing, below a file or behind links that lead in a circle, or its descriptor is closed. -/
def absentNumbers : List Nat :=
  [2, 20, 9, 40]

/-- Whether the refusal to look up a path means that nothing stands there. -/
def meansAbsent (why : Refusal) : Bool :=
  absentNumbers.contains why.number

end Refusal

/-- The words for the refusal of a path. -/
def Refusal.message (why : Refusal) (path : Path) : Text :=
  "[Errno ".toList ++ intText why.number ++ [']', ' '] ++ why.reason.toList ++ [':', ' ']
    ++ quoted path.text

/-- What stands at a path. Whether something is there and what its bytes are is asked of the system
apart, and it may refuse to answer either. -/
inductive Entry where
  | file (bytes : List UInt8)
  /-- A device or a pipe: no file, but bytes can be read from it. -/
  | device (bytes : List UInt8)
  /-- Something whose bytes are not given out: a file, or else a directory or a device. -/
  | locked (isFile : Bool) (why : Refusal)
  /-- The path is not looked up. -/
  | refused (why : Refusal)
  /-- The path has a null character, so that the system cannot even be asked. -/
  | unaskable
  deriving DecidableEq, Repr

/-- The files that a program sees. -/
abbrev Files := Path → Entry

/-- Why a path cannot be read as text. -/
inductive ReadError where
  | refused (why : Refusal)
  | unaskable
  | undecodable (cause : Utf8.Error)
  deriving DecidableEq, Repr

/-- The words for why a path cannot be read. -/
def ReadError.message (path : Path) : ReadError → Text
  | refused why => why.message path
  | unaskable => "embedded null byte".toList
  | undecodable cause => cause.message.toList

/-- The text of the bytes of a file, with line feeds as line ends. -/
def readText (bytes : List UInt8) : Except Utf8.Error Text :=
  (Utf8.decode bytes).map normalizeLineEnds

/-- The text of what stands at a path. -/
def Entry.text : Entry → Except ReadError Text
  | file bytes | device bytes => (readText bytes).mapError .undecodable
  | locked _ why | refused why => .error (.refused why)
  | unaskable => .error .unaskable

/-- The greatest number of bytes of a name. -/
def maxNameBytes : Nat := 255

/-- The greatest number of bytes of a path. -/
def maxPathBytes : Nat := 4095

/-! ### Trees of files in memory -/

/-- A tree of files. -/
inductive Tree where
  | file (bytes : List UInt8)
  | directory (entries : List (Text × Tree))
  deriving Repr

namespace Tree

/-- The entries of a directory with one changed or added. -/
def putEntry (name : Text) (t : Tree) : List (Text × Tree) → List (Text × Tree)
  | [] => [(name, t)]
  | (n, old) :: rest => if n = name then (n, t) :: rest else (n, old) :: putEntry name t rest

/-- The entries of a tree; a file has none. -/
def entries : Tree → List (Text × Tree)
  | file _ => []
  | directory es => es

/-- The tree with something put at the end of a path; directories on the way are made. A directory
that is there already is kept when a directory is put. -/
def insert (content : Option (List UInt8)) : List Text → Tree → Tree
  | [], t =>
    match content with
    | some bytes => file bytes
    | none => directory t.entries
  | name :: names, t =>
    let inner := (t.entries.lookup name).getD (directory [])
    directory (putEntry name (insert content names inner) t.entries)

/-- What stands at the end of a path, where `above` are the directories around the current one,
innermost first. -/
def find (above : List Tree) : List Text → Tree → Entry
  | [], file bytes => .file bytes
  | [], directory _ => .locked false .directory
  | _ :: _, file _ => .refused .belowFile
  | name :: names, t@(directory es) =>
    if name = ['.', '.'] then
      match above with
      | [] => find [] names (directory [])
      | parent :: above => find above names parent
    else if maxNameBytes < (Utf8.encode name).length then .refused .nameTooLong
    else
      match es.lookup name with
      | none => .refused .missing
      | some inner => find (t :: above) names inner

/-- The files of a tree whose root is the current directory. Nothing else is seen. -/
def files (t : Tree) : Files := fun path =>
  if path.text.contains '\x00' then .unaskable
  else if maxPathBytes < (Utf8.encode path.text).length then .refused .nameTooLong
  else
    match path.root with
    | .relative => t.find [] path.parts
    | _ => (directory []).find [] path.parts

/-- The tree of a list of paths and what stands there: bytes, or a directory. -/
def ofList (contents : List (Path × Option (List UInt8))) : Tree :=
  contents.foldl (fun t (path, content) => t.insert content path.parts) (directory [])

end Tree

end LazeEdit
