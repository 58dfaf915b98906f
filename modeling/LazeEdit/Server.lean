import LazeEdit.Analysis
import LazeEdit.Files
import LazeEdit.Text.Percent

/-!
# The language server

A session holds the texts of the open documents and answers requests about them. A document is known
by its address, in which characters may be escaped. One that is not open is looked for among the
files.
-/

namespace LazeEdit

/-! ### Documents -/

/-- The name of the document at an address, the same for all ways to write the address. -/
def documentName (address : Text) : Text :=
  unescapePercent address

/-- The path of the file at an address. Tabs and line ends in an address do not count, and a query
or a fragment is no part of the path. -/
def documentPath (address : Text) : Path :=
  let written := address.filter fun c => c != '\t' && c != '\n' && c != '\r'
  Path.ofText (unescapePercent (written.takeWhile fun c => c != '?' && c != '#'))

/-- The open documents, each name once. -/
structure Session where
  documents : List (Text × Text) := []
  deriving DecidableEq, Repr

/-! ### Positions -/

/-- The parts of a position in a request. -/
inductive Coordinate where
  | line
  | character
  deriving DecidableEq, Repr

/-- The name of a part of a position. -/
def Coordinate.name : Coordinate → String
  | line => "line"
  | character => "character"

/-- The greatest number that a position may hold. -/
def maxCoordinate : Nat := 2147483647

/-- A number that no position may hold. -/
structure OutOfRange where
  coordinate : Coordinate
  value : Int
  deriving DecidableEq, Repr

/-- The words for a number that no position may hold. -/
def OutOfRange.message (e : OutOfRange) : String :=
  "Position." ++ e.coordinate.name ++ " should be in range [0:" ++ toString maxCoordinate
    ++ "], but was " ++ toString e.value ++ "."

/-- The first number of a position that is out of range. -/
def outOfRange? (row column : Int) : Option OutOfRange :=
  [⟨.line, row⟩, ⟨.character, column⟩].find? fun (e : OutOfRange) =>
    e.value < 0 || (maxCoordinate : Int) < e.value

/-! ### Requests -/

/-- Why a request is not answered. -/
inductive RequestError where
  | position (cause : OutOfRange)
  | unreadable (cause : ReadError)
  | unresolved (cause : ResolveError)
  deriving DecidableEq, Repr

namespace Session

/-- Opens a document, or replaces its text. -/
def openDocument (s : Session) (address text : Text) : Session :=
  ⟨(documentName address, text) :: s.documents.filter fun d => d.1 ≠ documentName address⟩

/-- Closes a document, if it is open. -/
def closeDocument (s : Session) (address : Text) : Session :=
  ⟨s.documents.filter fun d => d.1 ≠ documentName address⟩

/-- The analysis of the document at an address. -/
def analysis (s : Session) (files : Files) (address : Text) : Except RequestError Analysis :=
  match s.documents.lookup (documentName address) with
  | some text => .ok (analyze text)
  | none =>
    match (files (documentPath address)).text with
    | .ok text => .ok (analyze text)
    | .error e => .error (.unreadable e)

/-- The spans of a document in their wire form. -/
def semanticTokens (s : Session) (files : Files) (address : Text) :
    Except RequestError (List Int) :=
  (s.analysis files address).map Analysis.semanticTokens

/-- The suggestions at a position of a document, templates included. -/
def complete (s : Session) (files : Files) (address : Text) (row column : Int) :
    Except RequestError (List Item) :=
  match outOfRange? row column with
  | some e => .error (.position e)
  | none => do
    match (← s.analysis files address).complete row column true with
    | .ok items => return items
    | .error e => throw (.unresolved e)

end Session

end LazeEdit
