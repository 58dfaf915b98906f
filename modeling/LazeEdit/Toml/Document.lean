import LazeEdit.Toml.Scalar

/-!
# TOML documents

A document is a list of statements: entries, table headers and comments. Tables may be opened in any
order, but none is opened twice, and what an entry writes as an inline table or array stays as it
is.
-/

namespace LazeEdit.Toml

/-! ### Keys and values -/

/-- The characters of names without quotes. -/
def isBareKeyChar (c : Char) : Bool :=
  isDigit c || ('a' ≤ c && c ≤ 'z') || ('A' ≤ c && c ≤ 'Z') || c == '-' || c == '_'

/-- Whether a character begins a name of a key. -/
def isKeyStart (c : Char) : Bool :=
  isBareKeyChar c || c == '"' || c == '\''

/-- One name of a key. -/
def keyPart (s : Site) : Except Error (Text × Site) :=
  match s.rest with
  | '\'' :: _ => literalString s
  | '"' :: _ => basicString s
  | c :: _ =>
    if isBareKeyChar c then
      let stop := s.skipWhile isBareKeyChar
      .ok (s.textTo stop, stop)
    else fail .keyStart s.offset
  | [] => fail .keyStart s.offset

/-- The names of a key, with points between them, and the blanks behind them. -/
def keyParts : Nat → Site → Except Error (Key × Site)
  | 0, s => fail .keyStart s.offset
  | steps + 1, s => do
    let (name, stop) ← keyPart s
    let behind := skipSpaces stop
    match behind.rest with
    | '.' :: _ => do
      let (names, stop) ← keyParts steps (skipSpaces (behind.advance 1))
      return (name :: names, stop)
    | _ => return ([name], behind)

/-- The key at a place, with the blanks behind it. -/
def key (s : Site) : Except Error (Key × Site) :=
  keyParts (s.rest.length + 1) s

/-- What is wrong with an entry of an inline table. -/
inductive EntryFault where
  | barred
  | taken
  deriving DecidableEq, Repr

/-- The table with a new entry; a name that is there already is a fault. -/
def addEntry (name : Text) (v : Value) (t : Table) : Except EntryFault Table :=
  match t.get? name with
  | some _ => .error .taken
  | none => .ok (t.put name v)

/-- The last name of a key. -/
def lastName (key : Key) : Text :=
  key.getLast?.getD []

mutual

/-- The value at a place. Each step into a value takes at least one character. -/
def value : Nat → Site → Except Error (Value × Site)
  | 0, s => fail .value s.offset
  | steps + 1, s =>
    let asString (r : Except Error (Text × Site)) : Except Error (Value × Site) :=
      r.map fun (t, stop) => (.string t, stop)
    match s.rest with
    | '"' :: '"' :: '"' :: _ => asString (linesString '"' s)
    | '"' :: _ => asString (basicString s)
    | '\'' :: '\'' :: '\'' :: _ => asString (linesString '\'' s)
    | '\'' :: _ => asString (literalString s)
    | 't' :: 'r' :: 'u' :: 'e' :: _ => .ok (.boolean true, s.advance 4)
    | 'f' :: 'a' :: 'l' :: 's' :: 'e' :: _ => .ok (.boolean false, s.advance 5)
    | '[' :: _ => do
      let start ← skipFiller (s.advance 1)
      let (values, stop) ← arrayItems steps start
      return (.array values, stop)
    | '\x7b' :: _ =>
      let start := skipSpaces (s.advance 1)
      match start.rest with
      | '\x7d' :: _ => .ok (.table [], start.advance 1)
      | _ => inlineEntries steps [] [] start
    | _ => quantity s

/-- The values of an array up to its closing bracket. -/
def arrayItems : Nat → Site → Except Error (List Value × Site)
  | 0, s => fail .value s.offset
  | steps + 1, s =>
    match s.rest with
    | ']' :: _ => .ok ([], s.advance 1)
    | _ => do
      let (v, stop) ← value steps s
      let behind ← skipFiller stop
      match behind.rest with
      | ']' :: _ => return ([v], behind.advance 1)
      | ',' :: _ => do
        let next ← skipFiller (behind.advance 1)
        let (values, stop) ← arrayItems steps next
        return (v :: values, stop)
      | _ => fail .openArray behind.offset

/-- The entries of an inline table up to its closing brace, after those read so far, of which some
hold values that stay as they are. -/
def inlineEntries : Nat → Table → List Key → Site → Except Error (Value × Site)
  | 0, _, _, s => fail .value s.offset
  | steps + 1, table, fixed, s => do
    let (key, v, stop) ← keyValue steps s
    if fixed.any (·.isPrefixOf key) then fail (.immutable key) stop.offset
    else
      match table.alter false .barred key.dropLast (addEntry (lastName key) v) with
      | .error .barred => fail .overwrites stop.offset
      | .error .taken => fail (.duplicate (lastName key)) stop.offset
      | .ok table =>
        let behind := skipSpaces stop
        match behind.rest with
        | '\x7d' :: _ => return (.table table, behind.advance 1)
        | ',' :: _ =>
          let fixed := if v.isContainer then key :: fixed else fixed
          inlineEntries steps table fixed (skipSpaces (behind.advance 1))
        | _ => fail .openTable behind.offset

/-- A key, an equals sign and a value. -/
def keyValue : Nat → Site → Except Error (Key × Value × Site)
  | 0, s => fail .value s.offset
  | steps + 1, s => do
    let (key, behind) ← key s
    match behind.rest with
    | '=' :: _ => do
      let (v, stop) ← value steps (skipSpaces (behind.advance 1))
      return (key, v, stop)
    | _ => fail .equalsSign behind.offset

end

/-! ### Statements -/

/-- What is settled about a key: that its table is open, or that its value stays as it is. -/
inductive Settled where
  | opened
  | fixed
  deriving DecidableEq, Repr

/-- A settled key; a deep one settles all keys below it too. -/
structure Mark where
  key : Key
  settled : Settled
  deep : Bool
  deriving DecidableEq, Repr

/-- Whether a key is settled in a way. -/
def isSettled (marks : List Mark) (key : Key) (settled : Settled) : Bool :=
  key != [] && marks.any fun m =>
    m.settled = settled && (m.key = key || (m.deep && m.key.isPrefixOf key))

/-- A document as far as it is read. -/
structure Draft where
  root : Table := []
  marks : List Mark := []
  /-- Tables that entries have made, which the next header settles. -/
  pending : List Key := []
  header : Key := []
  deriving Repr

/-- The tables on the way to an entry, outermost first, without the header's own. -/
def tablesOnWay (header key : Key) : List Key :=
  (List.range (key.length - 1)).map fun i => header ++ key.take (i + 1)

/-- Adds an entry to the table of the header. -/
def Draft.addValue (d : Draft) (key : Key) (v : Value) (offset : Nat) : Except Error Draft :=
  let way := tablesOnWay d.header key
  match way.find? fun k => isSettled d.marks k .opened with
  | some k => fail (.redefines k) offset
  | none =>
    let parent := d.header ++ key.dropLast
    if isSettled d.marks parent .fixed then fail (.immutable parent) offset
    else
      match d.root.alter true .barred parent (addEntry (lastName key) v) with
      | .error _ => fail .overwrites offset
      | .ok root =>
        let marks := if v.isContainer then ⟨d.header ++ key, .fixed, true⟩ :: d.marks else d.marks
        .ok { d with root := root, marks := marks, pending := way ++ d.pending }

/-- Settles the tables that entries have made. -/
def Draft.settle (d : Draft) : Draft :=
  { d with marks := d.pending.map (⟨·, .opened, false⟩) ++ d.marks, pending := [] }

/-- Opens the table of a key. -/
def Draft.openTable (d : Draft) (key : Key) (offset : Nat) : Except Error Draft :=
  if isSettled d.marks key .opened || isSettled d.marks key .fixed then
    fail (.declaredTwice key) offset
  else
    match d.root.alter true EntryFault.barred key .ok with
    | .error _ => fail .overwrites offset
    | .ok root =>
      .ok { d with root := root, marks := ⟨key, .opened, false⟩ :: d.marks, header := key }

/-- The table with one more table in the array of a name, which is made if it is missing. -/
def appendTable (name : Text) (t : Table) : Except EntryFault Table :=
  match t.get? name with
  | none => .ok (t.put name (.array [.table []]))
  | some (.array values) => .ok (t.put name (.array (values ++ [.table []])))
  | some _ => .error .taken

/-- Opens one more table in the array of a key, and frees what was settled below the last one. -/
def Draft.openArrayTable (d : Draft) (key : Key) (offset : Nat) : Except Error Draft :=
  if isSettled d.marks key .fixed then fail (.immutable key) offset
  else
    match d.root.alter true .barred key.dropLast (appendTable (lastName key)) with
    | .error _ => fail .overwrites offset
    | .ok root =>
      let marks := d.marks.filter fun m => !key.isPrefixOf m.key
      .ok { d with root := root, marks := ⟨key, .opened, false⟩ :: marks, header := key }

/-- The header statement at a bracket. -/
def headerStatement (d : Draft) (s : Site) : Except Error (Draft × Site) := do
  let d := d.settle
  match s.rest with
  | '[' :: '[' :: _ =>
    let (key, stop) ← key (skipSpaces (s.advance 2))
    let d ← d.openArrayTable key stop.offset
    match stop.rest with
    | ']' :: ']' :: _ => return (d, stop.advance 2)
    | _ => fail .arrayOfTablesEnd stop.offset
  | _ =>
    let (key, stop) ← key (skipSpaces (s.advance 1))
    let d ← d.openTable key stop.offset
    match stop.rest with
    | ']' :: _ => return (d, stop.advance 1)
    | _ => fail .tableEnd stop.offset

/-- The entry, header or comment at a place, without the line end behind it. -/
def statement (d : Draft) (s : Site) : Except Error (Draft × Site) :=
  match s.rest with
  | '#' :: _ => .ok (d, s)
  | '[' :: _ => do
    let (d, stop) ← headerStatement d s
    return (d, skipSpaces stop)
  | c :: _ =>
    if isKeyStart c then do
      let (key, v, stop) ← keyValue (3 * s.rest.length + 8) s
      let d ← d.addValue key v stop.offset
      return (d, skipSpaces stop)
    else fail .statement s.offset
  | [] => .ok (d, s)

/-- The document that the statements from a place on complete. Each takes at least one character. -/
def statements : Nat → Draft → Site → Except Error Draft
  | 0, d, _ => .ok d
  | steps + 1, d, s =>
    let start := skipSpaces s
    match start.rest with
    | [] => .ok d
    | '\n' :: _ => statements steps d (start.advance 1)
    | _ => do
      let (d, stop) ← statement d start
      let behind ← skipComment stop
      match behind.rest with
      | [] => return d
      | '\n' :: _ => statements steps d (behind.advance 1)
      | _ => fail .statementEnd behind.offset

/-- The table that a document writes. -/
def parse (document : Text) : Except Error Table :=
  (statements (document.length + 1) {} ⟨0, none, document⟩).map Draft.root

end LazeEdit.Toml
