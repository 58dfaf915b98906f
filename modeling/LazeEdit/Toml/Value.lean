import LazeEdit.Decimal.Binary64
import LazeEdit.Text.Basic

/-!
# TOML values

The values of a TOML document, and the ways to reach into a table along a key.
-/

namespace LazeEdit.Toml

/-- A key: the names on the way to an entry. -/
abbrev Key := List Text

/-- A value of a document. Dates and times are kept as they are written. -/
inductive Value where
  | string (text : Text)
  | integer (number : Int)
  | float (number : Binary64)
  | boolean (truth : Bool)
  | moment (text : Text)
  | array (values : List Value)
  | table (entries : List (Text × Value))
  deriving Repr

/-- The entries of a table, in the order in which they were made. -/
abbrev Table := List (Text × Value)

/-- Whether a value is an array or a table. -/
def Value.isContainer : Value → Bool
  | array _ | table _ => true
  | _ => false

namespace Table

/-- The value of a name. -/
def get? (t : Table) (name : Text) : Option Value :=
  t.lookup name

/-- The table in which a name has a value, in its old place or at the end. -/
def put (name : Text) (v : Value) : Table → Table
  | [] => [(name, v)]
  | (n, old) :: t => if n = name then (n, v) :: t else (n, old) :: put name v t

/-- The table in which the table at a key is changed; missing tables on the way are made. With
`throughArrays` an array on the way stands for its last table. The result is undefined where the way
is barred by another value. -/
def alter {ε : Type} (throughArrays : Bool) (barred : ε) :
    Key → (Table → Except ε Table) → Table → Except ε Table
  | [], f, t => f t
  | name :: key, f, t =>
    match t.get? name with
    | none => do
      let inner ← alter throughArrays barred key f []
      return t.put name (.table inner)
    | some (.table inner) => do
      let inner ← alter throughArrays barred key f inner
      return t.put name (.table inner)
    | some (.array values) =>
      match throughArrays, values.getLast? with
      | true, some (.table inner) => do
        let inner ← alter throughArrays barred key f inner
        return t.put name (.array (values.dropLast ++ [.table inner]))
      | _, _ => .error barred
    | some _ => .error barred

end Table

end LazeEdit.Toml
