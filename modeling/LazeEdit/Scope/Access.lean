import LazeEdit.Text.Quoted
import LazeEdit.Token.Basic

/-!
# Access levels

Members of a class may be meant for everyone, for the class itself or for its heirs as well.
-/

namespace LazeEdit

/-- Who may use a symbol. -/
inductive Access where
  | everyone
  | owner
  | heirs
  deriving DecidableEq, Repr

namespace Access

/-- The name of an access level. -/
def name : Access → String
  | everyone => "public"
  | owner => "private"
  | heirs => "protected"

/-- The access level of a name. -/
def ofName? (s : String) : Option Access :=
  [everyone, owner, heirs].find? (·.name == s)

/-- The access level of a name, or the error that says there is none. -/
def ofName (s : String) : Except UnknownMember Access :=
  match ofName? s with
  | some a => .ok a
  | none => .error ⟨"Access", String.ofList (quoted s.toList)⟩

end Access

end LazeEdit
