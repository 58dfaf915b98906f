import LazeEdit.Text.Basic

/-!
# Paths

A path is a list of parts below a root or below the current directory. Writing it as text drops
empty parts and single dots; two dots stay.
-/

namespace LazeEdit

/-- Where a path begins. Exactly two slashes are a root of their own. -/
inductive Root where
  | relative
  | slash
  | doubleSlash
  deriving DecidableEq, Repr

/-- The root as it is written. -/
def Root.text : Root → Text
  | relative => []
  | slash => ['/']
  | doubleSlash => ['/', '/']

/-- A path. -/
structure Path where
  root : Root
  parts : List Text
  deriving DecidableEq, Repr

namespace Path

/-- The root of a path that is written with some slashes in front. -/
def rootOf (slashes : Nat) : Root :=
  match slashes with
  | 0 => .relative
  | 2 => .doubleSlash
  | _ => .slash

/-- The path that a text writes. -/
def ofText (t : Text) : Path :=
  ⟨rootOf (t.takeWhile (· == '/')).length,
    (splitAtChar '/' t).filter fun part => part != [] && part != ['.']⟩

/-- A path as text; the current directory is a dot. -/
def text (p : Path) : Text :=
  match p.root, p.parts with
  | .relative, [] => ['.']
  | root, parts => root.text ++ joinWith ['/'] parts

/-- The directory of a path; that of a root is the root itself. -/
def parent (p : Path) : Path :=
  ⟨p.root, p.parts.dropLast⟩

/-- The path of a name in a directory. -/
def child (p : Path) (name : Text) : Path :=
  ⟨p.root, p.parts ++ [name]⟩

end Path

end LazeEdit
