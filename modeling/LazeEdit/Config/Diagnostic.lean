import LazeEdit.Path
import LazeEdit.Text.Lines

/-!
# Configuration diagnostics

What is wrong with a configuration file, and where. When the place is known, the diagnostic shows
the line of the file with a mark under the column.
-/

namespace LazeEdit

/-- A fault of a configuration file. Lines and columns count from one. -/
structure Diagnostic where
  message : Text
  path : Path
  line : Option Int := none
  column : Option Int := none
  source : Text := []
  deriving DecidableEq, Repr

namespace Diagnostic

/-- The column that is shown; a missing or zero one is the first. -/
def shownColumn (d : Diagnostic) : Int :=
  match d.column with
  | none => 1
  | some c => if c = 0 then 1 else c

/-- The line of the file that is shown; empty when the file has no such line. -/
def shownLine (source : Text) (line : Int) : Text :=
  if line ≤ 0 then [] else ((terminalLines source)[(line - 1).toNat]?).getD []

/-- The diagnostic as text, without a line feed at its end. -/
def format (d : Diagnostic) : Text :=
  let head := "error: ".toList ++ d.message ++ ['\n']
  match d.line with
  | none => head ++ "  --> ".toList ++ d.path.text
  | some line =>
    let column := d.shownColumn
    let label := intText line
    let gutter := List.replicate (label.length + 1) ' '
    head
      ++ gutter ++ "--> ".toList ++ d.path.text ++ [':'] ++ label ++ [':'] ++ intText column
      ++ ['\n']
      ++ gutter ++ ['|', '\n']
      ++ label ++ [' ', '|', ' '] ++ shownLine d.source line ++ ['\n']
      ++ gutter ++ ['|', ' '] ++ List.replicate (column - 1).toNat ' ' ++ ['^']

end Diagnostic

end LazeEdit
