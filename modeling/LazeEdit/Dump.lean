import LazeEdit.Analysis
import LazeEdit.Text.Quoted

/-!
# Dumps

Spans and events as lines for people to read. A span shows its position, length, kind, modifiers and
text; an event shows its position, kind, name and type, further right the more stretches are open.
-/

namespace LazeEdit

/-- A position as row and column. -/
def Position.text (p : Position) : Text :=
  intText p.row ++ [':'] ++ intText p.column

/-- The names of some modifiers, or a dash for none. -/
def Modifiers.text (ms : Modifiers) : Text :=
  match ms.toList with
  | [] => ['-']
  | names => joinWith [','] (names.map fun m => m.name.toList)

/-- A source as one line of text. -/
def Source.display (s : Source) : Text :=
  "SourceText(".toList ++ quoted s.text ++ [')']

namespace Analysis

/-- The line of a span. -/
def tokenLine (a : Analysis) (s : TokenSpan) : Text :=
  joinWith [' ']
    [(a.source.position s.start).text, intText s.length, s.type.name.toList, s.modifiers.text,
      quoted (a.spanText s)] ++ ['\n']

/-- The lines of all spans. -/
def dumpTokens (a : Analysis) : Text :=
  a.tokens.flatMap a.tokenLine

/-- The line of an event, `depth` steps to the right. -/
def eventLine (a : Analysis) (depth : Nat) (e : ScopeEvent) : Text :=
  List.replicate (2 * depth) ' ' ++ (a.source.position e.offset).text ++ [' '] ++ e.kind.name.toList
    ++ (if e.name.isEmpty then [] else ' ' :: e.name)
    ++ (match e.declaredType with
      | none | some [] => []
      | some type => [' ', ':', ' '] ++ type)
    ++ ['\n']

/-- The lines of some events, where `depth` stretches are open before them. -/
def eventLines (a : Analysis) (depth : Nat) : List ScopeEvent → Text
  | [] => []
  | e :: es =>
    match e.kind with
    | .opens _ => a.eventLine depth e ++ a.eventLines (depth + 1) es
    | .closes _ => a.eventLine (depth - 1) e ++ a.eventLines (depth - 1) es
    | _ => a.eventLine depth e ++ a.eventLines depth es

/-- The lines of all events. -/
def dumpEvents (a : Analysis) : Text :=
  a.eventLines 0 a.events

end Analysis

end LazeEdit
