import LazeEdit.Text.Basic
import LazeEdit.Token.Basic

/-!
# Masked regions

Comments and literals are regions of a document that the rest of the analysis does not look into.
This module holds their kinds, their spans, and the tokens that a list of spans gives: one for each
line that a region covers.
-/

namespace LazeEdit

/-- The kinds of literals, by their marks. -/
inductive Quote where
  | char
  | string
  | quoted
  deriving DecidableEq, Repr

namespace Quote

/-- Whether a character begins a literal of a kind. -/
def opens : Quote → Char → Bool
  | char, c => c == '\'' || c == '’' || c == '＇'
  | string, c => c == '"' || c == '”' || c == '＂'
  | quoted, c => c == '「'

/-- Whether a character ends a literal of a kind. -/
def closes : Quote → Char → Bool
  | quoted, c => c == '」'
  | q, c => q.opens c

/-- The kind of literal that a character begins. -/
def ofOpening? (c : Char) : Option Quote :=
  [char, string, quoted].find? (·.opens c)

end Quote

/-- The marks of character literals. -/
def charQuotes : Text := ['\'', '’', '＇']

/-- The marks of string literals. -/
def stringQuotes : Text := ['"', '”', '＂']

/-- The kinds of masked regions. A literal that its line ends is not closed. -/
inductive MaskKind where
  | lineComment
  | blockComment
  | literal (quote : Quote) (closed : Bool)
  deriving DecidableEq, Repr

namespace MaskKind

/-- The kinds, each literal closed and then unclosed. -/
def all : List MaskKind :=
  [lineComment, blockComment, literal .char true, literal .char false, literal .string true,
    literal .string false, literal .quoted true, literal .quoted false]

/-- The name of a kind. -/
def name : MaskKind → String
  | lineComment => "LINE_COMMENT"
  | blockComment => "BLOCK_COMMENT"
  | literal .char true => "CHAR_LITERAL"
  | literal .char false => "INVALID_CHAR_LITERAL"
  | literal .string true => "STRING_LITERAL"
  | literal .string false => "INVALID_STRING_LITERAL"
  | literal .quoted true => "QUOTED_LITERAL"
  | literal .quoted false => "INVALID_QUOTED_LITERAL"

/-- The kind of a name. -/
def ofName? (s : String) : Option MaskKind :=
  all.find? (·.name == s)

/-- Whether a kind is that of an unclosed literal. -/
def invalid : MaskKind → Bool
  | literal _ closed => !closed
  | _ => false

/-- The kind of token that a region gives. -/
def tokenType : MaskKind → TokenType
  | lineComment | blockComment => .comment
  | literal .char _ => .char
  | literal _ _ => .string

/-- The modifiers of the tokens that a region gives. -/
def modifiers (k : MaskKind) : Modifiers :=
  if k.invalid then .only .invalid else .none

end MaskKind

/-- A masked region of a document. -/
structure MaskSpan where
  start : Int
  length : Int
  kind : MaskKind
  deriving DecidableEq, Repr

/-- The offset just behind a region. -/
def MaskSpan.stop (s : MaskSpan) : Int :=
  s.start + s.length

/-- One token for each piece that is not empty, where the first piece begins at `start` and a line
feed stands between one piece and the next. -/
def pieceTokens (kind : MaskKind) (start : Int) : List Text → List TokenSpan
  | [] => []
  | piece :: pieces =>
    let later := pieceTokens kind (start + piece.length + 1) pieces
    if piece.isEmpty then later
    else ⟨start, piece.length, kind.tokenType, kind.modifiers⟩ :: later

/-- The tokens of a region: one for each line that it covers with at least one character. -/
def MaskSpan.tokens (t : Text) (s : MaskSpan) : List TokenSpan :=
  pieceTokens s.kind s.start (splitAtChar '\n' (slice t s.start s.stop))

/-- The tokens of regions, in the order of the regions. -/
def maskTokens (t : Text) (ss : List MaskSpan) : List TokenSpan :=
  ss.flatMap (·.tokens t)

end LazeEdit
