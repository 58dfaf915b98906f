import LazeEdit.Mask.Basic

/-!
# Segments

Reading a document from left to right cuts it into segments: a plain character, or a whole comment
or literal. Masking replaces every character of a region except line feeds by a space, so that
length and lines stay as they are.
-/

namespace LazeEdit

/-- The length of the rest of a block comment, from behind its opening mark. Two slashes, or a slash
and a star, are read as one mark, so that their second character begins no closing mark. -/
def blockCommentRest : Text → Nat
  | '*' :: '/' :: _ => 2
  | '/' :: '/' :: cs => blockCommentRest cs + 2
  | '/' :: '*' :: cs => blockCommentRest cs + 2
  | _ :: cs => blockCommentRest cs + 1
  | [] => 0

/-- The characters of a literal behind its opening mark, up to its closing mark or line end. -/
def literalBody (q : Quote) (t : Text) : Text :=
  t.takeWhile fun c => !q.closes c && c != '\n'

/-- The literal that goes on with `t` behind its opening mark: its kind and whole length. -/
def literalRegion (q : Quote) (t : Text) : MaskKind × Nat :=
  let body := literalBody q t
  match t.drop body.length with
  | c :: _ =>
    if q.closes c then (.literal q true, body.length + 2) else (.literal q false, body.length + 1)
  | [] => (.literal q false, body.length + 1)

/-- The region that begins a text: its kind and length. -/
def leadingRegion? : Text → Option (MaskKind × Nat)
  | '/' :: '/' :: cs => some (.lineComment, (cs.takeWhile (· != '\n')).length + 2)
  | '/' :: '*' :: cs => some (.blockComment, blockCommentRest cs + 2)
  | c :: cs => (Quote.ofOpening? c).map fun q => literalRegion q cs
  | [] => none

/-- A piece of a document: a plain character, or a comment or literal. -/
inductive Segment where
  | plain (c : Char)
  | region (kind : MaskKind) (text : Text)
  deriving DecidableEq, Repr

/-- The segments of a text whose first `skip` characters belong to a segment before it. -/
def segmentsFrom (skip : Nat) : Text → List Segment
  | [] => []
  | c :: cs =>
    match skip with
    | k + 1 => segmentsFrom k cs
    | 0 =>
      match leadingRegion? (c :: cs) with
      | some (kind, n) => .region kind ((c :: cs).take n) :: segmentsFrom (n - 1) cs
      | none => .plain c :: segmentsFrom 0 cs

/-- The segments of a text, from left to right. -/
def segments (t : Text) : List Segment :=
  segmentsFrom 0 t

namespace Segment

/-- The characters of a segment. -/
def text : Segment → Text
  | plain c => [c]
  | region _ t => t

/-- The characters of a segment with those of a region blanked out, line feeds apart. -/
def masked : Segment → Text
  | plain c => [c]
  | region _ t => t.map fun c => if c = '\n' then c else ' '

/-- The regions among segments, where the first segment begins at `start`. -/
def spansFrom (start : Nat) : List Segment → List MaskSpan
  | [] => []
  | plain _ :: ss => spansFrom (start + 1) ss
  | region kind t :: ss => ⟨start, t.length, kind⟩ :: spansFrom (start + t.length) ss

end Segment

/-- The comments and literals of a text, in order. -/
def maskSpans (t : Text) : List MaskSpan :=
  Segment.spansFrom 0 (segments t)

/-- The text with its comments and literals blanked out. -/
def maskText (t : Text) : Text :=
  (segments t).flatMap Segment.masked

end LazeEdit
