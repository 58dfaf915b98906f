import LazeEdit.Classification.Passes
import LazeEdit.Completion.Item
import LazeEdit.Completion.Resolver
import LazeEdit.Mask.Segment
import LazeEdit.Scope.Build
import LazeEdit.Token.Merge
import LazeEdit.Token.Wire

/-!
# Analysing a document

The whole way from a text to its highlighted spans and scope events, and the completion requests
that are answered from them.
-/

namespace LazeEdit

/-- The version of the analysis. -/
def version : String := "0.1.0"

/-- All that is known of a document. -/
structure Analysis where
  source : Source
  masked : Text
  masks : List MaskSpan
  tokens : List TokenSpan
  events : List ScopeEvent
  classes : List Text
  deriving DecidableEq, Repr

/-- Analyses a document. -/
def analyze (t : Text) : Analysis :=
  let masked := maskText t
  let masks := maskSpans t
  let found := classify masked
  { source := .ofText t
    masked := masked
    masks := masks
    tokens := mergeSpans (maskTokens t masks ++ found.tokens)
    events := scopeEvents masked found
    classes := found.classNames }

namespace Analysis

/-- The spans of a document in their wire form. -/
def semanticTokens (a : Analysis) : List Int :=
  Wire.encode a.source a.tokens

/-- The text of a span. -/
def spanText (a : Analysis) (s : TokenSpan) : Text :=
  slice a.source.text s.start s.stop

/-- The suggestions at an editor position: the templates, if wanted, and then the symbols in
view. -/
def complete (a : Analysis) (row column : Int) (withSnippets : Bool) :
    Except ResolveError (List Item) :=
  (visibleAtPosition a.source a.events row column).map fun symbols =>
    (if withSnippets then snippets else []) ++ symbols.map Item.ofSymbol

end Analysis

end LazeEdit
