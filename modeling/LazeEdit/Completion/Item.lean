import LazeEdit.Completion.Symbol

/-!
# Completion items

What an editor is handed for one suggestion, and the templates that every request may offer.
-/

namespace LazeEdit

/-- The kinds of suggestions. -/
inductive ItemKind where
  | function
  | value
  | classType
  | text
  | snippet
  deriving DecidableEq, Repr

namespace ItemKind

/-- The name of a kind of suggestion. -/
def name : ItemKind → String
  | function => "Function"
  | value => "Variable"
  | classType => "Class"
  | text => "Text"
  | snippet => "Snippet"

/-- The number of a kind of suggestion in the protocol of language servers. -/
def protocolNumber : ItemKind → Nat
  | text => 1
  | function => 3
  | value => 6
  | classType => 7
  | snippet => 15

end ItemKind

/-- One suggestion. -/
structure Item where
  label : Text
  kind : ItemKind
  insertText : Text
  documentation : Option Text := none
  deriving DecidableEq, Repr

namespace Item

/-- Whether the inserted text is a template. -/
def isSnippet (i : Item) : Bool :=
  i.kind == .snippet

/-- The number of the format of the inserted text in the protocol of language servers. -/
def protocolFormat (i : Item) : Nat :=
  if i.isSnippet then 2 else 1

/-- The suggestion of a symbol. -/
def ofSymbol (s : Symbol) : Item :=
  let kind : ItemKind := match s.kind with
    | .function => .function
    | .value => .value
    | .classType => .classType
  { label := s.name, kind := kind, insertText := s.name }

/-- A template: its label, the lines that it inserts and the lines that explain it. -/
def template (label : String) (body documentation : List String) : Item :=
  { label := label.toList, kind := .snippet,
    insertText := joinWith ['\n'] (body.map String.toList),
    documentation := some (joinWith ['\n'] (documentation.map String.toList)) }

end Item

/-- The templates that are offered before the symbols. -/
def snippets : List Item :=
  [ Item.template "実行"
      ["関数:実行() => () \x7b", "\t", "\x7d"]
      ["メイン実行関数", "", "関数:実行() => () \x7b", "\t", "\x7d"],
    Item.template "もし"
      ["もし( $\x7b1:条件\x7d )ならば\x7b", "\t$0", "\x7d"]
      ["条件分岐処理", "", "もし ( 条件 ) \x7b", "\t", "\x7d"],
    Item.template "からまで"
      ["(整数：$\x7b1:カウンタ\x7d = 0;) から ($\x7b1:カウンタ\x7d == $\x7b2:回数\x7d) "
          ++ "まで ($\x7b1:カウンタ\x7d++;) \x7b", "\t$0", "\x7d"]
      ["繰り返し処理", "",
        "(整数：カウンタ = 0;) から (カウンタ == 回数) まで (カウンタ++;) \x7b", "\t", "\x7d"],
    Item.template "関数"
      ["関数:$\x7b1:関数名\x7d ($\x7b2:引数\x7d) => ($\x7b3:戻り値\x7d) \x7b", "\t$0", "\x7d"]
      ["関数の宣言", "", "関数:関数名 (引数) => (戻り値) \x7b", "\t", "\x7d"],
    Item.template "クラス"
      ["クラス:$\x7b1:クラス名\x7d \x7b", "\t関数:$\x7b1:クラス名\x7d () => () \x7b", "\t\t$0", "\t\x7d",
        "\t公開:", "\t非公開:", "\x7d"]
      ["クラス定義", "", "クラス:クラス名 \x7b", "\t関数:クラス名 () => () \x7b", "\t\t", "\t\x7d",
        "\t公開:", "\t非公開:", "\x7d"] ]

end LazeEdit
