import LazeEdit.Text.Site

/-!
# Names

The characters of identifiers, and the longest identifier that begins a text. Identifiers are made
of ideographs, kana, ASCII letters, the prolonged sound mark and the number sign and low line of
both widths; after the first character ASCII digits may follow.
-/

namespace LazeEdit

/-- The characters that may begin an identifier. -/
def isNameStart (c : Char) : Bool :=
  ('㐀' ≤ c && c ≤ '龯') || ('ぁ' ≤ c && c ≤ 'ん') || ('ァ' ≤ c && c ≤ 'ヶ')
    || ('a' ≤ c && c ≤ 'z') || ('A' ≤ c && c ≤ 'Z')
    || c == 'ー' || c == '#' || c == '＃' || c == '_' || c == '＿'

/-- The ASCII digits. -/
def isDigit (c : Char) : Bool :=
  '0' ≤ c && c ≤ '9'

/-- The characters that may continue an identifier. -/
def isNameChar (c : Char) : Bool :=
  isNameStart c || isDigit c

/-- The longest identifier that begins a text. -/
def leadingName? : Text → Option Text
  | [] => none
  | c :: cs => if isNameStart c then some (c :: cs.takeWhile isNameChar) else none

/-- Whether a text is an identifier. -/
def isName (t : Text) : Bool :=
  leadingName? t == some t

/-- Whether the character before a place could be part of an identifier. -/
def Site.afterName (s : Site) : Bool :=
  s.before.any isNameChar

end LazeEdit
