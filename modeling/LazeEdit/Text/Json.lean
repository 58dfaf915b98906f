import LazeEdit.Text.Quoted

/-!
# JSON strings

A text as a JSON string. In ASCII a character outside is written by its UTF-16 units.
-/

namespace LazeEdit

/-- A character that JSON writes in a form of its own. -/
def jsonEscape? (c : Char) : Option Text :=
  match c with
  | '"' => some ['\\', '"']
  | '\\' => some ['\\', '\\']
  | '\n' => some ['\\', 'n']
  | '\r' => some ['\\', 'r']
  | '\t' => some ['\\', 't']
  | '\x08' => some ['\\', 'b']
  | '\x0c' => some ['\\', 'f']
  | c => if c.toNat < 32 then some (['\\', 'u'] ++ hexDigits 4 c.toNat) else none

/-- A UTF-16 unit of a JSON string in ASCII. -/
def jsonUnit (n : Nat) : Text :=
  ['\\', 'u'] ++ hexDigits 4 n

/-- A character of a JSON string. -/
def jsonChar (ascii : Bool) (c : Char) : Text :=
  match jsonEscape? c with
  | some t => t
  | none =>
    let n := c.toNat
    if !ascii || n < 127 then [c]
    else if n < 0x10000 then jsonUnit n
    else jsonUnit (0xD800 + (n - 0x10000) / 0x400) ++ jsonUnit (0xDC00 + (n - 0x10000) % 0x400)

/-- A text as a JSON string, in ASCII or with other characters as they are. -/
def jsonString (ascii : Bool) (t : Text) : Text :=
  ['"'] ++ t.flatMap (jsonChar ascii) ++ ['"']

end LazeEdit
