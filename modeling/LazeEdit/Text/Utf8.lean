import LazeEdit.Text.Quoted

/-!
# UTF-8

Reading the bytes of a file as text. A fault names the bytes of the character that it cuts short: a
byte that begins no character, a byte that may not follow, or the end of the bytes. Where a text is
wanted in any case, a replacement character stands for each fault.
-/

namespace LazeEdit.Utf8

/-- Why bytes are no text. -/
inductive Fault where
  | badStart
  | badContinuation
  | cutShort
  deriving DecidableEq, Repr

/-- A fault, with the bytes from the start of the faulty character that were good so far (at least
its first byte) and the offset of that byte. -/
structure Error where
  fault : Fault
  offset : Nat
  bytes : List UInt8
  deriving DecidableEq, Repr

/-- What a first byte says of its character: how many bytes follow, the least and greatest value of
the next byte, and the high bits of the character. -/
structure Lead where
  following : Nat
  low : Nat
  high : Nat
  bits : Nat
  deriving DecidableEq, Repr

/-- What the first byte of a character of several bytes says. -/
def lead? (b : Nat) : Option Lead :=
  if 0xC2 ≤ b ∧ b ≤ 0xDF then some ⟨1, 0x80, 0xBF, b - 0xC0⟩
  else if b = 0xE0 then some ⟨2, 0xA0, 0xBF, 0⟩
  else if b = 0xED then some ⟨2, 0x80, 0x9F, 0xD⟩
  else if 0xE1 ≤ b ∧ b ≤ 0xEF then some ⟨2, 0x80, 0xBF, b - 0xE0⟩
  else if b = 0xF0 then some ⟨3, 0x90, 0xBF, 0⟩
  else if 0xF1 ≤ b ∧ b ≤ 0xF3 then some ⟨3, 0x80, 0xBF, b - 0xF0⟩
  else if b = 0xF4 then some ⟨3, 0x80, 0x8F, 4⟩
  else none

/-- A character that is being read: where it began, its bytes so far, how many are to follow, the
bounds of the next one and the bits so far. -/
structure Open where
  offset : Nat
  bytes : List UInt8
  following : Nat
  low : Nat
  high : Nat
  bits : Nat
  deriving DecidableEq, Repr

/-- What a byte adds to a text: a whole character, or one that is to go on. -/
inductive Progress where
  | whole (c : Char)
  | partly (o : Open)
  deriving DecidableEq, Repr

/-- The character that a byte begins at an offset. -/
def start? (offset : Nat) (b : UInt8) : Option Progress :=
  if b.toNat < 0x80 then some (.whole (Char.ofNat b.toNat))
  else (lead? b.toNat).map fun l => .partly ⟨offset, [b], l.following, l.low, l.high, l.bits⟩

/-- The character that goes on with a byte. -/
def Open.next? (o : Open) (b : UInt8) : Option Progress :=
  if o.low ≤ b.toNat ∧ b.toNat ≤ o.high then
    let bits := o.bits * 64 + (b.toNat - 0x80)
    if o.following = 1 then some (.whole (Char.ofNat bits))
    else some (.partly ⟨o.offset, o.bytes ++ [b], o.following - 1, 0x80, 0xBF, bits⟩)
  else none

/-- The text of bytes that begin at an offset, inside the character `pending` if there is one. -/
def decodeFrom (offset : Nat) (pending : Option Open) : List UInt8 → Except Error Text
  | [] =>
    match pending with
    | none => .ok []
    | some o => .error ⟨.cutShort, o.offset, o.bytes⟩
  | b :: bs =>
    let (progress, error) : Option Progress × Error := match pending with
      | none => (start? offset b, ⟨.badStart, offset, [b]⟩)
      | some o => (o.next? b, ⟨.badContinuation, o.offset, o.bytes⟩)
    match progress with
    | none => .error error
    | some (.whole c) => (decodeFrom (offset + 1) none bs).map (c :: ·)
    | some (.partly o) => decodeFrom (offset + 1) (some o) bs

/-- The text of some bytes. -/
def decode (bytes : List UInt8) : Except Error Text :=
  decodeFrom 0 none bytes

/-- The character that stands for bytes that are no text. -/
def replacement : Char := '\uFFFD'

/-- The text of bytes, inside the character `pending` if there is one, with a replacement for each
fault: for the good bytes of a character that is cut short, or for a byte that begins none. -/
def decodeLossyFrom (pending : Option Open) : List UInt8 → Text
  | [] => if pending.isSome then [replacement] else []
  | b :: bs =>
    match pending.bind (·.next? b) with
    | some (.whole c) => c :: decodeLossyFrom none bs
    | some (.partly o) => decodeLossyFrom (some o) bs
    | none =>
      let cut := if pending.isSome then [replacement] else []
      match start? 0 b with
      | some (.whole c) => cut ++ c :: decodeLossyFrom none bs
      | some (.partly o) => cut ++ decodeLossyFrom (some o) bs
      | none => cut ++ replacement :: decodeLossyFrom none bs

/-- The text of some bytes, with a replacement for what is no text. -/
def decodeLossy (bytes : List UInt8) : Text :=
  decodeLossyFrom none bytes

/-- The bytes of a text. -/
def encode (t : Text) : List UInt8 :=
  t.flatMap String.utf8EncodeChar

/-- The words for a fault. -/
def Fault.message : Fault → String
  | badStart => "invalid start byte"
  | badContinuation => "invalid continuation byte"
  | cutShort => "unexpected end of data"

/-- The words for an error: which bytes, and what is wrong with them. -/
def Error.message (e : Error) : String :=
  let place := match e.bytes with
    | [b] =>
      "byte 0x" ++ String.ofList (hexDigits 2 b.toNat) ++ " in position " ++ toString e.offset
    | bs => "bytes in position " ++ toString e.offset ++ "-" ++ toString (e.offset + bs.length - 1)
  "'utf-8' codec can't decode " ++ place ++ ": " ++ e.fault.message

end LazeEdit.Utf8
