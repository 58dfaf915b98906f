import LazeEdit.Text.Utf8
import Mathlib.Algebra.Group.Nat.Defs
import Mathlib.Tactic.Lemma

/-!
# Reading UTF-8

A character behind ASCII is a first byte with its high bits and trailing bytes with six bits each
(`trailing`). What is known of a character that is being read is which numbers still fit
(`Open.Fits`): the first byte leaves those whose encoding begins with it, and a trailing byte those
that have its bits. So a byte sequence is read to its end exactly when it is the encoding of a text,
and the text comes back (`decode_eq_ok_iff`).
-/

namespace LazeEdit.Utf8

/-- The last `count` bytes of a character with a number: six bits each, the high ones first. -/
def trailing : Nat → Nat → List UInt8
  | 0, _ => []
  | count + 1, n => UInt8.ofNat (n / 64 ^ count % 64 + 0x80) :: trailing count n

/-- A number has the bits that were read of a character, and its next six bits are within the bounds
of the next byte. -/
structure Open.Fits (o : Open) (n : Nat) : Prop where
  bits : n / 64 ^ o.following = o.bits
  low : o.low ≤ n / 64 ^ (o.following - 1) % 64 + 0x80
  high : n / 64 ^ (o.following - 1) % 64 + 0x80 ≤ o.high

/-- A result that was mapped comes from one before. -/
lemma exists_of_map_eq_ok {ε α β : Type} {x : Except ε α} {f : α → β} {b : β}
    (h : x.map f = .ok b) : ∃ a, x = .ok a ∧ b = f a := by
  cases x with
  | error e => cases h
  | ok a =>
    cases h
    exact ⟨a, rfl, rfl⟩

/-! ### Trailing bytes -/

section Trailing

variable {o : Open} {k n offset : Nat}

/-- The byte of six bits. -/
lemma toNat_trailingByte (n : Nat) : (UInt8.ofNat (n % 64 + 0x80)).toNat = n % 64 + 0x80 := by
  rw [UInt8.toNat_ofNat']
  omega

/-- The last byte of a character that fits completes it. -/
lemma Open.next?_last (hk : o.following = 1) (h : o.Fits n) :
    o.next? (UInt8.ofNat (n % 64 + 0x80)) = some (.whole (Char.ofNat n)) := by
  obtain ⟨hbits, hlow, hhigh⟩ := h
  rw [hk] at hbits hlow hhigh
  have hnumber : o.bits * 64 + (n % 64 + 0x80 - 0x80) = n := by
    omega
  rw [next?, toNat_trailingByte, hk, hnumber, if_pos (by omega)]
  rfl

/-- Another byte of a character that fits leaves one that fits. -/
lemma Open.next?_inner (hk : o.following = k + 2) (h : o.Fits n) :
    ∃ p, o.next? (UInt8.ofNat (n / 64 ^ (k + 1) % 64 + 0x80)) = some (.partly p) ∧
      p.following = k + 1 ∧ p.Fits n := by
  obtain ⟨hbits, hlow, hhigh⟩ := h
  rw [hk] at hbits hlow hhigh
  have hdiv : n / 64 ^ (k + 1) / 64 = o.bits := by
    rw [Nat.div_div_eq_div_mul, ← Nat.pow_succ, hbits]
  rw [next?, toNat_trailingByte, hk, if_pos ⟨hlow, hhigh⟩]
  refine ⟨_, if_neg (by omega), rfl, ?_, ?_, ?_⟩
  · show n / 64 ^ (k + 1) = o.bits * 64 + _
    omega
  · show 0x80 ≤ _ % 64 + 0x80
    omega
  · show _ % 64 + 0x80 ≤ 0xBF
    omega

/-- The trailing bytes of a character that fits complete it. -/
lemma decodeFrom_trailing (hk : o.following = k + 1) (h : o.Fits n) (bs : List UInt8) :
    decodeFrom offset (some o) (trailing (k + 1) n ++ bs)
      = (decodeFrom (offset + (k + 1)) none bs).map (Char.ofNat n :: ·) := by
  induction k generalizing o offset with
  | zero =>
    have hnext := Open.next?_last hk h
    rw [trailing, List.cons_append, decodeFrom]
    simp only [Nat.pow_zero, Nat.div_one, hnext]
    rfl
  | succ k ih =>
    obtain ⟨p, hnext, hp, hfits⟩ := Open.next?_inner hk h
    rw [trailing, List.cons_append, decodeFrom]
    simp only [hnext]
    rw [ih hp hfits, Nat.add_assoc, Nat.add_comm 1]

/-- What a byte adds to a character that is being read. -/
lemma Open.exists_of_next? {b : UInt8} {p : Progress} (h : o.next? b = some p) :
    (o.low ≤ b.toNat ∧ b.toNat ≤ o.high) ∧
      ((o.following = 1 ∧ p = .whole (Char.ofNat (o.bits * 64 + (b.toNat - 0x80)))) ∨
        (o.following ≠ 1 ∧ p = .partly ⟨o.offset, o.bytes ++ [b], o.following - 1, 0x80, 0xBF,
          o.bits * 64 + (b.toNat - 0x80)⟩)) := by
  rw [next?] at h
  split at h
  case isFalse => cases h
  case isTrue hbounds =>
    refine ⟨hbounds, ?_⟩
    split at h
    case isTrue hk => exact .inl ⟨hk, (Option.some.inj h).symm⟩
    case isFalse hk => exact .inr ⟨hk, (Option.some.inj h).symm⟩

/-- A byte within the bounds is the trailing byte of its six bits. -/
lemma trailingByte_eq {b : UInt8} {m : Nat} (hlow : 0x80 ≤ b.toNat) (h : m = b.toNat - 0x80) :
    UInt8.ofNat (m + 0x80) = b := by
  rw [h, Nat.sub_add_cancel hlow, UInt8.ofNat_toNat]

/-- A character that is read to its end goes on with a byte that it takes. -/
lemma exists_next_of_decodeFrom {bs : List UInt8} {t : Text}
    (h : decodeFrom offset (some o) bs = .ok t) :
    ∃ b rest p, bs = b :: rest ∧ o.next? b = some p := by
  cases bs with
  | nil => cases h
  | cons b rest =>
    rw [decodeFrom] at h
    cases hnext : o.next? b with
    | none =>
      rw [hnext] at h
      cases h
    | some p => exact ⟨b, rest, p, rfl, hnext⟩

/-- A character that is read to its end is one that fits, with its trailing bytes in front. -/
lemma exists_of_decodeFrom_open {bs : List UInt8} {t : Text} (hk : o.following = k + 1)
    (hlow : 0x80 ≤ o.low) (hhigh : o.high ≤ 0xBF) (h : decodeFrom offset (some o) bs = .ok t) :
    ∃ n rest ts, o.Fits n ∧ bs = trailing (k + 1) n ++ rest ∧ t = Char.ofNat n :: ts ∧
      decodeFrom (offset + (k + 1)) none rest = .ok ts := by
  induction k generalizing o offset bs with
  | zero =>
    obtain ⟨b, bs, p, rfl, hnext⟩ := exists_next_of_decodeFrom h
    obtain ⟨⟨hlo, hhi⟩, ⟨-, rfl⟩ | ⟨hne, -⟩⟩ := Open.exists_of_next? hnext
    · rw [decodeFrom, hnext] at h
      obtain ⟨ts, hts, rfl⟩ := exists_of_map_eq_ok h
      have hbits : (o.bits * 64 + (b.toNat - 0x80)) % 64 = b.toNat - 0x80 := by omega
      refine ⟨o.bits * 64 + (b.toNat - 0x80), bs, ts, ⟨?_, ?_, ?_⟩, ?_, rfl, hts⟩
      · rw [hk]
        omega
      · rw [hk, Nat.pow_zero, Nat.div_one, hbits]
        omega
      · rw [hk, Nat.pow_zero, Nat.div_one, hbits]
        omega
      · rw [trailing, Nat.pow_zero, Nat.div_one, hbits, trailingByte_eq (by omega) rfl]
        rfl
    · exact absurd hk hne
  | succ k ih =>
    obtain ⟨b, bs, p, rfl, hnext⟩ := exists_next_of_decodeFrom h
    obtain ⟨⟨hlo, hhi⟩, ⟨hone, -⟩ | ⟨-, rfl⟩⟩ := Open.exists_of_next? hnext
    · omega
    · rw [decodeFrom, hnext] at h
      obtain ⟨n, rest, ts, ⟨hbits, _, _⟩, rfl, rfl, hts⟩ :=
        ih (by dsimp only; omega) (Nat.le_refl _) (Nat.le_refl _) h
      dsimp only at hbits
      rw [hk, Nat.add_sub_cancel] at hbits
      have hsix : n / 64 ^ (k + 1) % 64 = b.toNat - 0x80 := by
        rw [hbits]
        omega
      refine ⟨n, rest, ts, ⟨?_, ?_, ?_⟩, ?_, rfl, ?_⟩
      · rw [hk, Nat.pow_succ, ← Nat.div_div_eq_div_mul, hbits]
        omega
      · rw [hk, Nat.add_sub_cancel, hsix]
        omega
      · rw [hk, Nat.add_sub_cancel, hsix]
        omega
      · rw [trailing.eq_2 n (k + 1), trailingByte_eq (by omega) hsix]
        rfl
      · rw [← hts, Nat.add_assoc offset 1, Nat.add_comm 1]

end Trailing

/-! ### First bytes -/

/-- The number of trailing bytes of a character behind ASCII. -/
def trailingCount (n : Nat) : Nat :=
  if n < 0x800 then 1 else if n < 0x10000 then 2 else 3

/-- The high bits of the first byte of a character behind ASCII, which say how many bytes follow. -/
def leadMark (n : Nat) : Nat :=
  if n < 0x800 then 0xC0 else if n < 0x10000 then 0xE0 else 0xF0

/-- The first byte of a character behind ASCII. -/
def leadByte (n : Nat) : Nat :=
  leadMark n + n / 64 ^ trailingCount n

/-- The three lengths of characters behind ASCII. -/
lemma leadByte_cases (n : Nat) :
    (n < 0x800 ∧ trailingCount n = 1 ∧ leadByte n = 0xC0 + n / 64) ∨
    ((0x800 ≤ n ∧ n < 0x10000) ∧ trailingCount n = 2 ∧ leadByte n = 0xE0 + n / 4096) ∨
    (0x10000 ≤ n ∧ trailingCount n = 3 ∧ leadByte n = 0xF0 + n / 262144) := by
  rw [leadByte, leadMark, trailingCount]
  by_cases htwo : n < 0x800
  · rw [if_pos htwo, if_pos htwo]
    exact .inl ⟨htwo, rfl, rfl⟩
  · rw [if_neg htwo, if_neg htwo]
    by_cases hthree : n < 0x10000
    · rw [if_pos hthree, if_pos hthree]
      exact .inr (.inl ⟨⟨Nat.le_of_not_lt htwo, hthree⟩, rfl, rfl⟩)
    · rw [if_neg hthree, if_neg hthree]
      exact .inr (.inr ⟨Nat.le_of_not_lt hthree, rfl, rfl⟩)

/-- The number of a character. -/
lemma val_ofNat {n : Nat} (h : n.isValidChar) : (Char.ofNat n).val.toNat = n := by
  rw [Char.ofNat, dif_pos h]
  rfl

/-- A character behind ASCII is encoded by its first byte and its trailing bytes. -/
lemma encodeChar_eq {n : Nat} (h : 0x80 ≤ n) (hvalid : n.isValidChar) :
    String.utf8EncodeChar (Char.ofNat n)
      = UInt8.ofNat (leadByte n) :: trailing (trailingCount n) n := by
  have hmax : n < 0x110000 := by omega
  rw [String.utf8EncodeChar, val_ofNat hvalid]
  obtain ⟨htwo, hcount, hlead⟩ | ⟨hthree, hcount, hlead⟩ | ⟨hfour, hcount, hlead⟩ :=
    leadByte_cases n
  · have hbyte : n / 64 % 32 + 192 = leadByte n := by omega
    simp only [hcount, trailing, hbyte, Nat.pow_zero, Nat.div_one]
    rw [if_neg (by omega), if_pos (by omega)]
  · have hbyte : n / 4096 % 16 + 224 = leadByte n := by omega
    simp only [hcount, trailing, hbyte, Nat.pow_zero, Nat.div_one, Nat.pow_one]
    rw [if_neg (by omega), if_neg (by omega), if_pos (by omega)]
  · have hbyte : n / 262144 % 8 + 240 = leadByte n := by omega
    simp only [hcount, trailing, hbyte, Nat.pow_zero, Nat.div_one, Nat.pow_one, Nat.reducePow]
    rw [if_neg (by omega), if_neg (by omega), if_neg (by omega)]

/-- What the first bytes say, row by row. -/
lemma lead?_cases {b : Nat} {l : Lead} (h : lead? b = some l) :
    (0xC2 ≤ b ∧ b ≤ 0xDF) ∧ l = ⟨1, 0x80, 0xBF, b - 0xC0⟩ ∨
    b = 0xE0 ∧ l = ⟨2, 0xA0, 0xBF, 0⟩ ∨
    b = 0xED ∧ l = ⟨2, 0x80, 0x9F, 0xD⟩ ∨
    (b ≠ 0xED ∧ 0xE1 ≤ b ∧ b ≤ 0xEF) ∧ l = ⟨2, 0x80, 0xBF, b - 0xE0⟩ ∨
    b = 0xF0 ∧ l = ⟨3, 0x90, 0xBF, 0⟩ ∨
    (0xF1 ≤ b ∧ b ≤ 0xF3) ∧ l = ⟨3, 0x80, 0xBF, b - 0xF0⟩ ∨
    b = 0xF4 ∧ l = ⟨3, 0x80, 0x8F, 4⟩ := by
  rw [lead?] at h
  have hrow {r : Lead} (h : some r = some l) : l = r := (Option.some.inj h).symm
  split at h
  case isTrue hb => exact .inl ⟨hb, hrow h⟩
  split at h
  case isTrue hb => exact .inr (.inl ⟨hb, hrow h⟩)
  split at h
  case isTrue hb => exact .inr (.inr (.inl ⟨hb, hrow h⟩))
  case isFalse hne =>
  split at h
  case isTrue hb => exact .inr (.inr (.inr (.inl ⟨⟨hne, hb⟩, hrow h⟩)))
  split at h
  case isTrue hb => exact .inr (.inr (.inr (.inr (.inl ⟨hb, hrow h⟩))))
  split at h
  case isTrue hb => exact .inr (.inr (.inr (.inr (.inr (.inl ⟨hb, hrow h⟩)))))
  split at h
  case isTrue hb => exact .inr (.inr (.inr (.inr (.inr (.inr ⟨hb, hrow h⟩)))))
  cases h

/-- A byte between the least and the greatest first byte is one. -/
lemma exists_lead {b : Nat} (hlow : 0xC2 ≤ b) (hhigh : b ≤ 0xF4) : ∃ l, lead? b = some l := by
  rw [← Option.isSome_iff_exists]
  grind [lead?]

/-- What a character is that begins with a byte, before its next one is read. -/
def Lead.opening (l : Lead) (offset : Nat) (b : UInt8) : Open :=
  ⟨offset, [b], l.following, l.low, l.high, l.bits⟩

section Lead

variable {b : UInt8} {l : Lead} {offset n : Nat}

/-- The bounds of the byte behind a first byte are those of a trailing byte. -/
lemma lead_bounds (h : lead? b.toNat = some l) :
    l.following = l.following - 1 + 1 ∧ 0x80 ≤ l.low ∧ l.high ≤ 0xBF := by
  obtain ⟨-, rfl⟩ | ⟨-, rfl⟩ | ⟨-, rfl⟩ | ⟨-, rfl⟩ | ⟨-, rfl⟩ | ⟨-, rfl⟩ | ⟨-, rfl⟩ := lead?_cases h
  all_goals
    dsimp only
    omega

/-- A first byte says how many bytes follow. -/
lemma following_eq (h : lead? b.toNat = some l) (hb : b.toNat = leadByte n) :
    l.following = trailingCount n := by
  have hcount := leadByte_cases n
  obtain ⟨hrow, rfl⟩ | ⟨hrow, rfl⟩ | ⟨hrow, rfl⟩ | ⟨hrow, rfl⟩ | ⟨hrow, rfl⟩ | ⟨hrow, rfl⟩
    | ⟨hrow, rfl⟩ := lead?_cases h
  all_goals
    dsimp only
    omega

/-- What a first byte says fits exactly the characters that begin with it. -/
lemma opening_fits_iff (h : lead? b.toNat = some l) :
    (l.opening offset b).Fits n ↔ 0x80 ≤ n ∧ n.isValidChar ∧ b.toNat = leadByte n := by
  have hcount := leadByte_cases n
  obtain ⟨hrow, rfl⟩ | ⟨hrow, rfl⟩ | ⟨hrow, rfl⟩ | ⟨hrow, rfl⟩ | ⟨hrow, rfl⟩ | ⟨hrow, rfl⟩
    | ⟨hrow, rfl⟩ := lead?_cases h
  all_goals
    constructor
    · rintro ⟨hbits, hlow, hhigh⟩
      dsimp only [Lead.opening] at hbits hlow hhigh
      omega
    · rintro ⟨hmin, hvalid, hb⟩
      constructor
      all_goals
        dsimp only [Lead.opening]
        omega

end Lead

/-! ### Texts -/

/-- An ASCII character is its own byte. -/
lemma encodeChar_ascii {n : Nat} (h : n < 0x80) :
    String.utf8EncodeChar (Char.ofNat n) = [UInt8.ofNat n] := by
  have hvalid : n.isValidChar := by omega
  rw [String.utf8EncodeChar, val_ofNat hvalid]
  exact if_pos (by omega)

/-- A whole character is read first. -/
lemma decodeFrom_encodeChar (offset : Nat) (c : Char) (bs : List UInt8) :
    ∃ stop, decodeFrom offset none (String.utf8EncodeChar c ++ bs)
      = (decodeFrom stop none bs).map (c :: ·) := by
  have hvalid : c.toNat.isValidChar := c.valid
  obtain ⟨n, hn⟩ : ∃ n, n = c.toNat := ⟨_, rfl⟩
  obtain rfl : c = Char.ofNat n := by rw [hn, Char.ofNat_toNat]
  rw [← hn] at hvalid
  by_cases hascii : n < 0x80
  · have hbyte : (UInt8.ofNat n).toNat = n := by
      rw [UInt8.toNat_ofNat']
      omega
    have hstart : start? offset (UInt8.ofNat n) = some (.whole (Char.ofNat n)) := by
      rw [start?, hbyte, if_pos hascii]
    rw [encodeChar_ascii hascii, List.singleton_append, decodeFrom]
    simp only [hstart]
    exact ⟨_, rfl⟩
  · have hmin : 0x80 ≤ n := Nat.le_of_not_lt hascii
    have hcases := leadByte_cases n
    have hbyte : (UInt8.ofNat (leadByte n)).toNat = leadByte n := by
      rw [UInt8.toNat_ofNat']
      omega
    obtain ⟨l, hl⟩ := exists_lead (b := (UInt8.ofNat (leadByte n)).toNat) (by omega) (by omega)
    have hstart : start? offset (UInt8.ofNat (leadByte n))
        = some (.partly (l.opening offset (UInt8.ofNat (leadByte n)))) := by
      rw [start?, hl, if_neg (by omega)]
      rfl
    have hfits : (l.opening offset (UInt8.ofNat (leadByte n))).Fits n :=
      (opening_fits_iff hl).mpr ⟨hmin, hvalid, hbyte⟩
    rw [encodeChar_eq hmin hvalid, List.cons_append, decodeFrom]
    simp only [hstart]
    rw [← following_eq hl hbyte, (lead_bounds hl).1]
    exact ⟨_, decodeFrom_trailing (lead_bounds hl).1 hfits bs⟩

/-- What is read begins with a whole character. -/
lemma exists_of_decodeFrom {offset : Nat} {b : UInt8} {bs : List UInt8} {t : Text}
    (h : decodeFrom offset none (b :: bs) = .ok t) :
    ∃ c rest ts stop, b :: bs = String.utf8EncodeChar c ++ rest ∧ t = c :: ts ∧
      decodeFrom stop none rest = .ok ts := by
  rw [decodeFrom] at h
  by_cases hascii : b.toNat < 0x80
  · have hstart : start? offset b = some (.whole (Char.ofNat b.toNat)) := if_pos hascii
    simp only [hstart] at h
    obtain ⟨ts, hts, rfl⟩ := exists_of_map_eq_ok h
    refine ⟨Char.ofNat b.toNat, bs, ts, _, ?_, rfl, hts⟩
    rw [encodeChar_ascii hascii, UInt8.ofNat_toNat]
    rfl
  · cases hl : lead? b.toNat with
    | none =>
      have hstart : start? offset b = none := by rw [start?, hl, if_neg hascii]; rfl
      simp only [hstart] at h
      cases h
    | some l =>
      have hstart : start? offset b = some (.partly (l.opening offset b)) := by
        rw [start?, hl, if_neg hascii]
        rfl
      simp only [hstart] at h
      obtain ⟨hfollowing, hlow, hhigh⟩ := lead_bounds hl
      obtain ⟨n, rest, ts, hfits, rfl, rfl, hts⟩ :=
        exists_of_decodeFrom_open hfollowing hlow hhigh h
      obtain ⟨hmin, hvalid, hb⟩ := (opening_fits_iff hl).mp hfits
      refine ⟨Char.ofNat n, rest, ts, _, ?_, rfl, hts⟩
      rw [encodeChar_eq hmin hvalid, ← following_eq hl hb, ← hb, UInt8.ofNat_toNat, ← hfollowing]
      rfl

/-- Bytes are read as a text exactly when they are its encoding. -/
lemma decodeFrom_eq_ok_iff {offset : Nat} {bs : List UInt8} {t : Text} :
    decodeFrom offset none bs = .ok t ↔ bs = encode t := by
  constructor
  · intro h
    induction t generalizing offset bs with
    | nil =>
      cases bs with
      | nil => rfl
      | cons b bs =>
        obtain ⟨_, _, _, _, _, ht, _⟩ := exists_of_decodeFrom h
        cases ht
    | cons c cs ih =>
      cases bs with
      | nil => cases h
      | cons b bs =>
        obtain ⟨d, rest, ts, stop, hbs, ht, hrest⟩ := exists_of_decodeFrom h
        obtain ⟨rfl, rfl⟩ := List.cons.inj ht
        rw [hbs, ih hrest]
        rfl
  · rintro rfl
    induction t generalizing offset with
    | nil => rfl
    | cons c cs ih =>
      obtain ⟨stop, hread⟩ := decodeFrom_encodeChar offset c (encode cs)
      rw [show encode (c :: cs) = String.utf8EncodeChar c ++ encode cs from rfl, hread, ih]
      rfl

/-- Bytes are a text exactly when they are its encoding. -/
lemma decode_eq_ok_iff {bytes : List UInt8} {t : Text} :
    decode bytes = .ok t ↔ bytes = encode t :=
  decodeFrom_eq_ok_iff

end LazeEdit.Utf8
