import GuardedText.Encoding.Flaw

/-
  UTF-8. Reading goes byte by byte: the first byte of a code point says how many bytes are owed and
  in which range the next one lies, so that overlong forms, surrogates and values beyond the last
  code point are refused at the second byte.
-/

namespace GuardedText.Utf8

/-- A code point of which some bytes have been read. -/
structure Begun where
  /-- The offset of its first byte. -/
  start : Nat
  /-- Its first byte. -/
  first : Byte
  /-- How many bytes have been read. -/
  seen : Nat
  /-- The bits read so far. -/
  bits : Nat
  /-- How many bytes are owed. -/
  owed : Nat
  /-- The least the next byte may be. -/
  low : Nat
  /-- The greatest the next byte may be. -/
  high : Nat

/-- What a first byte leads to: how many bytes are owed, the bits it holds, and the range of the
next byte. -/
def lead? (b : Nat) : Option (Nat × Nat × Nat × Nat) :=
  if b < 0xC2 then none
  else if b < 0xE0 then some (1, b - 0xC0, 0x80, 0xBF)
  else if b < 0xF0 then
    some (2, b - 0xE0, if b = 0xE0 then 0xA0 else 0x80, if b = 0xED then 0x9F else 0xBF)
  else if b < 0xF5 then
    some (3, b - 0xF0, if b = 0xF0 then 0x90 else 0x80, if b = 0xF4 then 0x8F else 0xBF)
  else none

/-- A flaw in some bytes. -/
def flaw (reason : FlawReason) (start : Nat) (first : Byte) (length : Nat) : Flaw :=
  { codec := "utf-8", reason, start, first, length }

/-- The text of the bytes from `offset` on, after a code point begun and the code points of `done`,
the latest first. -/
def decodeFrom (offset : Nat) (done : Text) : Option Begun → List Byte → Except Flaw Text
  | none, [] => .ok done.reverse
  | some p, [] => .error (flaw .endsInside p.start p.first p.seen)
  | none, b :: bytes =>
    if b.toNat < 0x80 then
      decodeFrom (offset + 1) (Fin.ofNat 0x110000 b.toNat :: done) none bytes
    else
      match lead? b.toNat with
      | some (owed, bits, low, high) =>
        decodeFrom (offset + 1) done (some ⟨offset, b, 1, bits, owed, low, high⟩) bytes
      | none => .error (flaw .badStart offset b 1)
  | some p, b :: bytes =>
    if p.low ≤ b.toNat ∧ b.toNat ≤ p.high then
      let bits := p.bits * 64 + (b.toNat - 0x80)
      if p.owed ≤ 1 then decodeFrom (offset + 1) (Fin.ofNat 0x110000 bits :: done) none bytes
      else
        decodeFrom (offset + 1) done
          (some ⟨p.start, p.first, p.seen + 1, bits, p.owed - 1, 0x80, 0xBF⟩) bytes
    else .error (flaw .badContinuation p.start p.first p.seen)

/-- The text of some bytes. -/
def decode (bytes : List Byte) : Except Flaw Text := decodeFrom 0 [] none bytes

/-- A continuation byte with six bits of a number. -/
def tail (n : Nat) : Byte := UInt8.ofNat (0x80 + n % 64)

/-- The bytes of a code point. -/
def encodeOne (c : CodePoint) : List Byte :=
  let n := c.val
  if n < 0x80 then [UInt8.ofNat n]
  else if n < 0x800 then [UInt8.ofNat (0xC0 + n / 64), tail n]
  else if n < 0x10000 then [UInt8.ofNat (0xE0 + n / 4096), tail (n / 64), tail n]
  else [UInt8.ofNat (0xF0 + n / 262144), tail (n / 4096), tail (n / 64), tail n]

/-- The bytes of a text. -/
def encode (t : Text) : List Byte := t.flatMap encodeOne

/-- The byte order mark. -/
def mark : List Byte := [0xEF, 0xBB, 0xBF]

/-- The text of bytes that may start with a mark, which is left out; a mark cut short is no
text. -/
def decodeMarked (bytes : List Byte) : Except Flaw Text :=
  if bytes.length < 3 && bytes.isPrefixOf mark then .ok []
  else decode ((mark.isPrefixOf? bytes).getD bytes)

end GuardedText.Utf8
