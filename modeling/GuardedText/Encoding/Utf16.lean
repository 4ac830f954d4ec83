import GuardedText.Encoding.Flaw

/-
  UTF-16. Two bytes make a unit, the low or the high one first; a code point beyond the first 65536
  is a pair of units.
-/

namespace GuardedText.Utf16

/-- Which byte of a unit comes first. -/
inductive Order where
  | little
  | big
  deriving DecidableEq, Repr

namespace Order

/-- The name of the encoding. -/
def codec : Order → String
  | .little => "utf-16-le"
  | .big => "utf-16-be"

/-- The unit of two bytes. -/
def unit : Order → Byte → Byte → Nat
  | .little, a, b => a.toNat + 256 * b.toNat
  | .big, a, b => 256 * a.toNat + b.toNat

/-- The bytes of a unit. -/
def bytes : Order → Nat → List Byte
  | .little, n => [UInt8.ofNat n, UInt8.ofNat (n / 256)]
  | .big, n => [UInt8.ofNat (n / 256), UInt8.ofNat n]

/-- A flaw in some bytes. -/
def flaw (order : Order) (reason : FlawReason) (start : Nat) (first : Byte) (length : Nat) : Flaw :=
  { codec := order.codec, reason, start, first, length }

/-- The first half of a pair. -/
def isHigh (unit : Nat) : Bool := decide (0xD800 ≤ unit) && decide (unit < 0xDC00)

/-- The second half of a pair. -/
def isLow (unit : Nat) : Bool := decide (0xDC00 ≤ unit) && decide (unit < 0xE000)

/-- The text of the bytes from `offset` on, after the code points of `done`, the latest first. -/
def decodeFrom (order : Order) (offset : Nat) (done : Text) : List Byte → Except Flaw Text
  | [] => .ok done.reverse
  | [a] => .error (order.flaw .truncated offset a 1)
  | a :: b :: bytes =>
    let u := order.unit a b
    if isLow u then .error (order.flaw .lowFirst offset a 2)
    else if isHigh u then
      match bytes with
      | c :: d :: bytes =>
        let v := order.unit c d
        if isLow v then
          order.decodeFrom (offset + 4)
            (Fin.ofNat 0x110000 (0x10000 + (u - 0xD800) * 1024 + (v - 0xDC00)) :: done) bytes
        else .error (order.flaw .unpaired offset a 2)
      | rest => .error (order.flaw .endsInside offset a (2 + rest.length))
    else order.decodeFrom (offset + 2) (Fin.ofNat 0x110000 u :: done) bytes

/-- The text of some bytes. -/
def decode (order : Order) (bytes : List Byte) : Except Flaw Text := order.decodeFrom 0 [] bytes

/-- The bytes of a code point. -/
def encodeOne (order : Order) (c : CodePoint) : List Byte :=
  let n := c.val
  if n < 0x10000 then order.bytes n
  else
    order.bytes (0xD800 + (n - 0x10000) / 1024) ++ order.bytes (0xDC00 + (n - 0x10000) % 1024)

/-- The bytes of a text. -/
def encode (order : Order) (t : Text) : List Byte := t.flatMap order.encodeOne

end Order

/-- The text of bytes that start with a byte order mark; none when there is no mark. -/
def decodeMarked? (bytes : List Byte) : Except Flaw (Option Text) :=
  match bytes with
  | [] => .ok (some [])
  | 0xFF :: 0xFE :: rest => (Order.little.decodeFrom 2 [] rest).map some
  | 0xFE :: 0xFF :: rest => (Order.big.decodeFrom 2 [] rest).map some
  | bytes => (Order.little.decode bytes).map fun _ => none

/-- The bytes of a text after a mark. -/
def encodeMarked (t : Text) : List Byte := 0xFF :: 0xFE :: Order.little.encode t

end GuardedText.Utf16
