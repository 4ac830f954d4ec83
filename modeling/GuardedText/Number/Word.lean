/-
  Integers as words. In two's complement a negative integer has ones from some place on and any
  other integer has zeros, so the bits of two integers can be combined whatever their size. A word
  of 32 bits is made of the lowest bits of an integer.
-/

namespace GuardedText

namespace Bits

/-- The bits of `m` that `n` does not have. -/
def without (m n : Nat) : Nat := m ^^^ (m &&& n)

/-- The bits that both integers have. -/
def and : Int → Int → Int
  | .ofNat m, .ofNat n => .ofNat (m &&& n)
  | .ofNat m, .negSucc n => .ofNat (without m n)
  | .negSucc m, .ofNat n => .ofNat (without n m)
  | .negSucc m, .negSucc n => .negSucc (m ||| n)

/-- The bits that one of two integers has, or both. -/
def or : Int → Int → Int
  | .ofNat m, .ofNat n => .ofNat (m ||| n)
  | .ofNat m, .negSucc n => .negSucc (without n m)
  | .negSucc m, .ofNat n => .negSucc (without m n)
  | .negSucc m, .negSucc n => .negSucc (m &&& n)

/-- The bits that only one of two integers has. -/
def xor : Int → Int → Int
  | .ofNat m, .ofNat n => .ofNat (m ^^^ n)
  | .ofNat m, .negSucc n => .negSucc (m ^^^ n)
  | .negSucc m, .ofNat n => .negSucc (m ^^^ n)
  | .negSucc m, .negSucc n => .ofNat (m ^^^ n)

end Bits

namespace Word

/-- The signed word in the lowest 32 bits of an integer. -/
def signed (n : Int) : Int :=
  let low := Bits.and n 0xFFFFFFFF
  if 0x80000000 ≤ low then low - 0x100000000 else low

/-- The bits of a signed word without a sign. -/
def unsigned (n : Int) : Int := Bits.and (signed n) 0xFFFFFFFF

end Word

end GuardedText
