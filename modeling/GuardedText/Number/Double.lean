import GuardedText.Number.Power

/-
  Exact arithmetic on double-precision numbers. A finite double is ± m · 2^q for a natural m and
  an integer q; `decode` reads m and q off its bits, `nearest?` rounds a quotient of naturals to
  the closest double, a tie going to the even one. Everything here is exact integer arithmetic.
-/

namespace GuardedText.Double

/-- A double taken apart. -/
inductive Parts where
  /-- Not a number. -/
  | nan
  /-- An infinity and whether it is negative. -/
  | infinite (negative : Bool)
  /-- The number ± `m` · 2^`q`. -/
  | finite (negative : Bool) (m : Nat) (q : Int)
  deriving DecidableEq, Repr

/-- The sign, mantissa and exponent of a double. -/
def decode (x : Float) : Parts :=
  let bits := x.toBits.toNat
  let negative := bits / twoTo 63 == 1
  let e : Nat := bits / twoTo 52 % twoTo 11
  let f : Nat := bits % twoTo 52
  if e = 2047 then (if f = 0 then .infinite negative else .nan)
  else if e = 0 then .finite negative f (-1074)
  else .finite negative (f + twoTo 52) ((e : Int) - 1075)

/-- The double with the given sign and the given bits below the sign. -/
def withSign (negative : Bool) (magnitude : Nat) : Float :=
  Float.ofBits (UInt64.ofNat (if negative then twoTo 63 + magnitude else magnitude))

/-- The infinity of a sign. -/
def infinity (negative : Bool) : Float := withSign negative (2047 * twoTo 52)

/-- Not a number. -/
def nan : Float := Float.ofBits 0x7FF8000000000000

/-- A quotient rounded to the nearest natural number, a tie going to the even neighbour. -/
def roundDiv (num den : Nat) : Nat :=
  let q := num / den
  let r := num % den
  if 2 * r < den then q else if 2 * r = den then (if q % 2 = 0 then q else q + 1) else q + 1

/-- The numerator and denominator of `m` · 2^`q`. -/
def fraction (m : Nat) (q : Int) : Nat × Nat :=
  match q with
  | .ofNat k => (m * twoTo k, 1)
  | .negSucc k => (m, twoTo (k + 1))

/-- The bits of the double nearest to `num / den`; none when it is too large for a double. -/
def nearestBits? (num den : Nat) : Option Nat :=
  if num = 0 then some 0
  else
    let estimate : Int := 52 - ((Nat.log2 num : Int) - (Nat.log2 den : Int))
    let scaled (s : Int) : Nat × Nat :=
      match s with
      | .ofNat k => (num * twoTo k, den)
      | .negSucc k => (num, den * twoTo (k + 1))
    let shift := if (scaled estimate).1 / (scaled estimate).2 < twoTo 52 then estimate + 1
      else estimate
    let shift := if shift > 1074 then 1074 else shift
    let m := roundDiv (scaled shift).1 (scaled shift).2
    let bits := (1074 - shift).toNat * twoTo 52 + m
    if bits < 2047 * twoTo 52 then some bits else none

/-- The double nearest to ± `num / den`; none when it is too large for a double. -/
def nearest? (negative : Bool) (num den : Nat) : Option Float :=
  (nearestBits? num den).map (withSign negative)

/-- The double nearest to an integer; none when it is too large for a double. -/
def ofInt? (n : Int) : Option Float := nearest? (decide (n < 0)) n.natAbs 1

/-- The quotient of two integers, rounded once; none when it is too large for a double. -/
def divInt? (a b : Int) : Option Float :=
  nearest? (decide (a < 0) != decide (b < 0)) a.natAbs b.natAbs

/-- Whether a double is not a number. -/
def isNaN (x : Float) : Bool := decode x == .nan

/-- Whether a double is an infinity. -/
def isInfinite (x : Float) : Bool :=
  match decode x with
  | .infinite _ => true
  | _ => false

/-- Whether the sign of a double is set. -/
def isNegative (x : Float) : Bool := decide (twoTo 63 ≤ x.toBits.toNat)

/-- The integer next to a finite double in the direction of zero. -/
def truncate? (x : Float) : Option Int :=
  match decode x with
  | .finite negative m q =>
    let (num, den) := fraction m q
    some (if negative then -((num / den : Nat) : Int) else ((num / den : Nat) : Int))
  | _ => none

/-- Whether a double is an integer. -/
def isInteger (x : Float) : Bool :=
  match decode x with
  | .finite _ m q => (let (num, den) := fraction m q; num % den == 0)
  | _ => false

/-- The greatest integer that is not above a finite double. -/
def floor? (x : Float) : Option Int :=
  (truncate? x).map fun t => if isNegative x && !isInteger x then t - 1 else t

/-- The least integer that is not below a finite double. -/
def ceil? (x : Float) : Option Int :=
  (truncate? x).map fun t => if !isNegative x && !isInteger x then t + 1 else t

/-- The order of an integer and a double; none when the double is not a number. -/
def compareInt? (n : Int) (x : Float) : Option Ordering :=
  match decode x with
  | .nan => none
  | .infinite negative => some (if negative then .gt else .lt)
  | .finite negative m q =>
    let (num, den) := fraction m q
    let signed : Int := if negative then -(num : Int) else num
    some (compare (n * (den : Int)) signed)

/-- The order of two doubles; none when one of them is not a number. -/
def compare? (x y : Float) : Option Ordering :=
  if isNaN x || isNaN y then none
  else if x < y then some .lt
  else if x == y then some .eq
  else some .gt

/-- The remainder of a division truncated toward zero, with the sign of the dividend. It is
exact. A zero divisor and an infinite dividend have none. -/
def remainder? (x y : Float) : Option Float :=
  match decode x, decode y with
  | .finite negative m q, .finite _ m' q' =>
    if m' = 0 then none
    else
      let e := min q q'
      let r := (m * twoTo (q - e).toNat) % (m' * twoTo (q' - e).toNat)
      let (num, den) := fraction r e
      nearest? negative num den
  | .finite _ _ _, .infinite _ => some x
  | _, _ => none

end GuardedText.Double
