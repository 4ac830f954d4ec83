import GuardedText.Number.Double

/-
  Decimal numerals of doubles. `shortest` gives the fewest significant digits that read back as
  the same double and, among those, the nearest; `fixed` rounds the exact value to a number of
  places, a tie going to the even neighbour; `ofDecimal` reads digits and an exponent, rounding
  once.
-/

namespace GuardedText.Double

/-- The number `digits` · 10^`exponent`. -/
structure Decimal where
  /-- The significant digits as a number. -/
  digits : Nat
  /-- The power of ten. -/
  exponent : Int
  deriving DecidableEq, Repr

namespace Decimal

/-- The numerator and denominator of a decimal. -/
def fraction (d : Decimal) : Nat × Nat :=
  match d.exponent with
  | .ofNat k => (d.digits * tenTo k, 1)
  | .negSucc k => (d.digits, tenTo (k + 1))

/-- The decimal with no zero at its end. -/
def trim : Nat → Decimal → Decimal
  | 0, d => d
  | fuel + 1, d =>
    if d.digits ≠ 0 ∧ d.digits % 10 = 0 then trim fuel ⟨d.digits / 10, d.exponent + 1⟩ else d

end Decimal

/-- The double nearest to ± `digits` · 10^`exponent`, an infinity when it is too large. -/
def ofDecimal (negative : Bool) (d : Decimal) : Float :=
  let size : Int := (Nat.toDigits 10 d.digits).length + d.exponent
  if d.digits = 0 then withSign negative 0
  else if size > 400 then infinity negative
  else if size < -400 then withSign negative 0
  else
    let (num, den) := d.fraction
    (nearest? negative num den).getD (infinity negative)

/-- Whether `d` reads back as the double with the given bits. -/
def readsBack (bits : Nat) (d : Decimal) : Bool :=
  let (num, den) := d.fraction
  nearestBits? num den == some bits

/-- The decimal exponent of the leading digit of `num / den`, found by search from an
estimate that is never too high. -/
def leadingExponent (num den : Nat) : Int :=
  let estimate : Int := (((Nat.log2 num : Int) - (Nat.log2 den : Int) - 1) * 30103) / 100000 - 1
  let reaches (e : Int) : Bool :=
    match e with
    | .ofNat k => decide (den * tenTo k ≤ num)
    | .negSucc k => decide (den ≤ num * tenTo (k + 1))
  if reaches (estimate + 3) then estimate + 3
  else if reaches (estimate + 2) then estimate + 2
  else if reaches (estimate + 1) then estimate + 1
  else estimate

/-- The best decimal with `count` significant digits that reads back, if there is one: of the two
neighbours of the value on that grid the nearer, on a tie the even one. -/
def withDigits? (bits num den : Nat) (lead : Int) (count : Nat) : Option Decimal :=
  let e : Int := lead - (count : Int) + 1
  let (n, d) :=
    match e with
    | .ofNat k => (num, den * tenTo k)
    | .negSucc k => (num * tenTo (k + 1), den)
  let best : Decimal := ⟨roundDiv n d, e⟩
  let low : Decimal := ⟨n / d, e⟩
  let high : Decimal := ⟨n / d + 1, e⟩
  [best, low, high].find? (readsBack bits)

/-- The fewest digits that read back as ± `m` · 2^`q`, for a positive `m`. -/
def shortest (m : Nat) (q : Int) : Decimal :=
  let (num, den) := Double.fraction m q
  let bits := (nearestBits? num den).getD 0
  let lead := leadingExponent num den
  let found := (List.range 17).findSome? fun k => withDigits? bits num den lead (k + 1)
  Decimal.trim 20 (found.getD ⟨0, 0⟩)

/-- How positional numerals and numerals with an exponent are told apart and written. -/
structure Style where
  /-- The least decimal exponent written positionally. -/
  low : Int
  /-- The least decimal exponent above it written with an exponent again. -/
  high : Int
  /-- The least number of digits in an exponent. -/
  exponentWidth : Nat
  /-- Whether a whole number gets a zero after its point. -/
  keepsPoint : Bool

/-- Digits padded with zeros on the left to a width. -/
def padded (width : Nat) (n : Nat) : List Char :=
  let ds := Nat.toDigits 10 n
  List.replicate (width - ds.length) '0' ++ ds

/-- The numeral of a positive decimal in a style. -/
def Style.write (style : Style) (d : Decimal) : List Char :=
  let ds := Nat.toDigits 10 d.digits
  let lead : Int := d.exponent + ds.length - 1
  if style.low ≤ lead ∧ lead < style.high then
    match d.exponent with
    | .ofNat k => ds ++ List.replicate k '0' ++ (if style.keepsPoint then ['.', '0'] else [])
    | .negSucc k =>
      if lead < 0 then '0' :: '.' :: (List.replicate (lead + 1).natAbs '0' ++ ds)
      else ds.take (ds.length - (k + 1)) ++ '.' :: ds.drop (ds.length - (k + 1))
  else
    let tail := ds.drop 1
    ds.take 1 ++ (if tail.isEmpty then [] else '.' :: tail) ++
      ('e' :: (if lead < 0 then '-' else '+') :: padded style.exponentWidth lead.natAbs)

/-- Numerals that read back: positional from 10^-4 up to 10^16, always with a point or an
exponent, which has two digits at least. -/
def Style.full : Style := ⟨-4, 16, 2, true⟩

/-- The numerals of guards: as `Style.full`, without a point on whole numbers and without zeros
in front of an exponent. -/
def Style.plain : Style := ⟨-4, 16, 1, false⟩

/-- The numeral of a double in a style, with the given names of infinity and of not-a-number. -/
def render (style : Style) (infinityName nanName : List Char) (x : Float) : List Char :=
  match decode x with
  | .nan => nanName
  | .infinite negative => if negative then '-' :: infinityName else infinityName
  | .finite negative m q =>
    let body := if m = 0 then (if style.keepsPoint then ['0', '.', '0'] else ['0'])
      else style.write (shortest m q)
    if negative then '-' :: body else body

/-- A double to a number of places after the point. The exact value is rounded, a tie going to
the even neighbour; the sign of a zero is kept. -/
def fixed (places : Nat) (x : Float) : List Char :=
  match decode x with
  | .nan => ['n', 'a', 'n']
  | .infinite negative => if negative then ['-', 'i', 'n', 'f'] else ['i', 'n', 'f']
  | .finite negative m q =>
    let (num, den) := Double.fraction m q
    let scaled := roundDiv (num * tenTo places) den
    let ds := padded (places + 1) scaled
    let whole := ds.take (ds.length - places)
    let body := if places = 0 then whole else whole ++ '.' :: ds.drop (ds.length - places)
    if negative then '-' :: body else body

end GuardedText.Double
