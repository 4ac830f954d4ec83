import GuardedText.Fault
import GuardedText.Number.Decimal
import GuardedText.Number.Word

/-
  Numbers of guards. A number is an exact integer of any size or a double. Sums, differences and
  products of integers stay exact; a double on either side makes the result a double, and an
  integer that is too large for a double is then an overflow. Quotients are doubles.

  Converting between integers and decimal numerals has a limit: an integer with more digits than
  `Numeral.maxDigits` is not written, and a numeral with more digits, zeros in front counted, is not
  read.
-/

namespace GuardedText

/-- The most digits of a decimal numeral that is converted to an integer or from one. -/
def Numeral.maxDigits : Nat := 4300

/-- A number: an exact integer or a double. -/
inductive Num where
  /-- An exact integer. -/
  | int (n : Int)
  /-- A double. -/
  | float (x : Float)

namespace Num

/-- Not a number. -/
def nan : Num := .float Double.nan

/-- Positive infinity. -/
def infinity : Num := .float (Double.infinity false)

/-- The double nearest to a number. -/
def toFloat : Num → Except Fault Float
  | .int n => (Double.ofInt? n).elim (.error .overflow) .ok
  | .float x => .ok x

/-- Whether a number is not a number; asked of an integer, it must fit a double. -/
def isNaN (a : Num) : Except Fault Bool := return Double.isNaN (← a.toFloat)

/-- Whether a number is an infinity; asked of an integer, it must fit a double. -/
def isInfinite (a : Num) : Except Fault Bool := return Double.isInfinite (← a.toFloat)

/-- Whether a number is zero. -/
def isZero : Num → Bool
  | .int n => n == 0
  | .float x => x == 0

/-- The exact order of two numbers; none when one of them is not a number. -/
def compare? : Num → Num → Option Ordering
  | .int m, .int n => some (compare m n)
  | .int m, .float y => Double.compareInt? m y
  | .float x, .int n => (Double.compareInt? n x).map Ordering.swap
  | .float x, .float y => Double.compare? x y

/-- Exact equality of numbers. -/
def equal (a b : Num) : Bool := compare? a b == some .eq

/-- Whether `a` is below `b`. -/
def below (a b : Num) : Bool := compare? a b == some .lt

/-- An exact result on integers, a rounded one as soon as a double takes part. -/
def combine (exact : Int → Int → Int) (rounded : Float → Float → Float) :
    Num → Num → Except Fault Num
  | .int m, .int n => .ok (.int (exact m n))
  | a, b => return .float (rounded (← a.toFloat) (← b.toFloat))

/-- The sum. -/
def add : Num → Num → Except Fault Num := combine (· + ·) (· + ·)

/-- The difference. -/
def sub : Num → Num → Except Fault Num := combine (· - ·) (· - ·)

/-- The product. -/
def mul : Num → Num → Except Fault Num := combine (· * ·) (· * ·)

/-- The number with the other sign; the integer zero has none. -/
def negate : Num → Num
  | .int n => .int (-n)
  | .float x => .float (-x)

/-- The number without its sign. -/
def abs : Num → Num
  | .int n => .int n.natAbs
  | .float x => .float (if Double.isNegative x then -x else x)

/-- The quotient, rounded once; a number over zero is an infinity, zero over zero not a number. -/
def div (a b : Num) : Except Fault Num := do
  if b.isZero then
    if a.isZero then return nan
    let x ← a.toFloat
    if Double.isNaN x then return nan
    let y ← b.toFloat
    return .float (Double.infinity (Double.isNegative x != Double.isNegative y))
  else
    match a, b with
    | .int m, .int n => return .float (← (Double.divInt? m n).elim (.error .overflow) .ok)
    | a, b => return .float ((← a.toFloat) / (← b.toFloat))

/-- The remainder of a division truncated toward zero, computed on doubles. -/
def rem (a b : Num) : Except Fault Num := do
  if b.isZero then return nan
  let x ← a.toFloat
  if Double.isInfinite x || Double.isNaN x then return nan
  let y ← b.toFloat
  if Double.isNaN y then return nan
  if Double.isInfinite y then return a
  let r := (Double.remainder? x y).getD Double.nan
  match a, b with
  | .int _, .int _ => return .int ((Double.truncate? r).getD 0)
  | _, _ => return .float r

/-- A double to the power of a double. Zero to a negative power and a finite power too large for
a double are positive infinity. -/
def powFloat (x y : Float) : Float :=
  if x == 0 && y < 0 then Double.infinity false
  else
    let r := Float.pow x y
    if Double.isInfinite r && !Double.isInfinite x && !Double.isInfinite y then
      Double.infinity false
    else r

/-- The power. Integers stay exact while the exponent is not negative. -/
def pow (a b : Num) : Except Fault Num := do
  let y ← b.toFloat
  if Double.isNaN y || (a.abs.equal (.int 1) && Double.isInfinite y) then return nan
  match a, b with
  | .int m, .int n =>
    if 0 ≤ n then return .int (Int.pow m n.toNat)
    else return .float ((Double.ofInt? m).elim (Double.infinity false) (powFloat · y))
  | a, .float _ =>
    if a.below (.int 0) && !Double.isInteger y then return nan
    else
      match a.toFloat with
      | .ok x => return .float (powFloat x y)
      | .error _ => return infinity
  | .float x, .int _ => return .float (powFloat x y)

/-- The integer that a number is rounded to by `toInteger`; infinities and not-a-number stay. -/
def rounded (toInteger : Float → Option Int) : Num → Num
  | .int n => .int n
  | .float x => (toInteger x).elim (.float x) .int

/-- The nearest integer, a half going up; an integer goes through a double. -/
def round (a : Num) : Except Fault Num := do
  match a with
  | .float x =>
    if Double.isNaN x || Double.isInfinite x then return .float x
    return .int ((Double.floor? (x + 0.5)).getD 0)
  | .int n => return .int ((Double.floor? ((← (Num.int n).toFloat) + 0.5)).getD 0)

/-- The square root; of a negative number it is not a number. -/
def sqrt (a : Num) : Except Fault Num := do
  let x ← a.toFloat
  if Double.isNaN x || x < 0 then return nan else return .float (Float.sqrt x)

/-- The integer of a number, cut off toward zero; none for infinities and not-a-number. -/
def truncate? : Num → Option Int
  | .int n => some n
  | .float x => Double.truncate? x

/-- A number as a signed word of 32 bits. -/
def toInt32 (a : Num) : Int := Word.signed (a.truncate?.getD 0)

/-- A number as an unsigned word of 32 bits. -/
def toUInt32 (a : Num) : Int := Word.unsigned (a.truncate?.getD 0)

/-- Whether a guard takes a number for true: zero and not-a-number are false. -/
def truthy (a : Num) : Except Fault Bool := do
  if a.isZero then return false else return !(← a.isNaN)

/-- The numeral of a number: whole numbers below 10^21 are written positionally, other doubles
with the fewest digits that read back. -/
def toText : Num → Text
  | .int n => Text.ofInt n
  | .float x =>
    match Double.truncate? x with
    | some n =>
      if Double.isInteger x && decide (n.natAbs < tenTo 21) then Text.ofInt n
      else (Double.render .plain [] [] x).map CodePoint.ofChar
    | none =>
      if Double.isNaN x then "NaN" else if Double.isNegative x then "-Infinity" else "Infinity"

/-- The numeral of a number that reads back as the same double. -/
def toFullText : Num → Text
  | .int n => Text.ofInt n
  | .float x => (Double.render .full "inf".toList "nan".toList x).map CodePoint.ofChar

/-- Whether the numeral of a number is written: that of an integer may have only so many digits. -/
def isWritable : Num → Bool
  | .int n => (Text.ofNat n.natAbs).length ≤ Numeral.maxDigits
  | .float _ => true

/-- A number written as its numeral. -/
def write (n : Num) : Except Fault Text :=
  if n.isWritable then .ok n.toText else .error .badValue

/-- A number written as a numeral that reads back as the same double. -/
def writeFull (n : Num) : Except Fault Text :=
  if n.isWritable then .ok n.toFullText else .error .badValue

end Num

end GuardedText
