import GuardedText.Text.Basic
import GuardedText.Text.Letter
import GuardedText.Text.Numeral
import GuardedText.Text.Mark

/-
  Character classes. Each class is a predicate on code points; the classes of ASCII are decided
  by comparison, the others by the tables of `Letter`, `Numeral` and `Mark`.
-/

namespace GuardedText

namespace Text

/-- Whether some range holds `n`. -/
def inRanges (ranges : List (Nat × Nat)) (n : Nat) : Bool :=
  ranges.any fun (lo, hi) => decide (lo ≤ n) && decide (n ≤ hi)

end Text

namespace CodePoint

/-- Whether `c` lies between the characters `lo` and `hi`, both included. -/
def between (lo hi : Char) (c : CodePoint) : Bool :=
  decide (lo.toNat ≤ c.val) && decide (c.val ≤ hi.toNat)

/-- White space: what a strip removes and what separates a tag from its payload. -/
def isBlank (c : CodePoint) : Bool :=
  let n := c.val
  (9 ≤ n && n ≤ 13) || (0x1C ≤ n && n ≤ 0x20) || n == 0x85 || n == 0xA0 || n == 0x1680 ||
    (0x2000 ≤ n && n ≤ 0x200A) || n == 0x2028 || n == 0x2029 || n == 0x202F || n == 0x205F ||
    n == 0x3000

/-- The four characters that end a line; CR followed by LF is one terminator. -/
def isLineEnd (c : CodePoint) : Bool :=
  let n := c.val
  n == 0x0A || n == 0x0D || n == 0x2028 || n == 0x2029

/-- Horizontal white space of a script, the byte order mark included. -/
def isHorizontal (c : CodePoint) : Bool :=
  let n := c.val
  n == 0x20 || n == 0x09 || n == 0x0B || n == 0x0C || n == 0xA0 || n == 0x1680 ||
    (0x2000 ≤ n && n ≤ 0x200A) || n == 0x202F || n == 0x205F || n == 0x3000 || n == 0xFEFF

/-- An ASCII letter. -/
def isAsciiLetter (c : CodePoint) : Bool := between 'a' 'z' c || between 'A' 'Z' c

/-- An ASCII digit. -/
def isAsciiDigit (c : CodePoint) : Bool := between '0' '9' c

/-- The value of a decimal digit of any script. -/
def decimalValue? (c : CodePoint) : Option Nat :=
  if c.val < 0x80 then (if isAsciiDigit c then some (c.val - 0x30) else none)
  else (Text.decimalZeros.find? fun z => decide (z ≤ c.val) && decide (c.val < z + 10)).map
    (c.val - ·)

/-- A decimal digit of any script. -/
def isDecimal (c : CodePoint) : Bool := (decimalValue? c).isSome

/-- A digit in the wide sense, superscripts and the like included. -/
def isDigit (c : CodePoint) : Bool := isDecimal c || Text.inRanges Text.lonelyDigitRanges c.val

/-- A letter of any script. -/
def isLetter (c : CodePoint) : Bool :=
  if c.val < 0x80 then isAsciiLetter c else Text.inRanges Text.letterRanges c.val

/-- A word character: a letter or number of any script, or the underscore. -/
def isWord (c : CodePoint) : Bool :=
  if c.val < 0x80 then isAsciiLetter c || isAsciiDigit c || c.val == 0x5F
  else isLetter c || isDecimal c || Text.inRanges Text.letterNumberRanges c.val ||
    Text.inRanges Text.otherNumberRanges c.val

/-- A word character or the dollar sign. -/
def isWordOrDollar (c : CodePoint) : Bool := c.val == 0x24 || isWord c

/-- The value of a digit in a radix up to 36. -/
def digitValue? (c : CodePoint) : Option Nat :=
  if isAsciiDigit c then some (c.val - 0x30)
  else if between 'a' 'z' c then some (c.val - 0x61 + 10)
  else if between 'A' 'Z' c then some (c.val - 0x41 + 10)
  else none

/-- The value of a hexadecimal digit. -/
def hexValue? (c : CodePoint) : Option Nat := (digitValue? c).filter (· < 16)

/-- A hexadecimal digit. -/
def isHex (c : CodePoint) : Bool := (hexValue? c).isSome

/-- An ASCII capital becomes small, all else stays. -/
def toAsciiLower (c : CodePoint) : CodePoint :=
  if between 'A' 'Z' c then Fin.ofNat 0x110000 (c.val + 32) else c

/-- A surrogate, which no well-formed text holds alone. -/
def isSurrogate (c : CodePoint) : Bool := decide (0xD800 ≤ c.val) && decide (c.val < 0xE000)

end CodePoint

namespace Text

/-- `s` without white space at either end. -/
def strip (s : Text) : Text := trimBoth CodePoint.isBlank s

end Text

end GuardedText
