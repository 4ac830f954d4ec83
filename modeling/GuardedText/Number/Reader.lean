import GuardedText.Text.Class
import GuardedText.Number.Basic

/-
  Reading numbers. A decimal may have a sign, a fraction and an exponent; its digits may belong
  to any script. A decimal without point and exponent is an exact integer, every other one a
  double, rounded once. Only so many digits are read as an integer, unless the radix is a power of
  two.
-/

namespace GuardedText.Numeral

/-- The natural number of digit values, most significant first. -/
def ofDigits (radix : Nat) (ds : List Nat) : Nat := ds.foldl (fun n d => n * radix + d) 0

/-- Whether so many digits in a radix are read as an integer. -/
def isReadable (radix count : Nat) : Bool := [2, 4, 8, 16, 32].contains radix || count ≤ maxDigits

/-- The natural number of digit values if it is read, most significant first. -/
def read (radix : Nat) (ds : List Nat) : Except Fault Nat :=
  if isReadable radix ds.length then .ok (ofDigits radix ds) else .error .badValue

/-- The values of the decimal digits at the start of `s`, and the rest. -/
def decimals : Text → List Nat × Text
  | [] => ([], [])
  | c :: s =>
    match c.decimalValue? with
    | some v => let (vs, rest) := decimals s; (v :: vs, rest)
    | none => ([], c :: s)

/-- The values of the digits below `radix` at the start of `s`, and the rest. -/
def digits (radix : Nat) : Text → List Nat × Text
  | [] => ([], [])
  | c :: s =>
    match c.digitValue? with
    | some v =>
      if v < radix then (let (vs, rest) := digits radix s; (v :: vs, rest)) else ([], c :: s)
    | none => ([], c :: s)

/-- Whether a sign at the start of `s` is a minus, and what follows the sign. -/
def sign : Text → Bool × Text
  | [] => (false, [])
  | c :: s => if c == '-' then (true, s) else if c == '+' then (false, s) else (false, c :: s)

/-- An exponent mark with its digits at the start of `s`; without one the exponent is absent. -/
def exponent (s : Text) : Option Int × Text :=
  match s with
  | [] => (none, [])
  | c :: t =>
    if c == 'e' || c == 'E' then
      let (negative, u) := sign t
      let (ds, rest) := decimals u
      if ds.isEmpty then (none, s)
      else
        let n : Int := (ofDigits 10 ds : Nat)
        (some (if negative then -n else n), rest)
    else (none, s)

/-- An unsigned decimal at the start of `s`, its sign being given, and the rest. -/
def unsigned? (negative : Bool) (s : Text) : Option (Num × Text) :=
  let (whole, rest) := decimals s
  let (pointed, fraction, rest) : Bool × List Nat × Text :=
    match rest with
    | [] => (false, [], rest)
    | c :: t =>
      if c == '.' then (let (f, u) := decimals t; (true, f, u)) else (false, [], rest)
  if whole.isEmpty && fraction.isEmpty then none
  else
    let (power, rest) := exponent rest
    let all := ofDigits 10 (whole ++ fraction)
    if pointed || power.isSome then
      some (.float (Double.ofDecimal negative ⟨all, power.getD 0 - fraction.length⟩), rest)
    else some (.int (if negative then -(all : Int) else all), rest)

/-- A decimal or `Infinity` at the start of `s`, perhaps with a sign, and the rest. -/
def signed? (s : Text) : Option (Num × Text) :=
  let (negative, t) := sign s
  match Text.after? "Infinity" t with
  | some rest => some (.float (Double.infinity negative), rest)
  | none => unsigned? negative t

/-- The radix that a zero followed by a letter announces. -/
def announcedRadix? (c : CodePoint) : Option Nat :=
  if c == 'x' || c == 'X' then some 16
  else if c == 'o' || c == 'O' then some 8
  else if c == 'b' || c == 'B' then some 2
  else none

/-- An integer written with its radix, such as `0x1F`, and the rest. -/
def radixed? : Text → Option (Int × Text)
  | c :: d :: s =>
    if c == '0' then
      (announcedRadix? d).bind fun radix =>
        let (ds, rest) := digits radix s
        if ds.isEmpty then none else some ((ofDigits radix ds : Nat), rest)
    else none
  | _ => none

/-- The number that a whole text spells. -/
def ofText? (s : Text) : Option Num :=
  match radixed? s with
  | some (n, []) => some (.int n)
  | _ =>
    match signed? s with
    | some (n, []) => some n
    | _ => none

/-- A number that stands at the start of `s`, if it is read: its digits are counted if it is an
integer. -/
def accept (s : Text) : Num → Except Fault Num
  | .int n =>
    if isReadable 10 (decimals (sign s).2).1.length then .ok (.int n) else .error .badValue
  | .float x => .ok (.float x)

/-- `s` without the underscores that stand between two digits; none when one stands elsewhere. -/
def ungrouped? (isDigit : CodePoint → Bool) (before : Bool) : Text → Option Text
  | [] => some []
  | c :: s =>
    if c == '_' then
      match s with
      | d :: _ => if before && isDigit d then ungrouped? isDigit false s else none
      | [] => none
    else (ungrouped? isDigit (isDigit c) s).map (c :: ·)

/-- A natural number in a given radix, its digits perhaps grouped. -/
def natural? (radix : Nat) (s : Text) : Option Nat :=
  let value (c : CodePoint) : Option Nat := (c.decimalValue?.or c.digitValue?).filter (· < radix)
  (ungrouped? (fun c => (value c).isSome) false s).bind fun u =>
    match u.mapM value with
    | some (d :: ds) => (read radix (d :: ds)).toOption
    | _ => none

/-- An integer in a given radix, with white space around it, a sign and grouped digits. -/
def integer? (radix : Nat) (s : Text) : Option Int :=
  let (negative, t) := sign s.strip
  (natural? radix t).map fun n => if negative then -(n : Int) else n

/-- Digits with the radix that they are in, for a base: the mark of that base may stand before them,
and base 0 leaves the choice of the radix to the mark. -/
def marked (base : Nat) (s : Text) : Nat × Text :=
  let plain := (if base = 0 then 10 else base, s)
  match s with
  | c :: d :: t =>
    match if c.decimalValue? = some 0 then announcedRadix? d else none with
    | some radix =>
      if base = 0 || base = radix then
        (radix, if t.head? == some ('_' : Char) then t.tail else t)
      else plain
    | none => plain
  | _ => plain

/-- An integer in the radix of a base; without a mark, base 0 takes no digits after a zero but
zeros. -/
def integerIn? (base : Int) (s : Text) : Option Int :=
  if base < 0 || base = 1 || 36 < base then none
  else
    let (negative, t) := sign s.strip
    let (radix, u) := marked base.toNat t
    (natural? radix u).bind fun n =>
      if base = 0 && u.length = t.length && t.head?.bind CodePoint.decimalValue? = some 0 && n ≠ 0
      then none
      else some (if negative then -(n : Int) else n)

/-- A double written out with white space around it, a sign and grouped digits, or named. -/
def double? (s : Text) : Option Float :=
  let (negative, t) := sign s.strip
  let name := t.map CodePoint.toAsciiLower
  if name = Text.ofString "inf" ∨ name = Text.ofString "infinity" then
    some (Double.infinity negative)
  else if name = Text.ofString "nan" then some Double.nan
  else
    (ungrouped? CodePoint.isDecimal false t).bind fun u =>
      match unsigned? negative u with
      | some (.int n, []) =>
        some (if n = 0 then Double.withSign negative 0
          else (Double.ofInt? n).getD (Double.infinity negative))
      | some (.float x, []) => some x
      | _ => none

end GuardedText.Numeral
