import GuardedText.Text.Case
import GuardedText.Value.Convert

/-
  The functions on numbers: reading them from texts, the least and the greatest of some, and a
  numeral with a given number of places.
-/

namespace GuardedText.Store

/-- The integer at the start of a text, in a radix that may be announced by `0x`. Leading signs are
passed over, and the first decides. -/
def parseInt (s : Store) (v radix : Value) : Except Fault Num := do
  let t := (← s.toText v).strip
  let base ← match radix with
    | .undefined => pure 10
    | v => s.toInt32 v
  let negative := t.head? == some (CodePoint.ofChar '-')
  let t := t.dropWhile fun (c : CodePoint) => c == '+' || c == '-'
  let announced := (base == 0 || base == 16) && Text.lower (t.take 2) == Text.ofString "0x"
  let t := if announced then t.drop 2 else t
  let base := if announced then 16 else if base == 0 then 10 else base
  if base < 2 || 36 < base then return .nan
  match (Numeral.digits base.toNat (Text.lower t)).1 with
  | [] => return .nan
  | ds => do
    let n : Int := (← Numeral.read base.toNat ds : Nat)
    return .int (if negative then -n else n)

/-- The decimal at the start of a text. -/
def parseFloat (s : Store) (v : Value) : Except Fault Num := do
  let t := (← s.toText v).strip
  match Numeral.signed? t with
  | some (n, _) => Numeral.accept t n
  | none => return .nan

/-- The number among some that comes before the others; not a number if one of them is not. -/
def extreme (before : Num → Num → Bool) (none : Num) (ns : List Num) : Except Fault Num := do
  for n in ns do
    if ← n.isNaN then return .nan
  match ns with
  | [] => return none
  | n :: rest => return rest.foldl (fun best m => if before m best then m else best) n

/-- A numeral with a number of places after the point. -/
def toFixed (s : Store) (n : Num) (digits : Value) : Except Fault Text := do
  let places ← match ← s.toNumber digits with
    | .int k => pure k
    | .float x =>
      match Double.truncate? x with
      | some k => pure k
      | none => throw (if Double.isNaN x then .badValue else .overflow)
  if places < 0 || twoTo 31 ≤ places then throw .badValue
  return (Double.fixed places.toNat (← n.toFloat)).map CodePoint.ofChar

end GuardedText.Store
