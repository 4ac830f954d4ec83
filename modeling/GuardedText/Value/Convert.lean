import GuardedText.Text.Class
import GuardedText.Number.Reader
import GuardedText.Value.Basic

/-
  Conversions of values to truth values, texts and numbers. An array's text is that of its items
  with commas between them, so a text exists only if no array lies inside itself; nesting deeper
  than there are objects in the store shows that one does.
-/

namespace GuardedText.Store

/-- Whether a guard takes a value for true. Arrays and objects are true even when empty. -/
def truthy : Value → Except Fault Bool
  | .undefined | .null => .ok false
  | .bool b => .ok b
  | .num n => n.truthy
  | .text t => .ok !t.isEmpty
  | .type _ | .ref _ => .ok true

/-- The text of a function. -/
def functionText : Text := "function () \x7b [native code] \x7d"

/-- The text of a value, in an array at most `fuel` arrays deep. -/
def textWithin (s : Store) : Nat → Value → Except Fault Text
  | _, .undefined => .ok "undefined"
  | _, .null => .ok "null"
  | _, .bool b => .ok (if b then "true" else "false")
  | _, .num n => n.write
  | _, .text t => .ok t
  | _, .type _ => .ok functionText
  | 0, .ref _ => .error .tooDeep
  | fuel + 1, .ref r =>
    match s.items? (.ref r) with
    | some items => do
      let texts ← items.mapM fun item =>
        if isNothing item then pure [] else textWithin s fuel item
      return Text.join "," texts
    | none => .ok (if s.callable (.ref r) then functionText else "[object Object]")

/-- The text of a value. -/
def toText (s : Store) (v : Value) : Except Fault Text := textWithin s (s.size + 1) v

/-- The name that a value gives as a key. -/
def keyText (s : Store) : Value → Except Fault Text
  | .text t => .ok t
  | v => s.toText v

/-- The number that a text spells, white space aside; an empty text is zero. -/
def textToNumber (t : Text) : Except Fault Num :=
  let t := t.strip
  if t.isEmpty then .ok (.int 0)
  else
    match Numeral.ofText? t with
    | some n => Numeral.accept t n
    | none => .ok .nan

/-- The number of a value. -/
def toNumber (s : Store) : Value → Except Fault Num
  | .undefined => .ok .nan
  | .null => .ok (.int 0)
  | .bool b => .ok (.int (if b then 1 else 0))
  | .num n => .ok n
  | .text t => textToNumber t
  | .type _ => .ok .nan
  | .ref r =>
    if (s.items? (.ref r)).isSome || (s.entries? (.ref r)).isSome then do
      textToNumber (← s.toText (.ref r))
    else .ok .nan

/-- A value as a signed word of 32 bits. -/
def toInt32 (s : Store) (v : Value) : Except Fault Int := return (← s.toNumber v).toInt32

/-- A value as an unsigned word of 32 bits. -/
def toUInt32 (s : Store) (v : Value) : Except Fault Int := return (← s.toNumber v).toUInt32

/-- A value that is no object; an object gives its text. -/
def toPrimitive (s : Store) : Value → Except Fault Value
  | .type t => return .text (← s.toText (.type t))
  | .ref r => return .text (← s.toText (.ref r))
  | v => .ok v

/-- The name of a value's kind. -/
def typeName (s : Store) : Value → String
  | .undefined => "undefined"
  | .null => "object"
  | .bool _ => "boolean"
  | .num _ => "number"
  | .text _ => "string"
  | v => if s.callable v then "function" else "object"

/-- The numeral of a number, for values that are numbers or truth values. -/
def numeral : Value → Except Fault Text
  | .num n => n.write
  | .bool b => .ok (if b then "True" else "False")
  | _ => .error .badCall

end GuardedText.Store
