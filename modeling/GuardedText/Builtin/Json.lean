import GuardedText.Json.Reader
import GuardedText.Value.Convert

/-
  Values as JSON and back. Functions and `undefined` become null, and so do numbers without a
  numeral in JSON; an entry of a mapping that is `undefined` is left out. Host objects have no JSON.
-/

namespace GuardedText.Store

/-- The document of a value, in arrays and mappings at most `fuel` deep. -/
def jsonWithin (s : Store) : Nat → Value → Except Fault Json
  | _, .undefined | _, .null | _, .type _ => .ok .null
  | _, .bool b => .ok (.bool b)
  | _, .num n => do
    let x ← n.toFloat
    if Double.isNaN x || Double.isInfinite x then return .null else return .number n
  | _, .text t => .ok (.text t)
  | 0, .ref _ => .error .tooDeep
  | fuel + 1, .ref r =>
    match s[r]? with
    | some (.list items) | some (.tuple items) =>
      return .array (← items.mapM (jsonWithin s fuel))
    | some (.dict entries) | some (.frozen entries) => do
      let kept := entries.filter fun (_, v) => match v with | .undefined => false | _ => true
      let members ← kept.mapM fun (k, v) => return (← k.write, ← jsonWithin s fuel v)
      return .object (Table.insertAll [] members)
    | _ => if s.callable (.ref r) then .ok .null else .error .badCall

/-- The text of a value in JSON; a function or `undefined` has none. -/
def stringify (s : Store) (v : Value) : Except Fault Value :=
  match v with
  | .undefined => .ok .undefined
  | v =>
    if s.callable v then .ok .undefined
    else return .text (Json.render false (← jsonWithin s (s.size + 1) v))

end GuardedText.Store

namespace GuardedText.Eval

mutual

/-- The value of a document, with new objects for its arrays and objects. -/
def ofJson : Json → Eval Value
  | .null => return .null
  | .bool b => return .bool b
  | .number n => return .num n
  | .text t => return .text t
  | .array items => do allocate (.list (← ofItems items))
  | .object members => do allocate (.dict (← ofMembers members))

/-- The values of some documents. -/
def ofItems : List Json → Eval (List Value)
  | [] => return []
  | item :: items => do
    let v ← ofJson item
    return v :: (← ofItems items)

/-- The entries of some members. -/
def ofMembers : List (Text × Json) → Eval Entries
  | [] => return []
  | (k, item) :: members => do
    let v ← ofJson item
    return (.name k, v) :: (← ofMembers members)

end

/-- The value that a text in JSON spells. -/
def parseJson (t : Text) : Eval Value :=
  match Json.parse t with
  | .ok document => ofJson document
  | .error e => refuse (.malformedJson (e.message t))

end GuardedText.Eval
