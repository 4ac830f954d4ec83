import GuardedText.Text.Quoted
import GuardedText.Builtin.Object
import GuardedText.Value.Image

/-
  What the host supplies: functions that count, record, fail or answer later, and types that can be
  called to convert a value.
-/

namespace GuardedText

/-- What the host calls a type. -/
def HostType.name : HostType → String
  | .integer => "int"
  | .double => "float"
  | .string => "str"
  | .boolean => "bool"
  | .list => "list"
  | .mapping => "dict"

/-- How the host writes a key. -/
def Key.display : Key → Except Fault Text
  | .name n => .ok n.quoted
  | .number n => (Num.int n).writeFull

namespace Store

/-- How the host writes a value inside the objects of `path`; texts inside others stand in quotes.
What lies inside itself is not opened again; of objects whose text tells where they lie in memory,
none is given. -/
def display (s : Store) : Nat → List Ref → Bool → Value → Except Fault Text
  | _, _, _, .undefined => .ok "undefined"
  | _, _, _, .null => .ok "None"
  | _, _, _, .bool b => .ok (if b then "True" else "False")
  | _, _, _, .num n => n.writeFull
  | _, _, inner, .text t => .ok (if inner then t.quoted else t)
  | _, _, _, .type t => .ok ("<class '" ++ Text.ofString t.name ++ "'>")
  | 0, _, _, .ref _ => .ok "..."
  | fuel + 1, path, _, .ref r =>
    let shown (v : Value) : Except Fault Text := display s fuel (r :: path) true v
    match path.contains r, s[r]? with
    | true, some (.list _) => .ok "[...]"
    | true, some (.tuple _) => .ok "(...)"
    | true, some (.dict _) => .ok "\x7b...\x7d"
    | true, some (.record _) => .ok "namespace(...)"
    | _, some (.list items) => return "[" ++ Text.join ", " (← items.mapM shown) ++ "]"
    | _, some (.tuple items) =>
      return "(" ++ Text.join ", " (← items.mapM shown) ++
        (if items.length == 1 then (",)" : Text) else ")")
    | _, some (.dict entries) => do
      let texts ← entries.mapM fun (k, v) => return (← k.display) ++ ": " ++ (← shown v)
      return "\x7b" ++ Text.join ", " texts ++ "\x7d"
    | _, some (.record attributes) => do
      let texts ← (attributes.filter fun (k, _) => !k.isEmpty).mapM fun (k, v) =>
        return k ++ "=" ++ (← shown v)
      return "namespace(" ++ Text.join ", " texts ++ ")"
    | _, some (.arrow params _ _ _) => .ok ("ArrowFunction(" ++ Text.join ", " params ++ ")")
    | _, _ => .error (.misuse (.internal "str"))

/-- The text that the host gives for a value. -/
def displayOf (s : Store) (v : Value) : Except Fault Text := display s (s.size + 1) [] false v

/-- Whether the host takes a value for true: empty texts, arrays and mappings are false. -/
def hostTruthy (s : Store) : Value → Bool
  | .undefined | .null => false
  | .bool b => b
  | .num n => !n.isZero
  | .text t => !t.isEmpty
  | v =>
    match s.items? v, s.entries? v with
    | some items, _ => !items.isEmpty
    | _, some entries => !entries.isEmpty
    | none, none => true

/-- The integer that a value is for the host. -/
def hostInteger? : Value → Option Int
  | .bool b => some (if b then 1 else 0)
  | .num (.int n) => some n
  | _ => none

/-- The elements that the host finds in a value. -/
def hostItems (s : Store) (v : Value) : Except Fault (List Value) :=
  match v, s.items? v, s.entries? v with
  | .text t, _, _ => .ok (characters t)
  | _, some items, _ => .ok items
  | _, _, some entries => .ok (entries.map fun (k, _) =>
      match k with
      | .name n => .text n
      | .number n => .num (.int n))
  | _, _, _ => .error .badCall

/-- The key of a mapping that a value is for the host; arrays, mappings and host objects with
attributes are none, and other keys than texts and integers are not told here. -/
def hostKey (s : Store) (v : Value) : Except Fault Key :=
  match v with
  | .text k => .ok (.name k)
  | .num (.int k) => .ok (.number k)
  | v =>
    match s.get? v with
    | some (.list _) | some (.dict _) | some (.record _) => .error .badCall
    | _ => .error (.misuse (.internal "dict"))

/-- The entry that a pair gives to a mapping. -/
def hostPair (s : Store) (v : Value) : Except Fault (Key × Value) := do
  match ← s.hostItems v with
  | [k, v] => return (← s.hostKey k, v)
  | _ => throw .badValue

/-- Whether the host finds a function `keys` in a value, which it would call. -/
def offersKeys (s : Store) (v : Value) : Bool :=
  (((s.get? v).bind attributes?).bind (Table.lookup? (Text.ofString "keys"))).isSome

end Store

namespace Eval

open Store

/-- A value converted to a type of the host. -/
def convert (t : HostType) (args : List Value) : Eval Value := do
  match t, args with
  | .integer, [] => return .num (.int 0)
  | .integer, [.bool b] => return .num (.int (if b then 1 else 0))
  | .integer, [.num n] =>
    match n.truncate? with
    | some k => return .num (.int k)
    | none => throw (if ← lift n.isNaN then .badValue else .overflow)
  | .integer, [.text t] =>
    (Numeral.integer? 10 t).elim (throw .badValue) fun n => return .num (.int n)
  | .integer, [.text t, base] =>
    match hostInteger? base with
    | some base =>
      (Numeral.integerIn? base t).elim (throw .badValue) fun n => return .num (.int n)
    | none => throw .badCall
  | .double, [] => return .num (.float 0)
  | .double, [.bool b] => return .num (.float (if b then 1 else 0))
  | .double, [.num n] => return .num (.float (← lift n.toFloat))
  | .double, [.text t] =>
    (Numeral.double? t).elim (throw .badValue) fun x => return .num (.float x)
  | .string, [] => return .text []
  | .string, [v] => return .text (← read (·.displayOf v))
  | .boolean, [] => return .bool false
  | .boolean, [v] => return .bool ((← get).store.hostTruthy v)
  | .list, [] => allocate (.list [])
  | .list, [v] => do allocate (.list (← read (·.hostItems v)))
  | .mapping, [] => allocate (.dict [])
  | .mapping, [v] => do
    match (← get).store.entries? v with
    | some entries => allocate (.dict entries)
    | none => do
      if (← get).store.offersKeys v then refuse (.internal "keys")
      let items ← read (·.hostItems v)
      let entries ← items.mapM fun item => read (·.hostPair item)
      allocate (.dict (Table.insertAll [] entries))
  | _, _ => throw .badCall

/-- A call of a function of the host. -/
def callHost (f : HostFunction) (args : List Value) : Eval Value := do
  let first := args.headD .undefined
  match f with
  | .boom => throw .hostFailure
  | .track =>
    modify fun w => { w with calls := args.map w.store.imageOf :: w.calls }
    return first
  | .identity => return first
  | .argc => return .num (.int args.length)
  | .later => allocate (.pending (.later first))
  | .failLater => allocate (.pending .failing)

end Eval

end GuardedText
