import GuardedText.Builtin.Text
import GuardedText.Builtin.Json
import GuardedText.Builtin.Number
import GuardedText.Builtin.Object
import GuardedText.Value.Equality

/-
  Calls of built-in functions. Functions that take a function are given the way to call one. An
  array that a function changes while it is gone through is seen as it is at each step.
-/

namespace GuardedText.Eval

open Store

/-- How a value is called. -/
abbrev Caller := Value → List Value → Eval Value

/-- A list of values as a new array. -/
def newList (items : List Value) : Eval Value := allocate (.list items)

/-- The items of an array at this moment. -/
def itemsNow (v : Value) : Eval (List Value) := return ((← get).store.items? v).getD []

/-- The most items that an array is gone through if these are its items at first. -/
def itemLimit (items : List Value) : Nat := twoTo 32 + items.length

/-- A function called on the items of an array from index `i` on, each with its index and the
array; `step` takes an item and its result and tells whether to stop. -/
def visit {α : Type} (call : Caller) (self f : Value)
    (step : α → Value → Value → Except Fault (α × Bool)) : Nat → Nat → α → Eval α
  | 0, _, _ => throw .tooDeep
  | fuel + 1, i, acc => do
    match (← itemsNow self)[i]? with
    | none => return acc
    | some item => do
      let result ← call f [item, .num (.int i), self]
      let (acc, stop) ← lift (step acc item result)
      if stop then return acc else visit call self f step fuel (i + 1) acc

/-- A function called on all items of an array. -/
def visitAll {α : Type} (call : Caller) (self f : Value) (start : α)
    (step : α → Value → Value → Except Fault (α × Bool)) : Eval α := do
  if !(← get).store.callable f then refuse (.notCallable (← read (·.toText f)))
  visit call self f step (itemLimit (← itemsNow self)) 0 start

/-- Whether an array holds a value; not-a-number is found too. -/
def holds (items : List Value) (v : Value) : Except Fault Bool := do
  let wanted ← match v with
    | .num n => n.isNaN
    | _ => pure false
  if wanted then
    for item in items do
      if let .num n := item then
        if ← n.isNaN then return true
    return false
  else return items.any (strictEquals · v)

/-- The texts of items joined; missing items are empty. -/
def joined (items : List Value) (separator : Value) : Eval Value := do
  let sep ← match separator with
    | .undefined => pure (Text.ofString ",")
    | v => read (·.toText v)
  let texts ← items.mapM fun item =>
    if isNothing item then pure [] else read (·.toText item)
  return .text (Text.join sep texts)

/-- A call of a function of a text. -/
def callText (m : Method) (t : Text) (args : List Value) : Eval Value := do
  match m, args with
  | .textIncludes, part :: rest =>
    if 1 < rest.length then throw .badCall
    let part ← read (·.toText part)
    let i ← read (·.position (rest.headD .undefined) t.length 0)
    return .bool (Text.contains (t.drop i) part)
  | .textStartsWith, part :: rest =>
    if 1 < rest.length then throw .badCall
    let part ← read (·.toText part)
    let i ← read (·.position (rest.headD .undefined) t.length 0)
    return .bool (Text.startsWith (t.drop i) part)
  | .textEndsWith, part :: rest =>
    if 1 < rest.length then throw .badCall
    let i ← read (·.position (rest.headD .undefined) t.length t.length)
    return .bool (Text.endsWith (t.take i) (← read (·.toText part)))
  | .textIndexOf, part :: rest =>
    if 1 < rest.length then throw .badCall
    let part ← read (·.toText part)
    let i ← read (·.position (rest.headD .undefined) t.length 0)
    return .num (.int ((indexFrom? t part i).elim (-1) Int.ofNat))
  | .textLower, [] => return .text t.lower
  | .textUpper, [] => return .text t.upper
  | .textTrim, [] => return .text t.strip
  | .textToString, [] => return .text t
  | .textSplit, args =>
    if 2 < args.length then throw .badCall
    let parts ← read (·.split t (args.headD .undefined) (args.getD 1 .undefined))
    newList (parts.map .text)
  | .textSlice, args =>
    if 2 < args.length then throw .badCall
    let (i, j) ← read (·.bounds t.length (args.headD .undefined) (args.getD 1 .undefined))
    return .text (t.slice i j)
  | _, _ => throw .badCall

/-- A call of a function of an array. -/
def callArray (call : Caller) (m : Method) (self : Value) (args : List Value) : Eval Value := do
  let items ← itemsNow self
  match m, args with
  | .arrayIncludes, [v] => return .bool (← lift (holds items v))
  | .arrayIndexOf, [v] =>
    return .num (.int ((items.findIdx? (strictEquals · v)).elim (-1) Int.ofNat))
  | .arrayJoin, [] | .arrayToString, [] => joined items .undefined
  | .arrayJoin, [v] | .arrayToString, [v] => joined items v
  | .arrayFilter, [f] =>
    let kept ← visitAll call self f [] fun (acc : List Value) item result => do
      if ← truthy result then return (item :: acc, false) else return (acc, false)
    newList kept.reverse
  | .arrayMap, [f] =>
    let results ← visitAll call self f [] fun (acc : List Value) _ result =>
      .ok (result :: acc, false)
    newList results.reverse
  | .arraySome, [f] =>
    return .bool (← visitAll call self f false fun _ _ result => do
      let b ← truthy result
      return (b, b))
  | .arrayEvery, [f] =>
    return .bool (← visitAll call self f true fun _ _ result => do
      let b ← truthy result
      return (b, !b))
  | .arrayFind, [f] =>
    visitAll call self f .undefined fun acc item result => do
      if ← truthy result then return (item, true) else return (acc, false)
  | .arraySlice, args =>
    if 2 < args.length then throw .badCall
    let (i, j) ← read (·.bounds items.length (args.headD .undefined) (args.getD 1 .undefined))
    newList ((items.drop i).take (j - i))
  | .arrayConcat, args => do
    let store := (← get).store
    newList (items ++ args.flatMap fun v => (store.items? v).getD [v])
  | _, _ => throw .badCall

/-- A call of a function of a value. -/
def callMethod (call : Caller) (m : Method) (self : Value) (args : List Value) : Eval Value := do
  match self with
  | .text t => callText m t args
  | .num n =>
    match m, args with
    | .numberToString, [] => return .text (← lift n.write)
    | .numberToFixed, [] => return .text (← read (·.toFixed n (.num (.int 0))))
    | .numberToFixed, [v] => return .text (← read (·.toFixed n v))
    | _, _ => throw .badCall
  | self => callArray call m self args

/-- A call of a function on one number. -/
def onNumber (v : Value) (f : Num → Except Fault Num) : Eval Value := do
  return .num (← lift (f (← read (·.toNumber v))))

/-- A call of a built-in function. -/
def callBuiltin (f : Builtin) (args : List Value) : Eval Value := do
  match f, args with
  | .abs, [v] => onNumber v fun n => .ok n.abs
  | .floor, [v] => onNumber v fun n => .ok (n.rounded Double.floor?)
  | .ceil, [v] => onNumber v fun n => .ok (n.rounded Double.ceil?)
  | .trunc, [v] => onNumber v fun n => .ok (n.rounded Double.truncate?)
  | .round, [v] => onNumber v Num.round
  | .sqrt, [v] => onNumber v Num.sqrt
  | .min, vs => do
    let ns ← vs.mapM fun v => read (·.toNumber v)
    return .num (← lift (extreme (fun a b => a.below b) .infinity ns))
  | .max, vs => do
    let ns ← vs.mapM fun v => read (·.toNumber v)
    return .num (← lift (extreme (fun a b => b.below a) (.float (Double.infinity true)) ns))
  | .pow, [a, b] => do
    let m ← read (·.toNumber a)
    let n ← read (·.toNumber b)
    return .num (← lift (m.pow n))
  | .random, [] => return .num (.float (← get).chance)
  | .now, [] => return .num (.int (← get).now)
  | .stringify, v :: _ => read (·.stringify v)
  | .parseJson, v :: _ => do parseJson (← read (·.toText v))
  | .isArray, [v] => return .bool ((← get).store.items? v).isSome
  | .keys, [v] => do
    newList ((← read (·.objectEntries v)).map fun (k, _) => .text k)
  | .values, [v] => do newList ((← read (·.objectEntries v)).map Prod.snd)
  | .entries, [v] => do
    let pairs ← (← read (·.objectEntries v)).mapM fun (k, v) => newList [.text k, v]
    newList pairs
  | .toNumber, [] => return .num (.int 0)
  | .toNumber, [v] => return .num (← read (·.toNumber v))
  | .toText, [] => return .text []
  | .toText, [v] => return .text (← read (·.toText v))
  | .toBoolean, [] => return .bool false
  | .toBoolean, [v] => return .bool (← lift (truthy v))
  | .parseInt, [v] => return .num (← read (·.parseInt v .undefined))
  | .parseInt, [v, radix] => return .num (← read (·.parseInt v radix))
  | .parseFloat, [v] => return .num (← read (·.parseFloat v))
  | .isNaN, [v] => do
    match ← read (·.toNumber v) with
    | .float x => return .bool (Double.isNaN x)
    | .int _ => return .bool false
  | .isFinite, [v] => do
    let x ← lift (← read (·.toNumber v)).toFloat
    return .bool (!Double.isNaN x && !Double.isInfinite x)
  | _, _ => throw .badCall

end GuardedText.Eval
