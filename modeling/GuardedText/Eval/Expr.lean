import GuardedText.Eval.Scope
import GuardedText.Value.Operator

/-
  Evaluation of expressions, from left to right. How a function is called is a parameter, so that
  evaluation follows the expression and the depth of calls is counted where functions are called.
-/

namespace GuardedText

/-- Whether a guard may wait. -/
inductive Waiting where
  /-- A guard that waits is stopped. -/
  | forbidden
  /-- A guard may wait. -/
  | allowed
  deriving DecidableEq, Repr

/-- The value of a literal. -/
def Literal.toValue : Literal → Value
  | .null => .null
  | .bool b => .bool b
  | .number n => .num n
  | .text t => .text t

namespace Eval

open Store

/-- A value that may arrive later is waited for; it can be waited for once. -/
def wait (waiting : Waiting) (v : Value) : Eval Value := do
  match v with
  | .ref r =>
    match (← get).store[r]? with
    | some (.pending state) =>
      match state with
      | .spent => throw .alreadyAwaited
      | .ready value =>
        replace r (.pending .spent)
        return value
      | .later value =>
        replace r (.pending .spent)
        if waiting = .forbidden then throw .suspended else return value
      | .failing =>
        replace r (.pending .spent)
        throw (if waiting = .forbidden then .suspended else .badValue)
    | _ => return v
  | _ => return v

/-- Whether a logical operator is content with its left operand. -/
def settles (op : LogicalOp) (left : Value) : Except Fault Bool :=
  match op with
  | .and => return !(← truthy left)
  | .or => truthy left
  | .coalesce => .ok (!isNothing left)

/-- An assignment: the old value is read only if the operator needs it, and the new one is written
unless the old one is kept. -/
def assignWith (op : AssignOp) (current value : Eval Value) (put : Value → Eval Unit) :
    Eval Value := do
  match op with
  | .set =>
    let v ← value
    put v
    return v
  | .update op =>
    let old ← current
    let v ← value
    let result ← read (·.binary op old v)
    put result
    return result
  | .choose op =>
    let old ← current
    let _ ← lift (truthy old)
    if ← lift (settles op old) then return old
    let v ← value
    put v
    return v

/-- The elements of a value that is spread into an array or into arguments. -/
def spreadItems (v : Value) : Eval (List Value) := do
  match v, (← get).store.items? v with
  | .text t, _ => return characters t
  | _, some items => return items
  | _, none => refuse (.notIterable (← read (·.toText v)))

/-- The entries of a value that is spread into an object; most values have none. -/
def spreadEntries (v : Value) : Eval (List (Text × Value)) := do
  let s := (← get).store
  match v, s.items? v, s.entries? v with
  | .text t, _, _ => return indexed (characters t)
  | _, some items, _ => return indexed items
  | _, _, some entries => lift (namedEntries entries)
  | _, _, _ => return []

/-- The base of an optional access must be there. -/
def demand (optional : Bool) (v : Value) : Eval Unit :=
  if optional && isNothing v then throw .shortCircuit else return ()

/-- The expression inside a chain as a new object. -/
def exposeInner : Expr → Eval (Option Value)
  | .chain e _ => return some (← allocate (.expression e none))
  | _ => return none

/-- What a guard sees of the syntax of a function with a body. A function written in another one
shares its syntax with all that come of the same place, which is not told here. -/
def exposeBody (frame : Ref) (body : Expr) : Eval Attributes := do
  match (← get).store.frame? frame with
  | some (_, none, _) =>
    let inner ← exposeInner body
    let written ← allocate (.expression body inner)
    return [(Text.ofString "node", ← allocate (.node written none))]
  | _ => return []

mutual

/-- The value of an expression. -/
def evaluate (call : Caller) (waiting : Waiting) (frame : Ref) : Expr → Eval Value
  | .literal v => return v.toValue
  | .name n => lookupName frame n
  | .array items => do newList (← evaluateItems call waiting frame items)
  | .object entries => do allocate (.dict (← evaluateEntries call waiting frame [] entries))
  | .unary op e => do
    if let .typeof := op then
      if let .name n := e then
        if ((← get).store.resolve? frame n).isNone then return .text "undefined"
    let v ← evaluate call waiting frame e
    read (·.unary op v)
  | .delete (.name n) => return .bool (← deleteName frame n)
  | .delete (.member o n) => do
    let o ← evaluate call waiting frame o
    return .bool (← deleteProperty o (.text n))
  | .delete (.index o k) => do
    let o ← evaluate call waiting frame o
    let k ← evaluate call waiting frame k
    return .bool (← deleteProperty o k)
  | .deleteValue e => do
    let _ ← evaluate call waiting frame e
    return .bool true
  | .await e => do wait waiting (← evaluate call waiting frame e)
  | .binary op l r => do
    let l ← evaluate call waiting frame l
    let r ← evaluate call waiting frame r
    read (·.binary op l r)
  | .logical op l r => do
    let l ← evaluate call waiting frame l
    if ← lift (settles op l) then return l
    evaluate call waiting frame r
  | .conditional t c a => do
    let t ← evaluate call waiting frame t
    if ← lift (truthy t) then evaluate call waiting frame c else evaluate call waiting frame a
  | .assign op (.name n) value =>
    assignWith op (lookupName frame n) (evaluate call waiting frame value) (assignName frame n)
  | .assign op (.member o n) value => do
    let o ← evaluate call waiting frame o
    assignWith op (getProperty o (.text n)) (evaluate call waiting frame value)
      (setProperty o (.text n))
  | .assign op (.index o k) value => do
    let o ← evaluate call waiting frame o
    let k ← evaluate call waiting frame k
    assignWith op (getProperty o k) (evaluate call waiting frame value) (setProperty o k)
  | .sequence parts => evaluateSequence call waiting frame .undefined parts
  | .member o n optional => do
    let o ← evaluate call waiting frame o
    demand optional o
    getProperty o (.text n)
  | .index o k optional => do
    let o ← evaluate call waiting frame o
    demand optional o
    let k ← evaluate call waiting frame k
    getProperty o k
  | .call callee arguments optional => do
    let f ← evaluate call waiting frame callee
    demand optional f
    let args ← evaluateItems call waiting frame arguments
    if !(← get).store.callable f then refuse (.notCallable callee.describe)
    call f args
  | .arrow params body => do
    let shown ← exposeBody frame body
    allocate (.arrow params body frame (shown ++ [(Text.ofString "scope", .ref frame)]))
  | .chain body _ =>
    tryCatch (evaluate call waiting frame body) fun e =>
      if e = .shortCircuit then return .undefined else throw e

/-- The values of elements or arguments. -/
def evaluateItems (call : Caller) (waiting : Waiting) (frame : Ref) :
    List Item → Eval (List Value)
  | [] => return []
  | .single e :: items => do
    let v ← evaluate call waiting frame e
    return v :: (← evaluateItems call waiting frame items)
  | .spread e :: items => do
    let vs ← spreadItems (← evaluate call waiting frame e)
    return vs ++ (← evaluateItems call waiting frame items)

/-- The entries of an object, put into those already there. -/
def evaluateEntries (call : Caller) (waiting : Waiting) (frame : Ref) (found : Entries) :
    List Entry → Eval Entries
  | [] => return found
  | .named k e :: entries => do
    let v ← evaluate call waiting frame e
    evaluateEntries call waiting frame (Table.insert (.name k) v found) entries
  | .computed k e :: entries => do
    let k ← evaluate call waiting frame k
    let v ← evaluate call waiting frame e
    let name ← read (·.keyText k)
    evaluateEntries call waiting frame (Table.insert (.name name) v found) entries
  | .spread e :: entries => do
    let pairs ← spreadEntries (← evaluate call waiting frame e)
    let more := pairs.map fun (k, v) => (Key.name k, v)
    evaluateEntries call waiting frame (Table.insertAll found more) entries

/-- The value of the last of some expressions. -/
def evaluateSequence (call : Caller) (waiting : Waiting) (frame : Ref) (last : Value) :
    List Expr → Eval Value
  | [] => return last
  | e :: es => do
    let v ← evaluate call waiting frame e
    evaluateSequence call waiting frame v es

end

end Eval

end GuardedText
