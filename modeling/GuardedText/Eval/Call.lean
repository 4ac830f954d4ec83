import GuardedText.Eval.Expr
import GuardedText.Builtin.Host

/-
  Calls. A function of a guard is evaluated in a new frame inside the frame it was written in, and
  never waits. Calls nest only so deep.
-/

namespace GuardedText.Store

/-- The expression that a call of a function evaluates: what a guard has put into its syntax, else
its body as written. -/
def bodyToCall (s : Store) (written : Expr) (attributes : Attributes) : Except Fault Expr :=
  match (Table.lookup? (Text.ofString "node") attributes).bind s.get? with
  | some (.node _ (some put)) =>
    match s.get? put with
    | some (.expression e _) => .ok e
    | _ => .error (.misuse (.internal "body"))
  | _ => .ok written

end GuardedText.Store

namespace GuardedText.Eval

open Store

/-- The parameters of a call; those without an argument are `undefined`. -/
def bindParams (params : List Text) (args : List Value) : Entries :=
  Table.insertAll [] (params.zipIdx.map fun (n, i) => (Key.name n, args.getD i .undefined))

/-- A frame for a call of a function: its parameters as variables, inside of the frame in which it
was written. -/
def enter (params : List Text) (frame : Ref) (args : List Value) : Eval Ref := do
  let s := (← get).store
  let _ ← allocate (.dict (bindParams params args))
  openFrame s.size (some frame) (((s.frame? frame).map fun (_, _, g) => g).getD 0)

/-- A call of a function of a guard. -/
def callFunction (call : Caller) (params : List Text) (written : Expr) (frame : Ref)
    (attributes : Attributes) (args : List Value) : Eval Value := do
  let inner ← enter params frame args
  let body ← read (·.bodyToCall written attributes)
  evaluate call .forbidden inner body

/-- A call of a value, with at most `depth` calls inside each other. -/
def callValue : Nat → Caller
  | 0, _, _ => throw .tooDeep
  | depth + 1, f, args => do
    match f with
    | .type t => convert t args
    | .ref r =>
      match (← get).store[r]? with
      | some (.arrow params written frame attributes) =>
        callFunction (callValue depth) params written frame attributes args
      | some (.method m self _) => callMethod (callValue depth) m self args
      | some (.builtin b _) => callBuiltin b args
      | some (.host h _) => callHost h args
      | _ => throw .badCall
    | _ => throw .badCall

/-- How deep calls nest. -/
def callLimit : Nat := 180

/-- The value of an expression in a frame. -/
def run (waiting : Waiting) (frame : Ref) (e : Expr) : Eval Value :=
  evaluate (callValue callLimit) waiting frame e

end GuardedText.Eval
