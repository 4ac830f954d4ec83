import GuardedText.Guard.Expr
import GuardedText.Table

/-
  Values of guards and the objects they refer to. Numbers, texts, truth values and the two empty
  values are values themselves; everything that can change or has an identity is an object in the
  store, and a value refers to it. Objects come from the host (`list`, `tuple`, `dict`, `frozen`,
  `record`, `slots`, `host`, `pending`), from guards (`arrow`, `frame` and the arrays and objects
  they build) or are built in (`builtin`, `method`). The syntax of a function (`node`, `expression`)
  is an object too, of which guards can see a little.
-/

namespace GuardedText

/-- The place of an object in the store. -/
abbrev Ref := Nat

/-- The types of the host that a guard can be given. -/
inductive HostType where
  | integer | double | string | boolean | list | mapping
  deriving DecidableEq, Repr

/-- A value of a guard. -/
inductive Value where
  /-- The value of what is missing. -/
  | undefined
  /-- The empty value. -/
  | null
  /-- A truth value. -/
  | bool (b : Bool)
  /-- A number. -/
  | num (n : Num)
  /-- A text. -/
  | text (t : Text)
  /-- A type of the host. -/
  | type (t : HostType)
  /-- An object of the store. -/
  | ref (r : Ref)

instance : Inhabited Value := ⟨.undefined⟩

/-- A key of a mapping. Guards write names only; the host may use integers too. -/
inductive Key where
  | name (n : Text)
  | number (n : Int)
  deriving DecidableEq, Repr

/-- The name by which a guard knows a key. -/
def Key.toText : Key → Text
  | .name n => n
  | .number n => Text.ofInt n

/-- The name of a key written out. -/
def Key.write : Key → Except Fault Text
  | .name n => .ok n
  | .number n => (Num.int n).write

/-- The functions that texts, arrays and numbers have. -/
inductive Method where
  | textIncludes | textStartsWith | textEndsWith | textIndexOf | textLower | textUpper | textTrim
  | textSplit | textSlice | textToString
  | arrayIncludes | arrayIndexOf | arrayJoin | arrayFilter | arrayMap | arraySome | arrayEvery
  | arrayFind | arraySlice | arrayConcat | arrayToString
  | numberToFixed | numberToString
  deriving DecidableEq, Repr

/-- The functions that every guard can name. -/
inductive Builtin where
  | abs | floor | ceil | trunc | round | sqrt | min | max | pow | random
  | stringify | parseJson | isArray | keys | values | entries | now
  | toNumber | toText | toBoolean | parseInt | parseFloat | isNaN | isFinite
  deriving DecidableEq, Repr

/-- The functions of the host. -/
inductive HostFunction where
  /-- Fails. -/
  | boom
  /-- Records its arguments and returns the first. -/
  | track
  /-- Returns its first argument. -/
  | identity
  /-- Counts its arguments. -/
  | argc
  /-- Gives its first argument later. -/
  | later
  /-- Fails later. -/
  | failLater
  deriving DecidableEq, Repr

/-- A value that may arrive later. -/
inductive Pending where
  /-- It is there already. -/
  | ready (value : Value)
  /-- It arrives after a wait. -/
  | later (value : Value)
  /-- It fails after a wait. -/
  | failing
  /-- It was awaited before. -/
  | spent

/-- Attributes of an object, in the order in which they were first set. -/
abbrev Attributes := List (Text × Value)

/-- The entries of a mapping, in the order in which they were first set. -/
abbrev Entries := List (Key × Value)

/-- The entries of a mapping by the names of their keys. -/
def namedEntries (entries : Entries) : Except Fault (List (Text × Value)) :=
  entries.mapM fun (k, v) => return (← k.write, v)

/-- An object of the store. -/
inductive Obj where
  /-- An array. -/
  | list (items : List Value)
  /-- An array that cannot be written. -/
  | tuple (items : List Value)
  /-- A mapping. -/
  | dict (entries : Entries)
  /-- A mapping that cannot be written. -/
  | frozen (entries : Entries)
  /-- A host object with attributes; those with a leading underscore are private. -/
  | record (attributes : Attributes)
  /-- A host object with room for two attributes, `a` and `b`. -/
  | slots (a b : Option Value)
  /-- A function of a guard, with the frame in which it was written. -/
  | arrow (params : List Text) (body : Expr) (frame : Ref) (attributes : Attributes)
  /-- A function of a value. -/
  | method (method : Method) (self : Value) (attributes : Attributes)
  /-- A built-in function. -/
  | builtin (function : Builtin) (attributes : Attributes)
  /-- A function of the host. -/
  | host (function : HostFunction) (attributes : Attributes)
  /-- A value that may arrive later. -/
  | pending (state : Pending)
  /-- Names visible to a guard: its own variables, the frame around it, the built-ins. -/
  | frame (locals : Ref) (parent : Option Ref) (globals : Ref)
  /-- The syntax of a function: its body as written and what a guard has put in the place of it. -/
  | node (body : Value) (put : Option Value)
  /-- An expression in the syntax of a function; a chain has the expression inside it. -/
  | expression (e : Expr) (inner : Option Value)

/-- The objects that exist, each at its place. -/
abbrev Store := Array Obj

/-- A value with everything in it, free of the store. -/
inductive Image where
  | undefined
  | null
  | bool (b : Bool)
  | num (n : Num)
  | text (t : Text)
  | list (items : List Image)
  | tuple (items : List Image)
  | mapping (entries : List (Image × Image))
  | record (attributes : List (Text × Image))
  | slots (attributes : List (Text × Image))
  | arrow (params : List Text)
  | function
  | awaitable
  /-- An object inside itself. -/
  | cycle
  | other

/-- Everything that evaluation can change, and what it is given from outside. -/
structure World where
  /-- The objects. -/
  store : Store := #[]
  /-- The arguments of tracked calls, the latest first. -/
  calls : List (List Image) := []
  /-- The time in milliseconds. -/
  now : Int := 0
  /-- A number from 0 up to 1 that stands for chance. -/
  chance : Float := 0

/-- A computation on the world that may end in a fault. What it did to the world before a fault
remains. -/
abbrev Eval := EStateM Fault World

namespace Store

/-- The object that a value refers to. -/
def get? (s : Store) : Value → Option Obj
  | .ref r => s[r]?
  | _ => none

/-- Whether a value is missing. -/
def isNothing : Value → Bool
  | .undefined | .null => true
  | _ => false

/-- The items of an array. -/
def items? (s : Store) (v : Value) : Option (List Value) :=
  match s.get? v with
  | some (.list items) | some (.tuple items) => some items
  | _ => none

/-- The entries of a mapping. -/
def entries? (s : Store) (v : Value) : Option Entries :=
  match s.get? v with
  | some (.dict entries) | some (.frozen entries) => some entries
  | _ => none

/-- Whether a value can be called. -/
def callable (s : Store) (v : Value) : Bool :=
  match v with
  | .type _ => true
  | .ref r =>
    match s[r]? with
    | some (.arrow _ _ _ _) | some (.method _ _ _) | some (.builtin _ _) | some (.host _ _) => true
    | _ => false
  | _ => false

end Store

namespace Eval

/-- What can be read off the store. -/
def read {α : Type} (f : Store → Except Fault α) : Eval α := do
  match f (← get).store with
  | .ok a => return a
  | .error e => throw e

/-- What a pure computation gives. -/
def lift {α : Type} (x : Except Fault α) : Eval α := read fun _ => x

/-- A new object. -/
def allocate (o : Obj) : Eval Value := do
  let w ← get
  set { w with store := w.store.push o }
  return .ref w.store.size

/-- An object gives way to another. -/
def replace (r : Ref) (o : Obj) : Eval Unit :=
  modify fun w => { w with store := w.store.setIfInBounds r o }

/-- A misuse ends the computation. -/
def refuse {α : Type} (m : Misuse) : Eval α := throw (.misuse m)

end Eval

end GuardedText
