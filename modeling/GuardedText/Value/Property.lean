import GuardedText.Value.Convert
import GuardedText.Value.Internal

/-
  Properties: reading, writing, removing and asking for them. Arrays and texts have elements by
  index, a length and functions; mappings have entries; host objects and functions have attributes,
  of which those with a leading underscore are private. What has no properties of its own drops
  writes, what is read-only refuses them. What the host keeps inside its objects is not told.
-/

namespace GuardedText.Store

/-- The index that a key denotes: a whole number that is not negative, or a text of digits. -/
def index? : Value → Except Fault (Option Nat)
  | .num n => do
    let x ← n.toFloat
    if Double.isInteger x && !n.below (.int 0) then return n.truncate?.map Int.toNat
    else return none
  | .text t =>
    if !t.isEmpty && t.all CodePoint.isDigit then
      match t.mapM CodePoint.decimalValue? with
      | some ds => return some (← Numeral.read 10 ds)
      | none => throw .badValue
    else return none
  | _ => return none

/-- The functions of texts by name. -/
def textMethods : List (String × Method) :=
  [("includes", .textIncludes), ("startsWith", .textStartsWith), ("endsWith", .textEndsWith),
   ("indexOf", .textIndexOf), ("toLowerCase", .textLower), ("toUpperCase", .textUpper),
   ("trim", .textTrim), ("split", .textSplit), ("slice", .textSlice), ("toString", .textToString)]

/-- The functions of arrays by name. -/
def arrayMethods : List (String × Method) :=
  [("includes", .arrayIncludes), ("indexOf", .arrayIndexOf), ("join", .arrayJoin),
   ("filter", .arrayFilter), ("map", .arrayMap), ("some", .arraySome), ("every", .arrayEvery),
   ("find", .arrayFind), ("slice", .arraySlice), ("concat", .arrayConcat),
   ("toString", .arrayToString)]

/-- The functions of numbers by name. -/
def numberMethods : List (String × Method) :=
  [("toFixed", .numberToFixed), ("toString", .numberToString)]

/-- The function with a name. -/
def methodNamed? (methods : List (String × Method)) (name : Text) : Option Method :=
  (methods.find? fun (n, _) => Text.ofString n == name).map Prod.snd

/-- What is found under a key. -/
inductive Found where
  /-- Nothing. -/
  | absent
  /-- A value. -/
  | value (v : Value)
  /-- A function of the object. -/
  | method (m : Method)

/-- What is found, absent when it is nothing. -/
def Found.ofOption (v? : Option Value) : Found := v?.elim .absent .value

/-- Whether a name is private. -/
def isPrivate (name : Text) : Bool := name.head? == some 0x5F

/-- The length, an element or a function of a text or an array. -/
def sequenceProperty (length : Nat) (element? : Nat → Option Value)
    (methods : List (String × Method)) (key : Value) (name : Text) : Except Fault Found := do
  if name = Text.ofString "length" then return .value (.num (.int length))
  match ← index? key with
  | some i => return .ofOption (element? i)
  | none => return (methodNamed? methods name).elim .absent .method

/-- The entry of a mapping: under the name, or, for a number, under the equal number. -/
def entryProperty (entries : Entries) (key : Value) (name : Text) : Found :=
  match Table.lookup? (.name name) entries with
  | some v => .value v
  | none =>
    match key with
    | .num n =>
      .ofOption ((entries.find? fun (k, _) =>
        match k with
        | .number m => (Num.int m).equal n
        | .name _ => false).map Prod.snd)
    | _ => .absent

/-- The attributes of an object that a guard may see. -/
def attributes? : Obj → Option Attributes
  | .record attributes | .arrow _ _ _ attributes | .method _ _ attributes
  | .builtin _ attributes | .host _ attributes => some attributes
  | .frame locals parent globals =>
    some [(Text.ofString "variables", .ref locals),
      (Text.ofString "parent", parent.elim .null .ref), (Text.ofString "globals", .ref globals)]
  | .slots a b =>
    some (a.toList.map (Text.ofString "a", ·) ++ b.toList.map (Text.ofString "b", ·))
  | .node body put => some [(Text.ofString "body", put.getD body)]
  | .expression _ inner => some (inner.toList.map (Text.ofString "expression", ·))
  | _ => none

/-- What an object has among its attributes, unless the host keeps it inside. -/
def attributeProperty (o : Obj) (name : Text) : Except Fault Found :=
  if isPrivate name then .ok .absent
  else
    match (attributes? o).bind (Table.lookup? name) with
    | some v => .ok (.value v)
    | none => if o.conceals name then .error (.misuse (.internal name)) else .ok .absent

/-- What an object has under a key. -/
def objectProperty (o : Obj) (key : Value) (name : Text) : Except Fault Found :=
  match o with
  | .list items | .tuple items =>
    sequenceProperty items.length (items[·]?) arrayMethods key name
  | .dict entries | .frozen entries => .ok (entryProperty entries key name)
  | o => attributeProperty o name

/-- What a type of the host has under a name. -/
def typeProperty (t : HostType) (name : Text) : Except Fault Found :=
  if isMember t.members name then .error (.misuse (.internal name)) else .ok .absent

/-- What a value has under a key. -/
def property (s : Store) (object key : Value) : Except Fault Found := do
  if isNothing object then
    throw (.misuse (.readNothing (← s.toText object) (← s.toText key)))
  let name ← s.keyText key
  match object with
  | .text t =>
    sequenceProperty t.length (fun i => (t[i]?).map fun c => .text [c]) textMethods key name
  | .num _ => return (methodNamed? numberMethods name).elim .absent .method
  | .type t => typeProperty t name
  | .ref r => (s[r]?).elim (.ok .absent) (objectProperty · key name)
  | _ => return .absent

/-- Whether an object has something other than `undefined` under a key. -/
def hasProperty (s : Store) (object key : Value) : Except Fault Bool := do
  match object with
  | .type _ | .ref _ =>
    match ← s.property object key with
    | .absent | .value .undefined => return false
    | _ => return true
  | _ => throw (.misuse (.noContainer (← s.toText key) (← s.toText object)))

/-- An array with an item put at an index; the gap is filled with `undefined`. -/
def putItem (items : List Value) (i : Nat) (v : Value) : Except Fault (List Value) :=
  if i < items.length then .ok (items.set i v)
  else if twoTo 63 ≤ i + 1 - items.length then .error .overflow
  else if twoTo 32 ≤ i + 1 - items.length then .error .tooLarge
  else .ok (items ++ (List.replicate (i - items.length) .undefined ++ [v]))

/-- An object with a value put under a key. -/
def putProperty (o : Obj) (key : Value) (name : Text) (v : Value) : Except Fault Obj := do
  match o with
  | .tuple items => return .tuple items
  | .list items =>
    match ← index? key with
    | some i => return .list (← putItem items i v)
    | none => throw (.misuse (.arrayProperty name))
  | .dict entries => return .dict (Table.insert (.name name) v entries)
  | .record attributes =>
    if isPrivate name then throw (.misuse (.readOnly name))
    return .record (Table.insert name v attributes)
  | .slots a b =>
    if name = Text.ofString "a" then return .slots (some v) b
    if name = Text.ofString "b" then return .slots a (some v)
    throw (.misuse (.readOnly name))
  | .arrow params body frame attributes =>
    if isPrivate name then throw (.misuse (.readOnly name))
    if name = Text.ofString "node" || name = Text.ofString "scope" then
      throw (.misuse (.internal name))
    return .arrow params body frame (Table.insert name v attributes)
  | .method m self attributes =>
    if isPrivate name || isMember methodMembers name then throw (.misuse (.readOnly name))
    return .method m self (Table.insert name v attributes)
  | .builtin b attributes =>
    if isPrivate name || b == .random then throw (.misuse (.readOnly name))
    return .builtin b (Table.insert name v attributes)
  | .host f attributes =>
    if isPrivate name then throw (.misuse (.readOnly name))
    return .host f (Table.insert name v attributes)
  | .node body _ =>
    if isPrivate name then throw (.misuse (.readOnly name))
    if name = Text.ofString "body" then return .node body (some v)
    throw (.misuse (.internal name))
  | .frame _ _ _ | .expression _ _ =>
    throw (.misuse (if isPrivate name then .readOnly name else .internal name))
  | .frozen _ | .pending _ => throw (.misuse (.readOnly name))

/-- An object without what a key denotes, and whether that is gone. -/
def dropProperty (o : Obj) (key : Value) (name : Text) : Except Fault (Obj × Bool) := do
  match o with
  | .dict entries => return (.dict (Table.erase (.name name) entries), true)
  | .list items =>
    match ← index? key with
    | some i => return (.list (items.set i .undefined), true)
    | none => return (o, true)
  | .frozen _ | .tuple _ => return (o, false)
  | _ => return (o, true)

end GuardedText.Store

namespace GuardedText.Eval

/-- Reads a property; a function of a value is a new object every time. -/
def getProperty (object key : Value) : Eval Value := do
  match ← read (·.property object key) with
  | .absent => return .undefined
  | .value v => return v
  | .method m => allocate (.method m object [])

/-- Writes a property. -/
def setProperty (object key value : Value) : Eval Unit := do
  if Store.isNothing object then
    refuse (.writeNothing (← read (·.toText object)) (← read (·.toText key)))
  let name ← read (·.keyText key)
  match object with
  | .type _ => if Store.isPrivate name then refuse (.readOnly name) else throw .badCall
  | .ref r =>
    match (← get).store[r]? with
    | some o => replace r (← lift (Store.putProperty o key name value))
    | none => return ()
  | _ => return ()

/-- Removes a property and tells whether it is gone. -/
def deleteProperty (object key : Value) : Eval Bool := do
  if Store.isNothing object then refuse .noObject
  let name ← read (·.keyText key)
  match object with
  | .text _ => return false
  | .ref r =>
    match (← get).store[r]? with
    | some o => do
      let (o, gone) ← lift (Store.dropProperty o key name)
      replace r o
      return gone
    | none => return true
  | _ => return true

end GuardedText.Eval
