import GuardedText.Builtin.Call

/-
  Names and what they stand for. A frame holds the variables of one call, the frame around it and
  the built-ins; the outermost frame holds the caller's context. A name stands for the innermost
  variable of that name, else for the built-in. Assigning creates unknown names in the context,
  and built-ins are never assigned.
-/

namespace GuardedText

/-- The built-in functions that are one object for all contexts, at the first places of the store. -/
def Builtin.lasting : List Builtin :=
  [.parseInt, .parseFloat, .isNaN, .stringify, .parseJson, .round, .sqrt, .min, .max, .random,
   .isArray]

/-- A world with the lasting built-in functions and nothing else. -/
def World.initial (now : Int) (chance : Float) : World :=
  { store := (Builtin.lasting.map (Obj.builtin · [])).toArray, now, chance }

namespace Store

/-- The variables, parent and built-ins of a frame. -/
def frame? (s : Store) (r : Ref) : Option (Ref × Option Ref × Ref) :=
  match s[r]? with
  | some (.frame locals parent globals) => some (locals, parent, globals)
  | _ => none

/-- The value of a name in the table at a place. -/
def binding? (s : Store) (table : Ref) (name : Text) : Option Value :=
  (s.entries? (.ref table)).bind (Table.lookup? (.name name))

/-- The innermost frame, from `r` outwards, with a variable of a name. -/
def owner? (s : Store) (name : Text) : Nat → Ref → Option Ref
  | 0, _ => none
  | fuel + 1, r =>
    match s.frame? r with
    | some (locals, parent, _) =>
      if (s.binding? locals name).isSome then some r
      else parent.bind (owner? s name fuel)
    | none => none

/-- The outermost frame around `r`. -/
def outermost (s : Store) : Nat → Ref → Ref
  | 0, r => r
  | fuel + 1, r =>
    match s.frame? r with
    | some (_, some parent, _) => outermost s fuel parent
    | _ => r

/-- The value of a built-in name. -/
def global? (s : Store) (frame : Ref) (name : Text) : Option Value :=
  (s.frame? frame).bind fun (_, _, globals) => s.binding? globals name

/-- The value of a name, if it has one. -/
def resolve? (s : Store) (frame : Ref) (name : Text) : Option Value :=
  match s.owner? name s.size frame with
  | some r => (s.frame? r).bind fun (locals, _, _) => s.binding? locals name
  | none => s.global? frame name

end Store

namespace Eval

/-- The value of a name. -/
def lookupName (frame : Ref) (name : Text) : Eval Value := do
  match (← get).store.resolve? frame name with
  | some v => return v
  | none => throw (.unknownName name)

/-- The variables of a frame give way to others. -/
def updateVariables (frame : Ref) (f : Entries → Entries) : Eval Unit := do
  let s := (← get).store
  if let some (locals, _, _) := s.frame? frame then
    if let some (.dict entries) := s[locals]? then replace locals (.dict (f entries))

/-- Binds a name where it is declared, else in the context. -/
def assignName (frame : Ref) (name : Text) (v : Value) : Eval Unit := do
  let s := (← get).store
  let owner := (s.owner? name s.size frame).getD (s.outermost s.size frame)
  updateVariables owner (Table.insert (.name name) v)

/-- Removes a name from the context; the parameters of functions stay. -/
def deleteName (frame : Ref) (name : Text) : Eval Bool := do
  let s := (← get).store
  match s.owner? name s.size frame with
  | none => return true
  | some owner =>
    match s.frame? owner with
    | some (_, some _, _) => return false
    | _ =>
      updateVariables owner (Table.erase (.name name))
      return true

/-- A new frame. -/
def openFrame (locals : Ref) (parent : Option Ref) (globals : Ref) : Eval Ref := do
  let w ← get
  set { w with store := w.store.push (.frame locals parent globals) }
  return w.store.size

/-- The function object of a built-in: the lasting ones exist already. -/
def builtin (b : Builtin) : Eval Value :=
  match Builtin.lasting.idxOf? b with
  | some r => return .ref r
  | none => allocate (.builtin b [])

/-- A table of built-ins under their names. -/
def builtins (table : List (String × Builtin)) : Eval Entries :=
  table.mapM fun (name, b) => return (.name name, ← builtin b)

/-- An object of built-ins under their names. -/
def builtinObject (table : List (String × Builtin)) : Eval Value := do
  allocate (.dict (← builtins table))

/-- The names that every guard knows, as a new table. -/
def newGlobals : Eval Ref := do
  let named (name : String) (v : Value) : Key × Value := (.name name, v)
  let math ← builtins [("abs", .abs), ("floor", .floor), ("ceil", .ceil), ("trunc", .trunc),
    ("round", .round), ("sqrt", .sqrt), ("min", .min), ("max", .max), ("pow", .pow),
    ("random", .random)]
  let math ← allocate (.dict (named "PI" (.num (.float 3.141592653589793)) ::
    named "E" (.num (.float 2.718281828459045)) :: math))
  let json ← builtinObject [("stringify", .stringify), ("parse", .parseJson)]
  let array ← builtinObject [("isArray", .isArray)]
  let object ← builtinObject [("keys", .keys), ("values", .values), ("entries", .entries)]
  let date ← builtinObject [("now", .now)]
  let functions ← builtins [("Number", .toNumber), ("String", .toText), ("Boolean", .toBoolean),
    ("parseInt", .parseInt), ("parseFloat", .parseFloat), ("isNaN", .isNaN),
    ("isFinite", .isFinite)]
  let w ← get
  set { w with store := w.store.push (.dict (
    [named "undefined" .undefined, named "NaN" (.num .nan), named "Infinity" (.num .infinity),
     named "Math" math, named "JSON" json, named "Array" array, named "Object" object,
     named "Date" date] ++ functions)) }
  return w.store.size

/-- The outermost frame over a context, with built-ins of its own. -/
def openRoot (context : Ref) : Eval Ref := do
  let globals ← newGlobals
  openFrame context none globals

end Eval

end GuardedText
