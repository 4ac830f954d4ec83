import GuardedText.Value.Property

/-
  The entries of objects: those of a mapping, the elements of an array or a text by index, and the
  public attributes of a host object or function.
-/

namespace GuardedText.Store

/-- Values by their index. -/
def indexed (values : List Value) : List (Text × Value) :=
  values.zipIdx.map fun (v, i) => (Text.ofNat i, v)

/-- The code points of a text as texts. -/
def characters (t : Text) : List Value := t.map fun c => .text [c]

/-- The attributes of an object that guards may list. Those of the syntax of functions are not told
here, nor those of a function without its syntax; one with room for two attributes lists none. -/
def listedAttributes (o : Obj) : Except Fault Attributes :=
  match o with
  | .node _ _ | .expression _ _ => .error (.misuse (.internal "params"))
  | .arrow _ _ _ attributes =>
    if (Table.lookup? (Text.ofString "node") attributes).isSome then
      .ok (attributes.filter fun (k, _) => !isPrivate k)
    else .error (.misuse (.internal "node"))
  | .slots _ _ => .ok []
  | o => .ok (((attributes? o).getD []).filter fun (k, _) => !isPrivate k)

/-- The entries of a value. -/
def objectEntries (s : Store) (v : Value) : Except Fault (List (Text × Value)) :=
  match v with
  | .undefined | .null => .error (.misuse .noObject)
  | .text t => .ok (indexed (characters t))
  | .type t => if t = .boolean then .ok [] else .error (.misuse (.internal "mro"))
  | .ref r =>
    match s[r]? with
    | some (.dict entries) | some (.frozen entries) => namedEntries entries
    | some (.list items) | some (.tuple items) => .ok (indexed items)
    | some o => listedAttributes o
    | none => .ok []
  | _ => .ok []

end GuardedText.Store
