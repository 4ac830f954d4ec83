import GuardedText.Value.Basic

/-
  Images of values: everything that a value holds, with a mark where an object lies inside itself.
-/

namespace GuardedText.Store

/-- The image of a value inside the objects of `path`. An object outside the path is opened, so the
path grows and cannot grow beyond the store. -/
def image (s : Store) : Nat → List Ref → Value → Image
  | _, _, .undefined => .undefined
  | _, _, .null => .null
  | _, _, .bool b => .bool b
  | _, _, .num n => .num n
  | _, _, .text t => .text t
  | _, _, .type _ => .function
  | 0, _, .ref _ => .cycle
  | fuel + 1, path, .ref r =>
    if path.contains r then .cycle
    else
      let inner := image s fuel (r :: path)
      let named (attributes : Attributes) := attributes.map fun (k, v) => (k, inner v)
      let mapping (entries : Entries) : Image :=
        .mapping (entries.map fun (k, v) =>
          ((match k with
            | .name n => Image.text n
            | .number n => .num (.int n)), inner v))
      match s[r]? with
      | some (.list items) => .list (items.map inner)
      | some (.tuple items) => .tuple (items.map inner)
      | some (.dict entries) | some (.frozen entries) => mapping entries
      | some (.record attributes) => .record (named attributes)
      | some (.slots a b) =>
        .slots (named ((a.toList.map (Text.ofString "a", ·)) ++ b.toList.map (Text.ofString "b", ·)))
      | some (.arrow params _ _ _) => .arrow params
      | some (.method _ _ _) | some (.builtin _ _) | some (.host _ _) => .function
      | some (.pending _) => .awaitable
      | some (.frame _ _ _) | some (.node _ _) | some (.expression _ _) | none => .other

/-- The image of a value. -/
def imageOf (s : Store) (v : Value) : Image := image s (s.size + 1) [] v

end GuardedText.Store
