import GuardedText.Value.Basic

/-
  What the host keeps inside its own objects under public names: the methods of its types and of
  scopes, what a function of a value was made of, how far a value that arrives later has come, the
  syntax of a function. It is not told here what these are; the evaluation of a guard that asks for
  one of them ends there.
-/

namespace GuardedText

/-- The public names that a type of the host has. -/
def HostType.members : HostType → List String
  | .integer | .boolean =>
    ["as_integer_ratio", "bit_count", "bit_length", "conjugate", "denominator", "from_bytes",
     "imag", "mro", "numerator", "real", "to_bytes"]
  | .double =>
    ["as_integer_ratio", "conjugate", "fromhex", "hex", "imag", "is_integer", "mro", "real"]
  | .string =>
    ["capitalize", "casefold", "center", "count", "encode", "endswith", "expandtabs", "find",
     "format", "format_map", "index", "isalnum", "isalpha", "isascii", "isdecimal", "isdigit",
     "isidentifier", "islower", "isnumeric", "isprintable", "isspace", "istitle", "isupper",
     "join", "ljust", "lower", "lstrip", "maketrans", "mro", "partition", "removeprefix",
     "removesuffix", "replace", "rfind", "rindex", "rjust", "rpartition", "rsplit", "rstrip",
     "split", "splitlines", "startswith", "strip", "swapcase", "title", "translate", "upper",
     "zfill"]
  | .list =>
    ["append", "clear", "copy", "count", "extend", "index", "insert", "mro", "pop", "remove",
     "reverse", "sort"]
  | .mapping =>
    ["clear", "copy", "fromkeys", "get", "items", "keys", "mro", "pop", "popitem", "setdefault",
     "update", "values"]

/-- What a scope does with names. -/
def scopeMembers : List String := ["assign", "declared", "delete", "lookup", "owner_find", "root"]

/-- What a function of a value was made of. -/
def methodMembers : List String := ["args", "func", "keywords"]

/-- How far a value that arrives later has come, and what drives it. -/
def pendingMembers : List String :=
  ["close", "cr_await", "cr_code", "cr_frame", "cr_origin", "cr_running", "cr_suspended", "send",
   "throw"]

/-- Whether a name is one of some. -/
def isMember (members : List String) (name : Text) : Bool :=
  members.any fun m => Text.ofString m == name

/-- Whether an object may have something under a public name besides its attributes. -/
def Obj.conceals : Obj → Text → Bool
  | .frame _ _ _, name => isMember scopeMembers name
  | .method _ _ _, name => isMember methodMembers name
  | .pending _, name => isMember pendingMembers name
  | .arrow _ _ _ _, name => name = "node"
  | .node _ _, _ | .expression _ _, _ => true
  | _, _ => false

/-- A fault stands for the end of what is told here. -/
def Fault.isInternal : Fault → Bool
  | .misuse (.internal _) => true
  | _ => false

namespace Eval

/-- A run stays outside: it does not end by reaching for what the host keeps inside its objects. -/
def StaysOutside {α : Type} (r : EStateM.Result Fault World α) : Prop :=
  ∀ e w, r = .error e w → e.isInternal = false

@[simp]
theorem staysOutside_ok {α : Type} (a : α) (w : World) : StaysOutside (.ok a w) := nofun

@[simp]
theorem staysOutside_error {α : Type} (e : Fault) (w : World) :
    StaysOutside (.error e w : EStateM.Result Fault World α) ↔ e.isInternal = false :=
  ⟨fun h => h e w rfl, fun h _ _ heq => by cases heq; exact h⟩

instance {α : Type} : DecidablePred (@StaysOutside α)
  | .ok a w => isTrue (staysOutside_ok a w)
  | .error e w => decidable_of_iff (e.isInternal = false) (staysOutside_error e w).symm

end Eval

end GuardedText
