import GuardedText.Table
import GuardedText.Text.Class

/-
  Env files: lines `NAME=value`, with quotes, comments and `export` in front if one likes. A name
  without `=` has no value. A statement that cannot be read is dropped together with the rest of its
  line. In a value, a name in `$` and braces stands for the value bound to it further up, or for the
  default after `:-`.
-/

namespace GuardedText.EnvFile

/-- A statement of an env file. -/
inductive Statement where
  /-- A name, and its value if it has one. -/
  | binding (name : Text) (value : Option Text)
  /-- A comment or nothing. -/
  | blank
  /-- A statement that starts on this line and cannot be read. -/
  | malformed (line : Nat)
  deriving DecidableEq, Repr

/-- White space within a line. -/
def isGap (c : CodePoint) : Bool := c.isBlank && c.val != 0x0A && c.val != 0x0D

/-- Whether a code point does not end a line. -/
def isInLine (c : CodePoint) : Bool := c.val != 0x0A && c.val != 0x0D

/-- Whether a text starts with a character. -/
def startsWith (c : Char) : Text → Bool
  | [] => false
  | d :: _ => d == CodePoint.ofChar c

/-- The text without `export` and a gap in front. -/
def skipExport (s : Text) : Text :=
  match Text.after? "export" s with
  | some (c :: rest) => if isGap c then rest.dropWhile isGap else s
  | _ => s

/-- A name; a comment has none. -/
def readName (s : Text) : Except Text (Option Text × Text) :=
  if startsWith '#' s then .ok (none, s)
  else if startsWith '\'' s then
    let (name, rest) := Text.span (fun c => c != CodePoint.ofChar '\'') (s.drop 1)
    if name.isEmpty || rest.isEmpty then .error s else .ok (some name, rest.drop 1)
  else
    let (name, rest) := Text.span (fun c => !(c.isBlank || c.val == 0x3D || c.val == 0x23)) s
    if name.isEmpty then .error s else .ok (some name, rest)

/-- The text up to a closing quote, and what follows the quote. A backslash and what follows it on
the line stay together. -/
def upToQuote (quote : CodePoint) : Text → Option (Text × Text)
  | [] => none
  | [c] => if c = quote then some ([], []) else none
  | c :: d :: s =>
    if c = quote then some ([], d :: s)
    else if c.val = 0x5C then
      (if d.val = 0x0A then none
       else (upToQuote quote s).map fun (inner, rest) => (c :: d :: inner, rest))
    else (upToQuote quote (d :: s)).map fun (inner, rest) => (c :: inner, rest)

/-- The text with its escapes replaced; a backslash before anything else stays. -/
def unescape (escapes : List (Char × Nat)) : Text → Text
  | [] => []
  | [c] => [c]
  | c :: d :: s =>
    if c.val = 0x5C then
      match escapes.find? fun (e, _) => d == CodePoint.ofChar e with
      | some (_, n) => Fin.ofNat 0x110000 n :: unescape escapes s
      | none => c :: unescape escapes (d :: s)
    else c :: unescape escapes (d :: s)

/-- The escapes between single quotes. -/
def singleEscapes : List (Char × Nat) := [('\\', 0x5C), ('\'', 0x27)]

/-- The escapes between double quotes. -/
def doubleEscapes : List (Char × Nat) :=
  singleEscapes ++ [('"', 0x22), ('a', 7), ('b', 8), ('f', 12), ('n', 10), ('r', 13), ('t', 9),
    ('v', 11)]

/-- The part of a line before a comment: a number sign after white space starts one. -/
def beforeComment : Text → Text
  | [] => []
  | [c] => [c]
  | c :: d :: s => if c.isBlank && d.val == 0x23 then [] else c :: beforeComment (d :: s)

/-- A value, of which `gap` says whether white space stands between it and the `=`. -/
def readValue (gap : Bool) (s : Text) : Except Text (Text × Text) :=
  if gap && startsWith '#' s then .ok ([], s)
  else if startsWith '\'' s then
    match upToQuote (CodePoint.ofChar '\'') (s.drop 1) with
    | some (inner, rest) => .ok (unescape singleEscapes inner, rest)
    | none => .error s
  else if startsWith '"' s then
    match upToQuote (CodePoint.ofChar '"') (s.drop 1) with
    | some (inner, rest) => .ok (unescape doubleEscapes inner, rest)
    | none => .error s
  else
    let (line, rest) := Text.span isInLine s
    .ok (Text.dropEndWhile CodePoint.isBlank (beforeComment line), rest)

/-- The end of a line, after a comment if there is one. -/
def readLineEnd (s : Text) : Except Text (Unit × Text) :=
  let t := s.dropWhile isGap
  let s := if startsWith '#' t then t.dropWhile isInLine else s
  match s.dropWhile isGap with
  | [] => .ok ((), [])
  | c :: rest => if isInLine c then .error s else .ok ((), rest)

/-- A statement, after the white space in front of it. -/
def readStatement (s : Text) : Except Text (Statement × Text) := do
  let (name, s) ← readName (skipExport s)
  let s := s.dropWhile isGap
  if startsWith '=' s then
    let rest := s.drop 1
    let (value, s) ← readValue (rest.head?.any isGap) (rest.dropWhile isGap)
    let (_, s) ← readLineEnd s
    return (name.elim .blank (.binding · (some value)), s)
  else
    let (_, s) ← readLineEnd s
    return (name.elim .blank (.binding · none), s)

/-- The number of line feeds in a text. -/
def lineFeeds (s : Text) : Nat := s.count 0x0A

/-- The text after the line that `s` is in. -/
def nextLine (s : Text) : Text := (s.dropWhile isInLine).drop 1

/-- One statement on a line, with the white space in front of it, and the text after it. -/
def step (line : Nat) (s : Text) : Statement × Text :=
  match s.dropWhile CodePoint.isBlank with
  | [] => (.blank, [])
  | t =>
    match readStatement t with
    | .ok (statement, rest) => (statement, rest)
    | .error rest => (.malformed line, nextLine rest)

/-- The statements of a text that starts on a line. Every statement makes the rest shorter. -/
def statementsFrom (line : Nat) (s : Text) : List Statement :=
  if s.isEmpty then []
  else
    let (statement, rest) := step line s
    if rest.length < s.length then
      statement :: statementsFrom (line + lineFeeds (s.take (s.length - rest.length))) rest
    else [statement]
termination_by s.length

/-- The statements of an env file; a byte order mark in front is left out. -/
def statements (s : Text) : List Statement :=
  statementsFrom 1 ((Text.after? [0xFEFF] s).getD s)

/-- The lines on which statements start that cannot be read. -/
def malformedLines (found : List Statement) : List Nat :=
  found.filterMap fun
    | .malformed line => some line
    | _ => none

/-- The names with their values, in the order of the file. -/
def bindings (found : List Statement) : List (Text × Option Text) :=
  found.filterMap fun
    | .binding name value => some (name, value)
    | _ => none

/-- A reference at the start of a text: its name, its default and the text after it. -/
def reference? (s : Text) : Option (Text × Option Text × Text) :=
  (Text.after? "$\x7b" s).bind fun s =>
    let (name, s) := Text.span (fun c => c.val != 0x7D && c.val != 0x3A) s
    let (fallback, s) :=
      match Text.after? ":-" s with
      | some t => (some (t.takeWhile fun c => c.val != 0x7D), t.dropWhile fun c => c.val != 0x7D)
      | none => (none, s)
    (Text.after? "\x7d" s).map fun rest => (name, fallback, rest)

/-- What a reference stands for: the value of a known name, nothing if it has none, else the
default. -/
def resolve (known : List (Text × Option Text)) (name : Text) (fallback : Option Text) : Text :=
  match Table.lookup? name known with
  | some value => value.getD []
  | none => fallback.getD []

/-- The text with its references replaced. -/
def expand (known : List (Text × Option Text)) (s : Text) : Text :=
  match s with
  | [] => []
  | c :: t =>
    match reference? (c :: t) with
    | some (name, fallback, rest) =>
      if rest.length ≤ t.length then resolve known name fallback ++ expand known rest
      else c :: expand known t
    | none => c :: expand known t
termination_by s.length
decreasing_by all_goals (simp only [List.length_cons]; omega)

/-- The values with references replaced, one after another: a reference stands for what was bound
further up, else for what was known before. -/
def expandAll (known : List (Text × Option Text)) (entries : List (Text × Option Text)) :
    List (Text × Option Text) :=
  entries.foldl (fun found (name, value) =>
    Table.insert name (value.map (expand (found ++ known))) found) []

/-- The values of the names of an env file: a name bound twice keeps its first place and takes its
last value. -/
def values (interpolate : Bool) (found : List Statement) : List (Text × Option Text) :=
  let table := Table.insertAll [] (bindings found)
  if interpolate then expandAll [] table else table

end GuardedText.EnvFile
