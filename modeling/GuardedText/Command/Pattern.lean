import GuardedText.Command.Host

/-
  Patterns for files. A star stands for any characters of a name, a question mark for one, brackets
  for one of a set; two stars alone stand for any folders. Names that start with a point are found
  only by patterns that start with one.
-/

namespace GuardedText.Command

/-- A part of a pattern for names. -/
inductive Part where
  /-- Any characters. -/
  | star
  /-- One character in some ranges, or in none of them. -/
  | oneOf (negated : Bool) (ranges : List (CodePoint × CodePoint))
  deriving DecidableEq, Repr

namespace Part

/-- One given character. -/
def literal (c : CodePoint) : Part := .oneOf false [(c, c)]

/-- Whether a part that is no star stands for a character. -/
def admits (negated : Bool) (ranges : List (CodePoint × CodePoint)) (c : CodePoint) : Bool :=
  (ranges.any fun (lo, hi) => decide (lo ≤ c) && decide (c ≤ hi)) != negated

/-- The text and the texts left when its first characters are taken off. -/
def tails : Text → List Text
  | [] => [[]]
  | c :: s => (c :: s) :: tails s

/-- Whether parts stand for a whole name. -/
def fits : List Part → Text → Bool
  | [], name => name.isEmpty
  | .star :: parts, name => (tails name).any (fits parts)
  | .oneOf _ _ :: _, [] => false
  | .oneOf negated ranges :: parts, c :: name => admits negated ranges c && fits parts name

/-- The pieces of a set between hyphens that may stand for ranges: the first `skip` characters of a
piece are passed over. -/
def pieces (skip : Nat) (piece : Text) : Text → List Text
  | [] => [piece.reverse]
  | c :: s =>
    match skip with
    | k + 1 => pieces k (c :: piece) s
    | 0 => if c.val = 0x2D then piece.reverse :: pieces 2 [] s else pieces 0 (c :: piece) s

/-- The pieces with a hyphen at the end of the set taken for itself. -/
def keepLastHyphen : List Text → List Text
  | [] => []
  | [p, []] => [p ++ [0x2D]]
  | p :: ps => p :: keepLastHyphen ps

/-- The pieces without the ranges that hold nothing. -/
def dropEmptyRanges : List Text → List Text
  | [] => []
  | p :: ps =>
    match p.getLast?, dropEmptyRanges ps with
    | some last, (first :: rest) :: others =>
      if first < last then (p.dropLast ++ rest) :: others else p :: (first :: rest) :: others
    | _, others => p :: others

/-- The ranges of some pieces: single characters, and those from the end of a piece to the start of
the next. -/
def rangesOf : List Text → List (CodePoint × CodePoint)
  | [] => []
  | [p] => p.map fun c => (c, c)
  | p :: q :: rest =>
    (p.map fun c => (c, c)) ++
      (match p.getLast?, q.head? with
       | some lo, some hi => [(lo, hi)]
       | _, _ => []) ++ rangesOf (q :: rest)

/-- The set that is written between brackets. -/
def setOf (inner : Text) : Part :=
  let bang : CodePoint := CodePoint.ofChar '!'
  let skip := if inner.head? == some bang then 2 else 1
  match dropEmptyRanges (keepLastHyphen (pieces skip [] inner)) with
  | (c :: p) :: ps => if c = bang then .oneOf true (rangesOf (p :: ps))
    else .oneOf false (rangesOf ((c :: p) :: ps))
  | ps => .oneOf false (rangesOf ps)

/-- The text inside brackets, and the text after them. The first character, or the one after an
exclamation mark, closes no bracket. -/
def bracket? (s : Text) : Option (Text × Text) :=
  let closing : CodePoint := CodePoint.ofChar ']'
  let lead := if s.head? == some (CodePoint.ofChar '!') then 1 else 0
  let lead := if (s.drop lead).head? == some closing then lead + 1 else lead
  let inner := (s.drop lead).takeWhile (· != closing)
  match (s.drop lead).dropWhile (· != closing) with
  | [] => none
  | _ :: rest => some (s.take lead ++ inner, rest)

/-- The parts of a pattern. -/
def ofText (s : Text) : List Part :=
  match s with
  | [] => []
  | c :: t =>
    if c = CodePoint.ofChar '*' then .star :: ofText t
    else if c = CodePoint.ofChar '?' then .oneOf true [] :: ofText t
    else if c = CodePoint.ofChar '[' then
      match bracket? t with
      | some (inner, rest) =>
        if rest.length ≤ t.length then setOf inner :: ofText rest else [setOf inner]
      | none => literal c :: ofText t
    else literal c :: ofText t
termination_by s.length
decreasing_by all_goals (simp only [List.length_cons]; omega)

end Part

namespace Pattern

/-- Whether a text has a character that makes it a pattern. -/
def isPattern (s : Text) : Bool :=
  s.any fun c => c == CodePoint.ofChar '*' || c == CodePoint.ofChar '?' || c == CodePoint.ofChar '['

/-- Whether a name starts with a point. -/
def isHidden (name : Text) : Bool := name.head? == some (CodePoint.ofChar '.')

/-- The pattern for any folders. -/
def anyFolders : Text := "**"

variable {m : Type → Type} [Monad m] [Host m]

/-- A name put after a folder, which may be the working folder without a name. -/
def below (folder name : Text) : Text := if folder.isEmpty then name else Path.join folder name

/-- The names in a folder, or only those of folders. -/
def listed (onlyFolders : Bool) (folder : Text) : m (List Text) := do
  let names ← Host.names folder
  if onlyFolders then
    names.filterM fun name => return (← Host.kind? (below folder name)) == some .folder
  else return names

/-- The paths below a folder, seen from it, without those that have a hidden name. A path has at
most `depth` names. -/
def descend (onlyFolders : Bool) : Nat → Text → m (List Text)
  | 0, _ => return []
  | depth + 1, folder => do
    let names := (← listed onlyFolders folder).filter fun n => !isHidden n
    let found ← names.mapM fun name => do
      let inner ← descend onlyFolders depth (below folder name)
      return name :: inner.map (Path.join name)
    return found.flatten

/-- How many names a path may have. -/
def depthLimit : Nat := 2048

/-- The paths in a folder, seen from it, that the last part of a pattern stands for. -/
def findIn (onlyFolders : Bool) (folder pattern : Text) : m (List Text) := do
  if !isPattern pattern then
    if pattern.isEmpty then
      return if (← Host.kind? folder) == some .folder then [pattern] else []
    else return if (← Host.kind? (below folder pattern)).isSome then [pattern] else []
  else if pattern = anyFolders then
    let here := folder.isEmpty || (← Host.kind? folder) == some .folder
    let inner ← descend onlyFolders depthLimit folder
    return (if here then [[]] else []) ++ inner
  else
    let parts := Part.ofText pattern
    let names ← listed onlyFolders folder
    return names.filter fun n => (isHidden pattern || !isHidden n) && Part.fits parts n

/-- The paths that a pattern stands for, or only the folders. -/
def search (onlyFolders : Bool) : Nat → Text → m (List Text)
  | 0, _ => return []
  | fuel + 1, pattern => do
    let (folder, name) := Path.splitLast pattern
    if !isPattern pattern then
      if name.isEmpty then
        return if (← Host.kind? folder) == some .folder then [pattern] else []
      else return if (← Host.kind? pattern).isSome then [pattern] else []
    else if folder.isEmpty then findIn onlyFolders [] name
    else
      let folders ←
        if folder != pattern && isPattern folder then search true fuel folder else pure [folder]
      let found ← folders.mapM fun f => return (← findIn onlyFolders f name).map (Path.join f)
      return found.flatten

/-- The paths that a pattern stands for, in order. -/
def expand (pattern : Text) : m (List Text) := do
  let found ← search false (pattern.length + 1) pattern
  let found := if found.head? == some [] then found.drop 1 else found
  return found.mergeSort fun a b => !Text.less b a

end Pattern

end GuardedText.Command
