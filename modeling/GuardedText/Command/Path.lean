import GuardedText.Text.Search

/-
  Paths of files. A path as it is written is a text; a resolved path is the list of names that lead
  from the root to a file.
-/

namespace GuardedText.Path

/-- The slash between names. -/
def slash : CodePoint := 0x2F

/-- The names of a written path; empty names and single points are left out. -/
def names (path : Text) : List Text :=
  (Text.splitAtEach (· == slash) path).filter fun n => !n.isEmpty && n != Text.ofString "."

/-- Whether a written path starts at the root. -/
def isAbsolute (path : Text) : Bool := path.head? == some slash

/-- One step of a walk from a place: a name leads down, two points lead up. -/
def step (place : List Text) (name : Text) : List Text :=
  if name = Text.ofString ".." then place.dropLast else place ++ [name]

/-- The place that a written path leads to, seen from a place. -/
def resolve (here : List Text) (path : Text) : List Text :=
  (names path).foldl step (if isAbsolute path then [] else here)

/-- A resolved path as a text. -/
def display (place : List Text) : Text := slash :: Text.join [slash] place

/-- A written path without needless slashes and points. -/
def tidy (path : Text) : Text :=
  let root : Text :=
    match path.takeWhile (· == slash) with
    | [] => []
    | [a, b] => [a, b]
    | a :: _ => [a]
  let rest := root ++ Text.join [slash] (names path)
  if rest.isEmpty then "." else rest

/-- A written path cut before its last name: the folder without slashes at its end, unless it is
the root, and the name. -/
def splitLast (path : Text) : Text × Text :=
  let name := (path.reverse.takeWhile (· != slash)).reverse
  let folder := path.take (path.length - name.length)
  (if folder.all (· == slash) then folder else Text.dropEndWhile (· == slash) folder, name)

/-- A name put after a written folder. -/
def join (folder name : Text) : Text :=
  if isAbsolute name then name
  else if folder.isEmpty || folder.getLast? == some slash then folder ++ name
  else folder ++ slash :: name

end GuardedText.Path
