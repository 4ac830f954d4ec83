import GuardedText.Command.Path
import GuardedText.Encoding.Basic
import GuardedText.Note

/-
  What the command needs of its surroundings: files to read and write, folders to look into, and a
  place for notes and complaints. A `Desk` is such surroundings as a value.
-/

namespace GuardedText.Command

/-- What stands at a path. -/
inductive Kind where
  | file
  | folder
  deriving DecidableEq, Repr

/-- Why a file cannot be read. -/
inductive DiskError where
  /-- There is nothing at the path. -/
  | missing
  /-- The path leads through a file. -/
  | throughFile
  /-- A folder stands at the path. -/
  | isFolder
  deriving DecidableEq, Repr

/-- The words for a file that cannot be read. -/
def DiskError.message (path : Text) : DiskError → Text
  | .missing => "[Errno 2] No such file or directory: " ++ path.quoted
  | .throughFile => "[Errno 20] Not a directory: " ++ path.quoted
  | .isFolder => "[Errno 21] Is a directory: " ++ path.quoted

/-- The surroundings of the command. Paths that do not start at the root are seen from the working
folder. -/
class Host (m : Type → Type) where
  /-- What stands at a path. -/
  kind? : Text → m (Option Kind)
  /-- The names in a folder, none if it is no folder. -/
  names : Text → m (List Text)
  /-- The bytes of a file. -/
  read : Text → m (Except DiskError (List Byte))
  /-- A file takes other bytes. -/
  write : Text → List Byte → m Unit
  /-- A note is passed on. -/
  note : Note → m Unit
  /-- A complaint is passed on. -/
  complain : Text → m Unit

/-- Files and folders, and what was said about them. -/
structure Desk where
  /-- The working folder. -/
  home : List Text
  /-- The files with their bytes. -/
  files : List (List Text × List Byte)
  /-- Folders that may be empty. -/
  folders : List (List Text) := []
  /-- The notes, the latest first. -/
  notes : List Note := []
  /-- The complaints, the latest first. -/
  complaints : List Text := []

namespace Desk

/-- What stands at a resolved path: a folder is there if something lies in it. -/
def kindAt? (d : Desk) (place : List Text) : Option Kind :=
  if d.files.any fun (f, _) => f == place then some .file
  else if (d.home :: (d.folders ++ d.files.map (·.1))).any fun p => place.isPrefixOf p then
    some .folder
  else none

/-- The walk along some names; every place on the way must be a folder. -/
def walk (d : Desk) (place : List Text) : List Text → Except DiskError (List Text)
  | [] => .ok place
  | name :: rest =>
    match d.kindAt? place with
    | some .folder => d.walk (Path.step place name) rest
    | some .file => .error .throughFile
    | none => .error .missing

/-- The place that a written path leads to. -/
def locate (d : Desk) (path : Text) : Except DiskError (List Text) :=
  if path.isEmpty then .error .missing
  else d.walk (if Path.isAbsolute path then [] else d.home) (Path.names path)

/-- What stands at a written path. -/
def lookup (d : Desk) (path : Text) : Except DiskError (List Text × Kind) := do
  let place ← d.locate path
  match d.kindAt? place with
  | some kind => return (place, kind)
  | none => throw .missing

/-- The names in the folder at a resolved path. -/
def namesAt (d : Desk) (place : List Text) : List Text :=
  ((d.folders ++ d.files.map (·.1)).filterMap fun p =>
    (place.isPrefixOf? p).bind List.head?).eraseDups

/-- The bytes of the file at a written path. -/
def read (d : Desk) (path : Text) : Except DiskError (List Byte) := do
  match ← d.lookup path with
  | (_, .folder) => throw .isFolder
  | (place, .file) => return (d.files.lookup place).getD []

/-- A file takes other bytes. -/
def write (d : Desk) (path : Text) (bytes : List Byte) : Desk :=
  match d.lookup path with
  | .ok (place, .file) =>
    { d with files := d.files.map fun (f, old) => if f == place then (f, bytes) else (f, old) }
  | _ => d

end Desk

instance : Host (StateM Desk) where
  kind? path := return ((← get).lookup path).toOption.map (·.2)
  names path := do
    let d ← get
    match d.lookup (if path.isEmpty then "." else path) with
    | .ok (place, .folder) => return d.namesAt place
    | _ => return []
  read path := return (← get).read path
  write path bytes := modify (·.write path bytes)
  note n := modify fun d => { d with notes := n :: d.notes }
  complain line := modify fun d => { d with complaints := line :: d.complaints }

end GuardedText.Command
