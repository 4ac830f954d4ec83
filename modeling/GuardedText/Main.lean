import Std.Time.DateTime.Timestamp
import GuardedText.Command.Run

/-
  The command in the world of files, terminals and clocks.
-/

namespace GuardedText.Command

/-- What stands at a path on the disk. -/
def diskKind? (path : Text) : IO (Option Kind) := do
  let place := (← IO.currentDir) / path.toString
  if path.isEmpty then return none
  else if ← place.isDir then return some .folder
  else if ← place.pathExists then return some .file
  else return none

/-- The bytes of a file on the disk. -/
def diskRead (path : Text) : IO (Except DiskError (List Byte)) := do
  match ← diskKind? path with
  | some .folder => return .error .isFolder
  | some .file => return .ok (← IO.FS.readBinFile path.toString).toList
  | none =>
    match ← diskKind? (Path.splitLast path).1 with
    | some .file => return .error .throughFile
    | _ => return .error .missing

instance : Host IO where
  kind? := diskKind?
  names path := do
    let place := (← IO.currentDir) / path.toString
    try return (← place.readDir).toList.map fun e => Text.ofString e.fileName
    catch _ => return []
  read := diskRead
  write path bytes := IO.FS.writeBinFile path.toString ⟨bytes.toArray⟩
  note n := IO.eprintln n.text.toString
  complain line := IO.eprintln line.toString

/-- The settings of the environment and of the env file of the working folder. -/
def readSettings : IO (Option Settings) := do
  let names := ["LEXER_NAME", "FILE_ENCODING", "ENV_INTERPOLATE", "DEBUG_MODE"]
  let spellings := names.flatMap fun n => ["CONDCOMP_" ++ n, ("CONDCOMP_" ++ n).toLower]
  let found ← spellings.filterMapM fun n =>
    return (← IO.getEnv n).map fun v => (Text.ofString n, Text.ofString v)
  let file ← match ← diskRead ".env" with
    | .ok bytes => pure (Utf8.decode bytes).toOption
    | .error _ => pure none
  return Settings.load? found (file.map Text.unifyLineEnds)

/-- A world with the present time and a number drawn by chance. -/
def presentWorld : IO World := do
  let now ← Std.Time.Timestamp.now
  let drawn ← IO.rand 0 (twoTo 53 - 1)
  return World.initial now.toMillisecondsSinceUnixEpoch.val
    (Float.ofNat drawn / Float.ofNat (twoTo 53))

/-- The words for a failure that the command does not report itself. -/
def Escape.text : Escape → Text
  | .badLiteral => "A literal of a guard has no value."
  | .unknownLexer => "The lexer is not known."
  | .unknownEncoding => "The encoding is not known."
  | .undecodable (.flaw f) => f.message
  | .undecodable .noMark => "A byte order mark is missing."

/-- Tells how the command ended; the result is its status. -/
def report : Ending → IO UInt32
  | .finished => return 0
  | .stopped .refused => return 1
  | .stopped (.escaped e) => do
    IO.eprintln e.text.toString
    return 1
  | .halted .help => do
    for line in helpLines do
      IO.println line
    return 0
  | .halted .version => do
    IO.println versionLine
    return 0
  | .halted (.usage e) => do
    for line in usageLines do
      IO.eprintln line
    IO.eprintln (usageLine e).toString
    return 2

end GuardedText.Command

open GuardedText GuardedText.Command in
/-- Compiles the files named by the arguments in place. -/
def main (arguments : List String) : IO UInt32 := do
  match ← readSettings with
  | none =>
    IO.eprintln "The settings are malformed."
    return 1
  | some settings =>
    let home := Path.names (Text.ofString (← IO.currentDir).toString)
    let (ending, _) ←
      (start settings home (arguments.map Text.ofString) (← presentWorld) : IO _)
    report ending
