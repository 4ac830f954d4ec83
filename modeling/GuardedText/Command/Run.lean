import GuardedText.Command.Help
import GuardedText.Command.Options
import GuardedText.Command.Pattern
import GuardedText.Compile
import GuardedText.Settings

/-
  Running the command: the context is made from an env file and from variables given as arguments,
  the files are found, and each is compiled against the context that the one before it left. A file
  is written only if its text has changed. The run stops at the first file that cannot be read or
  compiled.
-/

namespace GuardedText.Command

/-- A failure that the command does not report itself. -/
inductive Escape where
  /-- A literal of a guard has no value. -/
  | badLiteral
  /-- The language in the settings is not known. -/
  | unknownLexer
  /-- The encoding in the settings is not known. -/
  | unknownEncoding
  /-- The bytes of a file do not say how they are ordered, or an env file is no text. -/
  | undecodable (failure : DecodeFailure)
  deriving DecidableEq, Repr

/-- Why a run stopped before its end. -/
inductive Stop where
  /-- A complaint was made. -/
  | refused
  /-- Something went wrong that is not reported. -/
  | escaped (escape : Escape)
  deriving DecidableEq, Repr

/-- A run of the command; what it did to the world before it stopped remains. -/
abbrev Job (m : Type → Type) := ExceptT Stop (StateT World m)

/-- The name and the value of a variable given as an argument; without `=` it has no value. -/
def assignment (word : Text) : Text × Option Text := Word.cutAtEquals word

/-- A value of the context: a variable without a value is true. -/
def contextValue : Option Text → Value
  | some t => .text t
  | none => .bool true

/-- The names of languages whose comments can be found. -/
def lexers : List String := ["javascript", "js"]

/-- Whether comments can be found in a language. -/
def knowsLexer (name : Text) : Bool := lexers.any fun l => Text.ofString l == Text.lower name

/-- Why a file gives no text. -/
inductive ReadFailure where
  | disk (error : DiskError)
  | unknownEncoding
  | decode (failure : DecodeFailure)
  deriving DecidableEq, Repr

/-- The lines of complaint about a script that cannot be compiled. -/
def complaintLines (path : Text) : CompileError → List Text
  | .parse (.mistakes cs) =>
    cs.map fun c => path ++ ":" ++ Note.place c.position ++ ": " ++ Text.ofString c.mistake.kind ++
      ": " ++ c.mistake.message
  | .parse .badLiteral => []
  | .eval f => [path ++ ":" ++ Note.place f.position ++ ": " ++ f.message]

section

variable {m : Type → Type} [Monad m] [Host m]

/-- Passes a note on if the verbosity asks for it. -/
def say (verbosity : Int) (n : Note) : m Unit :=
  if (n.level : Int) ≤ verbosity then Host.note n else return ()

/-- The text of a file, with line ends unified. -/
def readText (settings : Settings) (path : Text) : m (Except ReadFailure Text) := do
  match ← Host.read path with
  | .error e => return .error (.disk e)
  | .ok bytes =>
    match Encoding.ofName? settings.fileEncoding with
    | none => return .error .unknownEncoding
    | some encoding =>
      match encoding.decode bytes with
      | .error f => return .error (.decode f)
      | .ok t => return .ok t.unifyLineEnds

/-- Makes complaints and stops. -/
def refuse {α : Type} (lines : List Text) : Job m α := do
  for line in lines do
    (Host.complain line : m Unit)
  throw .refused

/-- The variables of an env file. -/
def loadEnv (settings : Settings) (path : Text) : Job m (List (Text × Option Text)) := do
  if (← (Host.kind? path : m _)) != some Kind.file then
    refuse [("Error: Env file not found: " : Text) ++ path]
  match ← (readText settings path : m _) with
  | .error (.disk e) => refuse [path ++ ": " ++ e.message path]
  | .error .unknownEncoding => throw (.escaped .unknownEncoding)
  | .error (.decode f) => throw (.escaped (.undecodable f))
  | .ok t =>
    let found := EnvFile.statements t
    for line in EnvFile.malformedLines found do
      (Host.complain ("python-dotenv could not parse statement starting at line " ++
        Text.ofNat line) : m Unit)
    return EnvFile.values settings.envInterpolate found

/-- The context: the variables of the env file, then those given as arguments. -/
def makeContext (settings : Settings) (o : Options) (verbosity : Int) :
    Job m (List (Text × Option Text)) := do
  let loaded ←
    match o.env with
    | none => pure []
    | some path =>
      let path := Path.tidy path
      let values ← loadEnv settings path
      (say verbosity (.loaded values.length path) : m Unit)
      pure values
  let context := Table.insertAll loaded (o.vars.map assignment)
  let names := (context.map (·.1)).mergeSort fun a b => !Text.less b a
  (say verbosity (.context names) : m Unit)
  return context

/-- The files that an argument stands for. -/
def candidates (o : Options) (verbosity : Int) (file : Text) : m (List Text) := do
  if o.glob then
    let found ← (← Pattern.expand file).filterM fun p =>
      return (← Host.kind? (Path.tidy p)) != some Kind.folder
    say verbosity (.matched file found.length)
    return found
  else return [file]

/-- The files to compile, each once. -/
def findFiles (home : List Text) (o : Options) (verbosity : Int) : m (List (List Text)) := do
  let found ← o.files.mapM (candidates o verbosity)
  return (found.flatten.map (Path.resolve home)).eraseDups

/-- Compiles a file and says whether its text changed. -/
def compileFile (settings : Settings) (dryRun : Bool) (verbosity : Int) (context : Ref)
    (place : List Text) : Job m Bool := do
  let path := Path.display place
  let source ←
    match ← (readText settings path : m _) with
    | .error (.disk e) => refuse [path ++ ": " ++ e.message path]
    | .error (.decode (.flaw f)) => refuse [path ++ ": " ++ f.message]
    | .error (.decode .noMark) => throw (.escaped (.undecodable .noMark))
    | .error .unknownEncoding => throw (.escaped .unknownEncoding)
    | .ok t => pure t
  if !knowsLexer settings.lexerName then
    (say verbosity (.parsing source.length) : m Unit)
    throw (.escaped .unknownLexer)
  let (compilation, world) := compile .allowed context source (← get)
  set world
  for n in compilation.notes do
    (say verbosity n : m Unit)
  match compilation.result with
  | .error (.parse .badLiteral) => throw (.escaped .badLiteral)
  | .error e => refuse (complaintLines path e)
  | .ok text =>
    let changed := text != source
    if changed && !dryRun then
      if let some encoding := Encoding.ofName? settings.fileEncoding then
        (Host.write path (encoding.encode text) : m Unit)
    (say verbosity (.done path) : m Unit)
    return changed

/-- Compiles the files against one context. -/
def run (settings : Settings) (home : List Text) (o : Options) : Job m Unit := do
  let verbosity := settings.verbosity o.verbosity
  let entries ← makeContext settings o verbosity
  let places ← (findFiles home o verbosity : m _)
  let w ← get
  let context := w.store.size
  let table := Obj.dict (entries.map fun (k, v) => (Key.name k, contextValue v))
  set { w with store := w.store.push table }
  let changes ← places.mapM (compileFile settings o.dryRun verbosity context)
  (say verbosity (.compiled places.length (changes.count true) o.dryRun) : m Unit)

end

/-- How the command ends. -/
inductive Ending where
  /-- All files are done. -/
  | finished
  /-- The run stopped. -/
  | stopped (stop : Stop)
  /-- The arguments ask for something else, or are refused. -/
  | halted (halt : Halt)
  deriving DecidableEq, Repr

/-- The command with its arguments. -/
def start {m : Type → Type} [Monad m] [Host m] (settings : Settings) (home : List Text)
    (arguments : List Text) (world : World) : m (Ending × World) := do
  match Options.parse arguments with
  | .error halt => return (.halted halt, world)
  | .ok o =>
    let (result, world) ← ((run settings home o).run).run world
    match result with
    | .ok _ => return (.finished, world)
    | .error stop => return (.stopped stop, world)

/-- The line for refused arguments. -/
def usageLine (e : UsageError) : Text := "condcomp: error: " ++ e.message

end GuardedText.Command
