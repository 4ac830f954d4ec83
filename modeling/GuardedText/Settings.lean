import GuardedText.EnvFile
import GuardedText.Text.Case

/-
  Settings of the command, read from environment variables whose names start with `CONDCOMP_`, in
  any case, and from an env file. The environment comes first.
-/

namespace GuardedText

/-- The settings of the command. -/
structure Settings where
  /-- The language whose comments hold directives. -/
  lexerName : Text := "javascript"
  /-- How files are encoded. -/
  fileEncoding : Text := "utf-8"
  /-- Whether references in env files are replaced. -/
  envInterpolate : Bool := true
  /-- Whether everything is reported. -/
  debugMode : Bool := false

namespace Settings

/-- The spellings of a truth value, in small letters. -/
def truthSpellings : List (String × Bool) :=
  [("1", true), ("0", false), ("on", true), ("off", false), ("t", true), ("f", false),
   ("true", true), ("false", false), ("y", true), ("n", false), ("yes", true), ("no", false)]

/-- The truth value that a text spells, in any case. -/
def truth? (t : Text) : Option Bool :=
  let small := t.map CodePoint.toAsciiLower
  (truthSpellings.find? fun (s, _) => Text.ofString s == small).map (·.2)

/-- The variables with their names in small letters; of two that become one the later counts. -/
def lowered {α : Type} (entries : List (Text × α)) : List (Text × α) :=
  Table.insertAll [] (entries.map fun (name, v) => (Text.lower name, v))

/-- The variables of an env file, whose references may stand for variables of the environment. -/
def fileVariables (environment : List (Text × Text)) (file : Text) : List (Text × Option Text) :=
  lowered (EnvFile.expandAll (environment.map fun (name, v) => (name, some v))
    (EnvFile.bindings (EnvFile.statements file)))

/-- The value of a setting: that of the environment, else that of the env file. -/
def find? (environment : List (Text × Text)) (file : Option Text) (name : String) : Option Text :=
  let key := Text.ofString ("condcomp_" ++ name)
  (Table.lookup? key (lowered environment)).or
    ((file.bind fun t => Table.lookup? key (fileVariables environment t)).join)

/-- A setting that is a truth value; it must spell one if it is set. -/
def findTruth? (environment : List (Text × Text)) (file : Option Text) (name : String)
    (unset : Bool) : Option Bool :=
  match find? environment file name with
  | some t => truth? t
  | none => some unset

/-- The settings of an environment and an env file; none if a truth value is malformed. -/
def load? (environment : List (Text × Text)) (file : Option Text) : Option Settings := do
  let initial : Settings := {}
  let find (name : String) := find? environment file name
  return {
    lexerName := (find "lexer_name").getD initial.lexerName
    fileEncoding := (find "file_encoding").getD initial.fileEncoding
    envInterpolate := ← findTruth? environment file "env_interpolate" initial.envInterpolate
    debugMode := ← findTruth? environment file "debug_mode" initial.debugMode }

/-- The verbosity asked for, raised when everything is reported. -/
def verbosity (s : Settings) (asked : Int) : Int := if s.debugMode then max asked 3 else asked

end Settings

end GuardedText
