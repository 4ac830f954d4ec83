import GuardedText.Text.Class
import GuardedText.Text.Quoted
import GuardedText.Text.Search

/-
  The arguments of the command. Options have a short and a long name; long names may be cut short
  while only one option starts like that, short ones may stand together behind one dash, and an
  argument follows its option, in the same word or in the next. All other words are files, which
  must stand together. After `--` no word is an option.
-/

namespace GuardedText.Command

/-- The options of the command. -/
inductive Flag where
  | help | glob | var | env | dryRun | inPlace | verbosity | version
  deriving DecidableEq, Repr

namespace Flag

/-- The names of an option. -/
def names : Flag → List String
  | .help => ["-h", "--help"]
  | .glob => ["-g", "--glob"]
  | .var => ["-D", "--var"]
  | .env => ["-e", "--env"]
  | .dryRun => ["--dry-run"]
  | .inPlace => ["-i", "--in-place"]
  | .verbosity => ["-v", "--verbosity"]
  | .version => ["-V", "--version"]

/-- The options in order. -/
def all : List Flag := [.help, .glob, .var, .env, .dryRun, .inPlace, .verbosity, .version]

/-- Every name with its option. -/
def table : List (Text × Flag) :=
  all.flatMap fun f => f.names.map fun n => (Text.ofString n, f)

/-- Whether an option takes an argument. -/
def takesArgument : Flag → Bool
  | .var | .env => true
  | _ => false

/-- The names of an option in a message. -/
def title (f : Flag) : Text := Text.ofString ("/".intercalate f.names)

end Flag

/-- What the command is asked to do. -/
structure Options where
  /-- The files, or patterns for them. -/
  files : List Text := []
  /-- Whether the files are patterns. -/
  glob : Bool := false
  /-- Variables of the context. -/
  vars : List Text := []
  /-- A file with variables. -/
  env : Option Text := none
  /-- Whether nothing is written. -/
  dryRun : Bool := false
  /-- Whether files are changed in place. -/
  inPlace : Bool := false
  /-- How much is reported. -/
  verbosity : Nat := 1
  deriving DecidableEq, Repr

/-- Why arguments are refused. -/
inductive UsageError where
  /-- A word could be several options. -/
  | ambiguous (word : Text) (candidates : List Text)
  /-- An option has no argument. -/
  | noArgument (flag : Flag)
  /-- An option has an argument and takes none. -/
  | needless (flag : Flag) (argument : Text)
  /-- Something that must be there is missing. -/
  | missing (titles : List Text)
  /-- Some words mean nothing. -/
  | unrecognized (words : List Text)
  deriving DecidableEq, Repr

/-- The words for refused arguments. -/
def UsageError.message : UsageError → Text
  | .ambiguous word candidates =>
    "ambiguous option: " ++ word ++ " could match " ++ Text.join ", " candidates
  | .noArgument flag => "argument " ++ flag.title ++ ": expected one argument"
  | .needless flag argument =>
    "argument " ++ flag.title ++ ": ignored explicit argument " ++ argument.quoted
  | .missing titles => "the following arguments are required: " ++ Text.join ", " titles
  | .unrecognized words => "unrecognized arguments: " ++ Text.join " " words

/-- What arguments amount to when they are not simply options. -/
inductive Halt where
  /-- They are refused. -/
  | usage (error : UsageError)
  /-- Help is asked for. -/
  | help
  /-- The version is asked for. -/
  | version
  deriving DecidableEq, Repr

/-- The argument that stands in the word of an option itself. -/
inductive Attached where
  /-- None. -/
  | none
  /-- After an equals sign. -/
  | equals (argument : Text)
  /-- Right after a short name. -/
  | direct (argument : Text)
  deriving DecidableEq, Repr

/-- What a word of the arguments is. -/
inductive Word where
  /-- An option. -/
  | option (flag : Flag) (long : Bool) (attached : Attached)
  /-- What looks like an option and is none. -/
  | unknown (text : Text)
  /-- A file or an argument. -/
  | plain (text : Text)
  /-- The two dashes after which all words are plain. -/
  | separator
  deriving DecidableEq, Repr

namespace Word

/-- The dash in front of options. -/
def dash : CodePoint := 0x2D

/-- Whether an option name is a long one. -/
def isLong (name : Text) : Bool := name.drop 1 |>.head? |>.any (· == dash)

/-- The text before the first equals sign, and the text after it if there is one. -/
def cutAtEquals (s : Text) : Text × Option Text :=
  match s.dropWhile (· != CodePoint.ofChar '=') with
  | [] => (s, none)
  | _ :: rest => (s.takeWhile (· != CodePoint.ofChar '='), some rest)

/-- Whether a word is a negative number. -/
def isNegativeNumber (s : Text) : Bool :=
  let s := if s.getLast? == some 0x0A then s.dropLast else s
  match s with
  | [] => false
  | c :: t =>
    let whole := t.takeWhile CodePoint.isDecimal
    let rest := t.dropWhile CodePoint.isDecimal
    c == dash && (match rest with
      | [] => !whole.isEmpty
      | p :: digits =>
        p == CodePoint.ofChar '.' && !digits.isEmpty && digits.all CodePoint.isDecimal)

/-- The options that a word with a dash in front may be: a long name cut short, or a short name with
its argument right behind it. -/
def candidates (s : Text) : List (Text × Word) :=
  if isLong s then
    let (lead, argument) := cutAtEquals s
    (Flag.table.filter fun (name, _) => Text.startsWith name lead).map fun (name, flag) =>
      (name, .option flag true (argument.elim .none .equals))
  else
    Flag.table.filterMap fun (name, flag) =>
      if name == s.take 2 then some (name, .option flag false (.direct (s.drop 2)))
      else none

/-- What a word is, when no separator stands before it. -/
def ofText (s : Text) : Except Halt Word :=
  match s with
  | [] => .ok (.plain s)
  | [_] => .ok (.plain s)
  | c :: _ =>
    if c != dash then .ok (.plain s)
    else
      match Flag.table.lookup s with
      | some flag => .ok (.option flag (isLong s) .none)
      | none =>
        let (name, argument) := cutAtEquals s
        match argument.bind fun a => (Flag.table.lookup name).map (·, a) with
        | some (flag, a) => .ok (.option flag (isLong s) (.equals a))
        | none =>
          match candidates s with
          | [(_, word)] => .ok word
          | [] =>
            if isNegativeNumber s || List.elem 0x20 s then .ok (.plain s) else .ok (.unknown s)
          | several => .error (.usage (.ambiguous s (several.map (·.1))))

/-- What the words of the arguments are. -/
def classify : List Text → Except Halt (List Word)
  | [] => .ok []
  | s :: rest =>
    if s = Text.ofString "--" then .ok (.separator :: rest.map .plain)
    else do
      let word ← ofText s
      return word :: (← classify rest)

end Word

/-- The arguments read so far. -/
structure Parsing where
  /-- The options found. -/
  options : Options := {}
  /-- Whether the files have been met. -/
  filesMet : Bool := false
  /-- The words that mean nothing, the latest first. -/
  extras : List Text := []
  deriving DecidableEq, Repr

namespace Parsing

/-- An option is met, with its argument if it takes one. -/
def apply (p : Parsing) (flag : Flag) (argument : Text) : Except Halt Parsing :=
  let o := p.options
  match flag with
  | .help => .error .help
  | .version => .error .version
  | .glob => .ok { p with options := { o with glob := true } }
  | .var => .ok { p with options := { o with vars := o.vars ++ [argument] } }
  | .env => .ok { p with options := { o with env := some argument } }
  | .dryRun => .ok { p with options := { o with dryRun := true } }
  | .inPlace => .ok { p with options := { o with inPlace := true } }
  | .verbosity => .ok { p with options := { o with verbosity := o.verbosity + 1 } }

/-- A word that means nothing is met. -/
def skip (p : Parsing) (word : Text) : Parsing := { p with extras := word :: p.extras }

/-- The text of a word that is no option. -/
def plainText? : Word → Option Text
  | .plain s => some s
  | .separator => some "--"
  | _ => none

/-- Whether a word is a file or an argument. -/
def isPlain : Word → Bool
  | .plain _ => true
  | _ => false

/-- An option without attached argument is met; it may take the next word. -/
def optionAlone (p : Parsing) (before : List Flag) (flag : Flag) (rest : List Word) :
    Except Halt (Parsing × List Word) := do
  if flag.takesArgument then
    match rest with
    | .plain s :: rest =>
      let p ← before.foldlM (fun p f => p.apply f []) p
      return (← p.apply flag s, rest)
    | _ => throw (.usage (.noArgument flag))
  else
    let p ← (before ++ [flag]).foldlM (fun p f => p.apply f []) p
    return (p, rest)

/-- The short options of `letters`, after those of `before`, in one word. -/
def together (p : Parsing) (before : List Flag) (flag : Flag) (rest : List Word) :
    Text → Except Halt (Parsing × List Word)
  | [] => p.optionAlone before flag rest
  | c :: letters => do
    let finish (argument : Text) : Except Halt (Parsing × List Word) := do
      let p ← before.foldlM (fun p f => p.apply f []) p
      return (← p.apply flag argument, rest)
    if flag.takesArgument then
      finish (if c == CodePoint.ofChar '=' then letters else c :: letters)
    else if c == CodePoint.ofChar '=' then throw (.usage (.needless flag letters))
    else if c == Word.dash then throw (.usage (.needless flag (c :: letters)))
    else
      match Flag.table.lookup [Word.dash, c] with
      | some next => p.together (before ++ [flag]) next rest letters
      | none =>
        let p ← (before ++ [flag]).foldlM (fun p f => p.apply f []) p
        return (p.skip (Word.dash :: c :: letters), rest)

/-- An option is met; the words after it. -/
def option (p : Parsing) (flag : Flag) (attached : Attached) (rest : List Word) :
    Except Halt (Parsing × List Word) :=
  match attached with
  | .none => p.optionAlone [] flag rest
  | .equals argument =>
    if flag.takesArgument then return (← p.apply flag argument, rest)
    else throw (.usage (.needless flag argument))
  | .direct letters => p.together [] flag rest letters

/-- A run of words that are no options: the files if there is one among them and none were met
before; else they mean nothing. -/
def plain (p : Parsing) (run : List Word) : Parsing :=
  let texts := run.filterMap plainText?
  if !p.filesMet && run.any isPlain then
    { p with
      filesMet := true
      options := { p.options with files := texts.erase (Text.ofString "--") } }
  else { p with extras := texts.reverse ++ p.extras }

/-- The words are met one after another; each step leaves fewer. -/
def words (p : Parsing) : Nat → List Word → Except Halt Parsing
  | 0, _ => .ok p
  | _, [] => .ok p
  | fuel + 1, word :: rest =>
    match word with
    | .option flag _ attached => do
      let (p, rest) ← p.option flag attached rest
      p.words fuel rest
    | .unknown s => (p.skip s).words fuel rest
    | .plain _ | .separator =>
      let run := (word :: rest).takeWhile fun w => (plainText? w).isSome
      (p.plain run).words fuel ((word :: rest).drop run.length)

/-- The options, if nothing is missing and every word means something. -/
def finish (p : Parsing) : Except Halt Options :=
  let missing := (if p.filesMet then [] else [Text.ofString "files"]) ++
    (if p.options.inPlace then [] else [Flag.inPlace.title])
  if !missing.isEmpty then .error (.usage (.missing missing))
  else if !p.extras.isEmpty then .error (.usage (.unrecognized p.extras.reverse))
  else .ok p.options

end Parsing

/-- The options that arguments spell. -/
def Options.parse (arguments : List Text) : Except Halt Options := do
  let words ← Word.classify arguments
  (← Parsing.words {} words.length words).finish

end GuardedText.Command
