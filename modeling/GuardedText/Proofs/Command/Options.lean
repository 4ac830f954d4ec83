import GuardedText.Command.Options

/-
  A dry run asked for in front of all other arguments. Reading arguments never looks at whether a dry
  run was asked for, so a reading in which it was (`Parsing.dry`) goes step by step as one in which it
  was not, and `--dry-run` changes nothing else in the options (`Options.parse_dryRun`).
-/

namespace GuardedText.Command

/-- The options with a dry run asked for. -/
def Options.dry (o : Options) : Options := { o with dryRun := true }

namespace Parsing

/-- The arguments read so far, and a dry run asked for. -/
def dry (p : Parsing) : Parsing := { p with options := p.options.dry }

/-- What a step leaves, with a dry run asked for. -/
def dryStep (r : Except Halt (Parsing × List Word)) : Except Halt (Parsing × List Word) :=
  r.map fun (p, rest) => (p.dry, rest)

theorem apply_dry (p : Parsing) (flag : Flag) (argument : Text) :
    p.dry.apply flag argument = (p.apply flag argument).map dry := by
  cases flag <;> rfl

/-- The options of one word that take no argument. -/
def applyAll (p : Parsing) (flags : List Flag) : Except Halt Parsing :=
  flags.foldlM (fun p f => p.apply f []) p

theorem applyAll_dry (p : Parsing) (flags : List Flag) :
    p.dry.applyAll flags = (p.applyAll flags).map dry := by
  unfold applyAll
  induction flags generalizing p with
  | nil => rfl
  | cons flag flags ih =>
    rw [List.foldlM_cons, List.foldlM_cons, apply_dry]
    cases p.apply flag [] with
    | error halt => rfl
    | ok q => exact ih q

/-- Some options of one word, the last of them with its argument. -/
theorem applyLast_dry (p : Parsing) (before : List Flag) (flag : Flag) (argument : Text)
    (rest : List Word) :
    (do return (← (← p.dry.applyAll before).apply flag argument, rest)) =
      dryStep (do return (← (← p.applyAll before).apply flag argument, rest)) := by
  rw [applyAll_dry]
  cases p.applyAll before with
  | error halt => rfl
  | ok q =>
    change (do return (← q.dry.apply flag argument, rest)) =
      dryStep (do return (← q.apply flag argument, rest))
    rw [apply_dry]
    cases q.apply flag argument <;> rfl

theorem optionAlone_dry (p : Parsing) (before : List Flag) (flag : Flag) (rest : List Word) :
    p.dry.optionAlone before flag rest = dryStep (p.optionAlone before flag rest) := by
  unfold optionAlone
  split
  · split
    · exact applyLast_dry p before flag _ _
    · rfl
  · change (do return (← p.dry.applyAll (before ++ [flag]), rest)) =
      dryStep (do return (← p.applyAll (before ++ [flag]), rest))
    rw [applyAll_dry]
    cases p.applyAll (before ++ [flag]) <;> rfl

theorem together_dry (p : Parsing) (before : List Flag) (flag : Flag) (rest : List Word)
    (letters : Text) :
    p.dry.together before flag rest letters = dryStep (p.together before flag rest letters) := by
  induction letters generalizing before flag with
  | nil => exact optionAlone_dry p before flag rest
  | cons c letters ih =>
    unfold together
    dsimp only
    split
    · exact applyLast_dry p before flag _ rest
    · split
      · rfl
      · split
        · rfl
        · split
          · exact ih _ _
          · change (do return ((← p.dry.applyAll (before ++ [flag])).skip _, rest)) =
              dryStep (do return ((← p.applyAll (before ++ [flag])).skip _, rest))
            rw [applyAll_dry]
            cases p.applyAll (before ++ [flag]) <;> rfl

theorem option_dry (p : Parsing) (flag : Flag) (attached : Attached) (rest : List Word) :
    p.dry.option flag attached rest = dryStep (p.option flag attached rest) := by
  unfold option
  split
  · exact optionAlone_dry p [] flag rest
  · split
    · exact applyLast_dry p [] flag _ rest
    · rfl
  · exact together_dry p [] flag rest _

theorem plain_dry (p : Parsing) (run : List Word) : p.dry.plain run = (p.plain run).dry := by
  unfold plain
  dsimp only
  rw [apply_ite dry]
  rfl

theorem words_dry (p : Parsing) (fuel : Nat) (ws : List Word) :
    p.dry.words fuel ws = (p.words fuel ws).map dry := by
  induction fuel generalizing p ws with
  | zero => rfl
  | succ fuel ih =>
    cases ws with
    | nil => rfl
    | cons word rest =>
      cases word with
      | option flag long attached =>
        rw [words, words, option_dry]
        cases p.option flag attached rest with
        | error halt => rfl
        | ok next => exact ih next.1 next.2
      | unknown s => exact ih (p.skip s) rest
      | plain s =>
        rw [words, words, plain_dry]
        exact ih _ _
      | separator =>
        rw [words, words, plain_dry]
        exact ih _ _

theorem finish_dry (p : Parsing) : p.dry.finish = p.finish.map Options.dry := by
  unfold finish
  dsimp only
  rw [apply_ite (Except.map Options.dry), apply_ite (Except.map Options.dry)]
  rfl

end Parsing

theorem Word.classify_dryRun (arguments : List Text) :
    Word.classify ("--dry-run" :: arguments) =
      (Word.classify arguments).map (.option .dryRun true .none :: ·) := by
  have hword : Word.ofText "--dry-run" = .ok (.option .dryRun true .none) := by rfl
  rw [Word.classify, if_neg (by decide), hword]
  cases Word.classify arguments <;> rfl

/-- A dry run asked for in front of all other arguments changes nothing else in the options. -/
theorem Options.parse_dryRun (arguments : List Text) :
    Options.parse ("--dry-run" :: arguments) = (Options.parse arguments).map Options.dry := by
  unfold Options.parse
  rw [Word.classify_dryRun]
  cases Word.classify arguments with
  | error halt => rfl
  | ok ws =>
    change (do (← (({} : Parsing).dry).words ws.length ws).finish) =
      Except.map Options.dry (do (← ({} : Parsing).words ws.length ws).finish)
    rw [Parsing.words_dry]
    cases ({} : Parsing).words ws.length ws with
    | error halt => rfl
    | ok p => exact p.finish_dry

end GuardedText.Command
