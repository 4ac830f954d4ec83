import GuardedText.Block.Cuts
import GuardedText.Block.Mark
import GuardedText.Block.Parser
import GuardedText.Block.Run

/-
  Compiling a script: its directives are parsed into blocks, the blocks are run against a context,
  marked with the branches they took, and what they did not take is cut from the text together with
  all directives. A script without blocks is left as it is. When guards may not wait, a script in
  which any guard could wait is refused before the first guard is evaluated.
-/

namespace GuardedText

/-- Why the guards of a script could not be evaluated. -/
inductive EvalFailure where
  /-- A guard failed. -/
  | guard (failure : GuardFailure)
  /-- A guard could wait, and waiting is not allowed. -/
  | waits
  /-- The report on the run does not fit the blocks. -/
  | misfit (misfit : Misfit)

/-- What a misfit is called. -/
def Misfit.message : Misfit → Text
  | .malformed r => "Malformed evaluation result: " ++ r.display
  | .noBranch branch line =>
    "Invalid branch " ++ branch.display ++ " for #if at line " ++ Text.ofInt line

namespace EvalFailure

/-- Where the failure is pinned: at a guard, or nowhere. -/
def position : EvalFailure → Position
  | .guard failure => failure.position
  | .waits | .misfit _ => ⟨0, 0⟩

/-- What went wrong. -/
def detail : EvalFailure → Text
  | .guard failure => failure.cause.message
  | .waits => "Cannot use 'await' when compiling synchronously"
  | .misfit m => m.message

/-- The words for a failure. -/
def message (f : EvalFailure) : Text :=
  "Evaluation error at line " ++ Text.ofInt f.position.line ++ " and column " ++
    Text.ofInt f.position.column ++
    (if f.detail.isEmpty then [] else (": " : Text) ++ f.detail)

end EvalFailure

/-- Why a script could not be compiled. -/
inductive CompileError where
  /-- Its directives are malformed. -/
  | parse (failure : ParseFailure)
  /-- Its guards could not be evaluated. -/
  | eval (failure : EvalFailure)

/-- What a compilation leaves besides the changed world. -/
structure Compilation where
  /-- The notes in order. -/
  notes : List Note
  /-- The blocks of the script. -/
  blocks : List Block := []
  /-- The branches they were found to take. -/
  marks : List Mark := []
  /-- The text that remains. -/
  result : Except CompileError Text

namespace Compilation

/-- The ranges of cuts that are not empty. -/
def removals (cuts : Cuts) : Nat := (cuts.toList.filter fun r => decide (r.start < r.stop)).length

/-- What remains of a script whose blocks took their branches, and the note on it. Every mark names
a branch of its block, so the cuts exist. -/
def reconstruct (source : Text) (blocks : List Block) (marks : List Mark) : List Note × Text :=
  let cuts := (Block.cuts? (Mark.choices marks) blocks).getD {}
  (if cuts.isEmpty then [] else [.removed (removals cuts)], Cut.emit source cuts)

/-- Runs a program in a new outermost frame over a context. -/
def runProgram (waiting : Waiting) (context : Ref) (program : Program) : Run (List Report) :=
  fun w =>
    match Eval.openRoot context w with
    | .ok frame w => Run.program waiting frame program w
    | .error cause w => .error ⟨cause, ⟨0, 0⟩⟩ w

/-- Evaluates the guards of the blocks of a script and marks the blocks. -/
def evaluate (waiting : Waiting) (context : Ref) (blocks : List Block) (w : World) :
    List Note × List Mark × Option EvalFailure × World :=
  let program := Program.compile blocks
  if waiting = .forbidden && program.suspends then ([], [], some .waits, w)
  else
    let begun := Note.evaluating blocks.length (waiting = .forbidden)
    match runProgram waiting context program w with
    | .error failure w => ([begun], [], some (.guard failure), w)
    | .ok entries w =>
      let (marks, misfit) := Mark.ofReport blocks (.list entries)
      (begun :: marks.map Mark.note, marks, misfit.map .misfit, w)

end Compilation

/-- Compiles a script against the context at a place of the store. -/
def compile (waiting : Waiting) (context : Ref) (source : Text) (w : World) :
    Compilation × World :=
  let (notes, parsed) := Block.parse source
  let notes := Note.parsing source.length :: notes
  match parsed with
  | .error failure => ({ notes, result := .error (.parse failure) }, w)
  | .ok [] => ({ notes, result := .ok source }, w)
  | .ok blocks =>
    let (more, marks, failure, w) := Compilation.evaluate waiting context blocks w
    match failure with
    | some failure =>
      ({ notes := notes ++ more, blocks, marks, result := .error (.eval failure) }, w)
    | none =>
      let (last, text) := Compilation.reconstruct source blocks marks
      ({ notes := notes ++ more ++ last, blocks, marks, result := .ok text }, w)

end GuardedText
