import GuardedText.Compile
import GuardedText.Proofs.Block.Layout
import GuardedText.Proofs.Block.Mark

/-
  Evaluating the guards of a script. Making a program from the blocks, running it on a stack and
  marking the blocks with its report amounts to one walk over the blocks in document order
  (`Compilation.evaluate_walk`).
-/

namespace GuardedText.Compilation

/-- Walks some blocks in a new outermost frame over a context. -/
def walk (waiting : Waiting) (context : Ref) (blocks : List Block) : Run (List (Option Int)) :=
  fun w =>
    match Eval.openRoot context w with
    | .ok frame w => Run.walk waiting frame blocks w
    | .error cause w => .error ⟨cause, ⟨0, 0⟩⟩ w

/-- Running the program of some blocks over a context stops where the walk stops. -/
theorem runProgram_of_error {waiting : Waiting} {context : Ref} {blocks : List Block} {w w' : World}
    {failure : GuardFailure} (h : walk waiting context blocks w = .error failure w') :
    runProgram waiting context (.compile blocks) w = .error failure w' := by
  unfold walk at h
  unfold runProgram
  cases hroot : Eval.openRoot context w with
  | error cause v =>
    rw [hroot] at h
    cases h
    rfl
  | ok frame v =>
    rw [hroot] at h
    exact Run.program_of_error h

/-- Running the program of some blocks over a context to its end reports what the walk tells. -/
theorem runProgram_of_ok {waiting : Waiting} {context : Ref} {blocks : List Block} {w w' : World}
    {taken : List (Option Int)} (h : walk waiting context blocks w = .ok taken w') :
    ∃ entries, Run.Fits blocks entries taken ∧
      runProgram waiting context (.compile blocks) w = .ok entries w' := by
  unfold walk at h
  unfold runProgram
  cases hroot : Eval.openRoot context w with
  | error cause v =>
    rw [hroot] at h
    cases h
  | ok frame v =>
    rw [hroot] at h
    exact Run.program_of_ok h

section

variable {blocks : List Block} (hprompt : Program.Immediate blocks) {context : Ref} {w w' : World}
include hprompt

theorem evaluate_stopped {failure : GuardFailure}
    (hrun : runProgram .forbidden context (.compile blocks) w = .error failure w') :
    evaluate .forbidden context blocks w =
      ([.evaluating blocks.length true], [], some (.guard failure), w') := by
  simp only [evaluate, Program.suspends_compile hprompt, hrun]
  rfl

theorem evaluate_finished {entries : List Report} {marks : List Mark}
    (hrun : runProgram .forbidden context (.compile blocks) w = .ok entries w')
    (hreport : Mark.ofReport blocks (.list entries) = (marks, none)) :
    evaluate .forbidden context blocks w =
      (.evaluating blocks.length true :: marks.map Mark.note, marks, none, w') := by
  simp only [evaluate, Program.suspends_compile hprompt, hrun, hreport]
  rfl

end

/-- Evaluating the blocks of a script in which no guard can wait is walking them: the world and the
    failure are those of the walk, every block that was reached is marked once with the branch it
    took, no other block is marked, and the report on the run always fits. -/
theorem evaluate_walk {source : Text} {blocks : List Block}
    (hparse : (Block.parse source).2 = .ok blocks) (hprompt : Program.Immediate blocks)
    (context : Ref) (w w' : World) :
    (∀ failure, walk .forbidden context blocks w = .error failure w' →
      ∃ notes, evaluate .forbidden context blocks w = (notes, [], some (.guard failure), w')) ∧
    ∀ taken, walk .forbidden context blocks w = .ok taken w' →
      ∃ notes marks, evaluate .forbidden context blocks w = (notes, marks, none, w') ∧
        marks.Perm (Mark.stamps (Block.preorderList blocks) taken) ∧
        (Block.preorderList blocks).map (Mark.choices marks).taken? = taken := by
  refine ⟨fun failure hwalk => ?_, fun taken hwalk => ?_⟩
  · exact ⟨_, evaluate_stopped hprompt (runProgram_of_error hwalk)⟩
  · obtain ⟨entries, hfits, hdone⟩ := runProgram_of_ok hwalk
    obtain ⟨marks, hreport, hmarks⟩ := Mark.ofReport_fits hfits
    exact ⟨_, marks, evaluate_finished hprompt hdone hreport, hmarks,
      Mark.taken_choices hmarks hfits.length_taken (Block.parse_laid hparse).nodup_starts⟩

/-- A script with a block in a branch: its guards cannot wait, so evaluating it is walking it. -/
theorem evaluate_walk_nested :
    ∃ blocks, (Block.parse "/*#if 0*/a/*#if b*//*#endif*//*#endif*/").2 = .ok blocks ∧
      Program.Immediate blocks ∧
      ∀ context w w' taken, walk .forbidden context blocks w = .ok taken w' →
        ∃ notes marks, evaluate .forbidden context blocks w = (notes, marks, none, w') ∧
          (Block.preorderList blocks).map (Mark.choices marks).taken? = taken := by
  obtain ⟨blocks, hparse, hcheck⟩ := Block.parse_of_check
    (show (Block.parse "/*#if 0*/a/*#if b*//*#endif*//*#endif*/").2.toOption.any
      (fun blocks => decide (Program.Immediate blocks)) = true by decide +kernel)
  have hprompt := of_decide_eq_true hcheck
  refine ⟨blocks, hparse, hprompt, fun context w w' taken hwalk => ?_⟩
  have hwalked := evaluate_walk hparse hprompt context w w'
  obtain ⟨notes, marks, heval, -, htaken⟩ := hwalked.2 taken hwalk
  exact ⟨notes, marks, heval, htaken⟩

end GuardedText.Compilation
