import GuardedText.Block.Program
import GuardedText.Eval.Call
import GuardedText.Report

/-
  Running programs. The guards of a block are evaluated in order up to the first that holds; the
  program of the branch so chosen is run before the next block. Programs begun and not finished stand
  on a stack, so that nesting costs no call depth. The run ends in a report.
-/

namespace GuardedText

/-- Why a run stopped: what went wrong in which guard. -/
structure GuardFailure where
  /-- What went wrong. -/
  cause : Fault
  /-- Where the directive of the guard stands. -/
  position : Position
  deriving DecidableEq, Repr

/-- A run changes the world and may stop at a guard. -/
abbrev Run := EStateM GuardFailure World

/-- A program that is being run. -/
structure Level where
  /-- The plans still to run. -/
  todo : List (Plan Program)
  /-- The entries of those that were run, the latest first. -/
  done : List Report

namespace Run

/-- Whether the guard of a branch holds. -/
def holds (waiting : Waiting) (frame : Ref) (test : Test) : Run Bool := fun w =>
  match (do Eval.lift (Store.truthy (← Eval.run waiting frame test.guard.expr)) : Eval Bool) w with
  | .ok b w => .ok b w
  | .error cause w => .error ⟨cause, test.span.position⟩ w

/-- The index, counted from `index`, of the first test that holds, or -1. -/
def firstHolding (waiting : Waiting) (frame : Ref) (index : Int) : List Test → Run Int
  | [] => return -1
  | test :: tests => do
    if ← holds waiting frame test then return index
    firstHolding waiting frame (index + 1) tests

/-- The branch that a block takes. -/
def select (waiting : Waiting) (frame : Ref) (plan : Plan Program) : Run Int :=
  firstHolding waiting frame 0 (plan.trials.map Trial.test)

/-- How much there is still to run on a stack of levels. -/
noncomputable def pending (level : Level) : List (Int × Level) → Nat
  | [] => sizeOf level.todo
  | (_, next) :: outer => sizeOf level.todo + pending next outer

/-- Runs the innermost level, then the levels around it, each with the branch it waits in. -/
def levels (waiting : Waiting) (frame : Ref) : Level → List (Int × Level) → Run (List Report)
  | ⟨[], done⟩, [] => return done.reverse
  | ⟨[], done⟩, (branch, ⟨todo, before⟩) :: outer =>
    levels waiting frame
      ⟨todo, .entry (.number (.int branch)) (.list done.reverse) :: before⟩ outer
  | ⟨plan :: todo, done⟩, outer => do
    let branch ← select waiting frame plan
    match _h : plan.innerAt branch with
    | none => levels waiting frame ⟨todo, .entry (.number (.int branch)) .null :: done⟩ outer
    | some inner => levels waiting frame ⟨inner.plans, []⟩ ((branch, ⟨todo, done⟩) :: outer)
termination_by level outer => pending level outer
decreasing_by
  · cases outer <;> simp only [pending, List.nil.sizeOf_spec] <;> omega
  · cases outer <;> simp only [pending, List.cons.sizeOf_spec] <;> omega
  · have := Plan.sizeOf_innerAt _h
    obtain ⟨plans⟩ := inner
    simp only [Program.mk.sizeOf_spec] at this
    cases outer <;> simp only [pending, Program.plans, List.cons.sizeOf_spec] <;> omega

/-- Runs a program in a frame. -/
def program (waiting : Waiting) (frame : Ref) (p : Program) : Run (List Report) :=
  levels waiting frame ⟨p.plans, []⟩ []

end Run

end GuardedText
