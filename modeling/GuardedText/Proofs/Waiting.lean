import GuardedText.Compile
import GuardedText.Proofs.Block.Guards
import GuardedText.Proofs.Block.Layout
import GuardedText.Proofs.Eval.Suspend
import GuardedText.Proofs.Guard.Compile

/-
  Compiling with and without waiting. A guard that was compiled from a text waits only where `await`
  stands in it, never in a function (`Block.fits_of_parse`), so a run in which waiting is allowed
  or no guard has an `await` is not stopped by a wait (`Run.prompt_levels`), and forbidding to wait
  then changes nothing (`Run.levels_forbidden`). `compile_waiting` puts this together for scripts.
-/

set_option mvcgen.warning false

namespace GuardedText

open Std.Do

/-! ## Guards of scripts -/

/-- Every guard of a script may be evaluated when waiting is allowed: it waits outside functions
    only. -/
theorem Block.fits_of_parse {source : Text} {blocks : List Block}
    (hparse : (Block.parse source).2 = .ok blocks) {g : Guard} (hg : Block.Guards blocks g) :
    g.expr.Fits .allowed := by
  obtain ⟨text, htext⟩ := Block.compiled_of_parse hparse hg
  obtain ⟨-, -, -, statement, -, -, hbuild⟩ := Guard.compile_eq_ok.1 htext
  exact statement.tree.fits_of_build hbuild

/-- A guard that cannot wait may be evaluated when waiting is forbidden. -/
theorem Program.Immediate.fits {blocks : List Block} (h : Immediate blocks) {g : Guard}
    (hg : Block.Guards blocks g) : g.expr.Fits .forbidden := by
  obtain ⟨b, hb, arm, harm, hguard⟩ := hg
  exact g.expr.fits_of_not_suspends (h b hb arm harm g hguard)

/-! ## Levels -/

/-- Every guard of a plan, and of the programs inside it, has a property. -/
def Plan.Every (P : Guard → Prop) (plan : Plan Program) : Prop :=
  (∀ trial ∈ plan.trials, P trial.test.guard) ∧ ∀ q ∈ Program.planInners plan, q.Every P

/-- Every guard that a level still has to run has a property. -/
def Level.Every (P : Guard → Prop) (level : Level) : Prop := ∀ plan ∈ level.todo, plan.Every P

theorem Program.Every.plan {P : Guard → Prop} {p : Program} (h : p.Every P) {plan : Plan Program}
    (hplan : plan ∈ p.plans) : plan.Every P :=
  ⟨fun _ htrial => h.trial hplan htrial,
    fun _ hq => h.inner (List.mem_flatMap.2 ⟨plan, hplan, hq⟩)⟩

theorem Plan.Every.innerAt {P : Guard → Prop} {plan : Plan Program} (h : plan.Every P)
    {branch : Int} {q : Program} (hq : plan.innerAt branch = some q) : q.Every P := by
  refine h.2 q ?_
  unfold Program.planInners
  match branch with
  | .ofNat k =>
    obtain ⟨trial, htrial, hinner⟩ := Option.bind_eq_some_iff.1 hq
    exact List.mem_append_left _ (List.mem_filterMap.2 ⟨trial, List.mem_of_getElem? htrial, hinner⟩)
  | .negSucc _ => exact List.mem_append_right _ (Option.mem_toList.2 hq)

/-- What one step of a run does to a property of all guards still to run: nothing. -/
theorem Level.Every.tail {P : Guard → Prop} {plan : Plan Program} {todo : List (Plan Program)}
    {done : List Report} (h : Level.Every P ⟨plan :: todo, done⟩) (done' : List Report) :
    Level.Every P ⟨todo, done'⟩ :=
  fun plan hplan => h plan (List.mem_cons_of_mem _ hplan)

namespace Run

/-! ## Forbidding what does not happen -/

theorem holds_forbidden {frame : Ref} {test : Test} (h : test.guard.suspends = false) :
    holds .forbidden frame test = holds .allowed frame test := by
  unfold holds Eval.run
  rw [Eval.evaluate_forbidden _ frame test.guard.expr h]

theorem firstHolding_forbidden {frame : Ref} (tests : List Test)
    (h : ∀ test ∈ tests, test.guard.suspends = false) (index : Int) :
    firstHolding .forbidden frame index tests = firstHolding .allowed frame index tests := by
  induction tests generalizing index with
  | nil => rfl
  | cons test tests ih =>
    obtain ⟨htest, htests⟩ := List.forall_mem_cons.1 h
    rw [firstHolding, firstHolding, holds_forbidden htest, ih htests]

theorem select_forbidden {frame : Ref} {plan : Plan Program}
    (h : plan.Every fun g => g.suspends = false) :
    select .forbidden frame plan = select .allowed frame plan := by
  refine firstHolding_forbidden _ ?_ 0
  intro test htest
  obtain ⟨trial, htrial, rfl⟩ := List.mem_map.1 htest
  exact h.1 trial htrial

/-- Running a stack of levels is the same when waiting is forbidden, if no guard can wait. -/
theorem levels_forbidden {frame : Ref} (level : Level) (outer : List (Int × Level))
    (hlevel : level.Every fun g => g.suspends = false)
    (houter : ∀ entry ∈ outer, entry.2.Every fun g => g.suspends = false) :
    levels .forbidden frame level outer = levels .allowed frame level outer := by
  induction level, outer using levels.induct with
  | case1 done => rw [levels, levels]
  | case2 done branch todo before outer ih =>
    obtain ⟨hnext, houter⟩ := List.forall_mem_cons.1 houter
    rw [levels, levels]
    simpa using ih hnext houter
  | case3 plan todo done outer ihleaf ihnode =>
    rw [levels, levels, select_forbidden (hlevel plan List.mem_cons_self)]
    refine congrArg _ (funext fun branch => ?_)
    split
    · exact ihleaf branch (hlevel.tail _) houter
    · rename_i inner hinner
      have hprogram := (hlevel plan List.mem_cons_self).innerAt hinner
      refine ihnode branch inner hinner (fun _ => hprogram.plan) ?_
      exact List.forall_mem_cons.2 ⟨hlevel.tail _, houter⟩

/-! ## Runs that do not wait -/

/-- A run on a world in which no function waits leaves such a world and is not stopped by a wait. -/
abbrev Prompt {α : Type} (x : Run α) : Prop :=
  ⦃fun w => ⌜w.Prompt⌝⦄ x
    ⦃post⟨fun _ w => ⌜w.Prompt⌝, fun e w => ⌜e.cause ≠ .suspended ∧ w.Prompt⌝⟩⦄

theorem prompt_iff {α : Type} {x : Run α} : Prompt x ↔ ∀ w, w.Prompt →
    (∀ a w', x w = .ok a w' → w'.Prompt) ∧
      ∀ e w', x w = .error e w' → e.cause ≠ .suspended ∧ w'.Prompt :=
  World.prompt_iff

theorem prompt_bind {α β : Type} {x : Run α} {f : α → Run β} (hx : Prompt x)
    (hf : ∀ a, Prompt (f a)) : Prompt (x >>= f) := by
  mvcgen [hx, hf]

/-- Evaluating a guard that may wait only if waiting is allowed. -/
theorem prompt_holds {waiting : Waiting} {frame : Ref} {test : Test}
    (h : test.guard.expr.Fits waiting) : Prompt (holds waiting frame test) := by
  have hrun := Eval.prompt_run frame h
  have htruth : Eval.Prompt
      (do Eval.lift (Store.truthy (← Eval.run waiting frame test.guard.expr)) : Eval Bool) :=
    Eval.prompt_truthy hrun
  refine prompt_iff.2 fun w hw => ?_
  obtain ⟨hok, herror⟩ := World.prompt_iff.1 htruth w hw
  unfold holds
  cases hresult : (do Eval.lift (Store.truthy (← Eval.run waiting frame test.guard.expr)) : Eval Bool) w with
  | ok b v =>
    refine ⟨?_, by simp⟩
    rintro _ _ ⟨⟩
    exact hok b v hresult
  | error cause v =>
    refine ⟨by simp, ?_⟩
    rintro _ _ ⟨⟩
    exact herror cause v hresult

theorem prompt_firstHolding {waiting : Waiting} {frame : Ref} (tests : List Test)
    (h : ∀ test ∈ tests, test.guard.expr.Fits waiting) (index : Int) :
    Prompt (firstHolding waiting frame index tests) := by
  induction tests generalizing index with
  | nil => mvcgen [firstHolding]
  | cons test tests ih =>
    obtain ⟨htest, htests⟩ := List.forall_mem_cons.1 h
    have hfirst : Prompt (holds waiting frame test) := prompt_holds htest
    have hrest := ih htests
    mvcgen [firstHolding, hfirst, hrest]

theorem prompt_select {waiting : Waiting} {frame : Ref} {plan : Plan Program}
    (h : plan.Every fun g => g.expr.Fits waiting) : Prompt (select waiting frame plan) := by
  refine prompt_firstHolding _ ?_ 0
  intro test htest
  obtain ⟨trial, htrial, rfl⟩ := List.mem_map.1 htest
  exact h.1 trial htrial

/-- Running a stack of levels is not stopped by a wait. -/
theorem prompt_levels {waiting : Waiting} {frame : Ref} (level : Level) (outer : List (Int × Level))
    (hlevel : level.Every fun g => g.expr.Fits waiting)
    (houter : ∀ entry ∈ outer, entry.2.Every fun g => g.expr.Fits waiting) :
    Prompt (levels waiting frame level outer) := by
  induction level, outer using levels.induct with
  | case1 done => mvcgen [levels]
  | case2 done branch todo before outer ih =>
    obtain ⟨hnext, houter⟩ := List.forall_mem_cons.1 houter
    rw [levels]
    simpa using ih hnext houter
  | case3 plan todo done outer ihleaf ihnode =>
    have hplan := hlevel plan List.mem_cons_self
    have hselect : Prompt (select waiting frame plan) := prompt_select hplan
    rw [levels]
    refine prompt_bind hselect fun branch => ?_
    split
    · exact ihleaf branch (hlevel.tail _) houter
    · rename_i inner hinner
      refine ihnode branch inner hinner (fun _ => (hplan.innerAt hinner).plan) ?_
      exact List.forall_mem_cons.2 ⟨hlevel.tail _, houter⟩

variable {frame : Ref} {p : Program}

theorem program_forbidden (h : p.Every fun g => g.suspends = false) :
    program .forbidden frame p = program .allowed frame p :=
  levels_forbidden _ [] (fun _ => h.plan) (by simp)

theorem prompt_program {waiting : Waiting} (h : p.Every fun g => g.expr.Fits waiting) :
    Prompt (program waiting frame p) :=
  prompt_levels _ [] (fun _ => h.plan) (by simp)

end Run

/-! ## Scripts -/

/-- A world with nothing but the lasting built-in functions has no function that waits. -/
theorem World.prompt_initial (now : Int) (chance : Float) : (World.initial now chance).Prompt := by
  intro o ho
  obtain ⟨b, -, rfl⟩ := List.mem_map.1 (List.mem_toArray.1 ho)
  trivial

namespace Compilation

theorem runProgram_forbidden {context : Ref} {blocks : List Block}
    (h : Program.Immediate blocks) (w : World) :
    runProgram .forbidden context (.compile blocks) w =
      runProgram .allowed context (.compile blocks) w := by
  have hevery : (Program.compile blocks).Every fun g => g.suspends = false := by
    rw [Program.compile_eq]
    refine Program.every_ofBlocks blocks ?_
    rintro g ⟨b, hb, arm, harm, hg⟩
    exact h b hb arm harm g hg
  unfold runProgram
  cases Eval.openRoot context w with
  | error cause v => rfl
  | ok frame v => exact congrFun (Run.program_forbidden hevery) v

/-- Running the program of some blocks is not stopped by a wait. -/
theorem runProgram_prompt {waiting : Waiting} {context : Ref} {blocks : List Block}
    (h : ∀ g, Block.Guards blocks g → g.expr.Fits waiting) {w : World} (hw : w.Prompt) :
    (∀ entries w', runProgram waiting context (.compile blocks) w = .ok entries w' → w'.Prompt) ∧
      ∀ failure w', runProgram waiting context (.compile blocks) w = .error failure w' →
        failure.cause ≠ .suspended ∧ w'.Prompt := by
  have hevery := Program.every_ofBlocks blocks h
  rw [← Program.compile_eq] at hevery
  -- Sealed, so that the tables of names are not built when the goal is unfolded.
  have hroot := @Eval.prompt_openRoot
  unfold runProgram
  generalize Eval.openRoot = root at hroot ⊢
  obtain ⟨hok, herror⟩ := World.prompt_iff.1 (hroot context) w hw
  cases hopen : root context w with
  | error cause v =>
    refine ⟨by simp, ?_⟩
    rintro _ _ ⟨⟩
    exact herror cause v hopen
  | ok frame v => exact Run.prompt_iff.1 (Run.prompt_program hevery) v (hok frame v hopen)

variable (context : Ref) {w : World} {blocks : List Block}

theorem evaluate_forbidden (w : World) (h : Program.Immediate blocks) :
    (evaluate .forbidden context blocks w).2 = (evaluate .allowed context blocks w).2 := by
  simp only [evaluate, Program.suspends_compile h, runProgram_forbidden h]
  cases runProgram .allowed context (.compile blocks) w with
  | error failure v => rfl
  | ok entries v => rfl

theorem evaluate_refused (h : ¬ Program.Immediate blocks) :
    evaluate .forbidden context blocks w = ([], [], some .waits, w) := by
  simp only [evaluate, (Program.suspends_iff blocks).2 h]
  rfl

theorem evaluate_world {waiting : Waiting} (hw : w.Prompt)
    (h : ∀ g, Block.Guards blocks g → g.expr.Fits .allowed) :
    (evaluate waiting context blocks w).2.2.2.Prompt := by
  have hallowed : (evaluate .allowed context blocks w).2.2.2.Prompt := by
    obtain ⟨hok, herror⟩ := runProgram_prompt h hw
    simp only [evaluate]
    cases hrun : runProgram .allowed context (.compile blocks) w with
    | error failure v => exact (herror failure v hrun).2
    | ok entries v => exact hok entries v hrun
  cases waiting with
  | allowed => exact hallowed
  | forbidden =>
    by_cases himmediate : Program.Immediate blocks
    · rw [evaluate_forbidden context w himmediate]
      exact hallowed
    · rw [evaluate_refused context himmediate]
      exact hw

end Compilation

section

variable {source : Text} {blocks : List Block} (hparse : (Block.parse source).2 = .ok blocks)
  (waiting : Waiting) (context : Ref) (w : World)
include hparse

theorem compile_nil (h : blocks = []) :
    compile waiting context source w =
      ({ notes := .parsing source.length :: (Block.parse source).1, result := .ok source }, w) := by
  subst h
  simp only [compile, hparse]

/-- Compiling a script with blocks ends as evaluating its guards does. -/
theorem compile_cons (h : blocks ≠ []) :
    (compile waiting context source w).1.result =
      (match (Compilation.evaluate waiting context blocks w).2.2.1 with
      | some failure => .error (.eval failure)
      | none => .ok (Compilation.reconstruct source blocks
          (Compilation.evaluate waiting context blocks w).2.1).2) ∧
    (compile waiting context source w).1.marks =
      (Compilation.evaluate waiting context blocks w).2.1 ∧
    (compile waiting context source w).2 =
      (Compilation.evaluate waiting context blocks w).2.2.2 := by
  obtain ⟨b, bs, rfl⟩ := List.exists_cons_of_ne_nil h
  simp only [compile, hparse]
  generalize Compilation.evaluate waiting context (b :: bs) w = result
  obtain ⟨notes, marks, failure, v⟩ := result
  cases failure with
  | none => exact ⟨rfl, rfl, rfl⟩
  | some failure => exact ⟨rfl, rfl, rfl⟩

theorem compile_forbidden (h : Program.Immediate blocks) :
    (compile .forbidden context source w).1.result =
      (compile .allowed context source w).1.result ∧
    (compile .forbidden context source w).1.marks =
      (compile .allowed context source w).1.marks ∧
    (compile .forbidden context source w).2 = (compile .allowed context source w).2 := by
  by_cases hnil : blocks = []
  · rw [compile_nil hparse .forbidden context w hnil, compile_nil hparse .allowed context w hnil]
    exact ⟨rfl, rfl, rfl⟩
  · obtain ⟨hresult, hmarks, hworld⟩ := compile_cons hparse .forbidden context w hnil
    obtain ⟨hresult', hmarks', hworld'⟩ := compile_cons hparse .allowed context w hnil
    have hsame := Compilation.evaluate_forbidden context w h
    rw [hresult, hmarks, hworld, hresult', hmarks', hworld', hsame]
    exact ⟨rfl, rfl, rfl⟩

theorem compile_refused (h : ¬ Program.Immediate blocks) :
    compile .forbidden context source w =
      ({ notes := .parsing source.length :: (Block.parse source).1, blocks := blocks,
         result := .error (.eval .waits) }, w) := by
  cases blocks with
  | nil => exact absurd (by simp [Program.Immediate]) h
  | cons b bs =>
    simp only [compile, hparse, Compilation.evaluate_refused context h]
    rw [List.append_nil]

theorem compile_prompt (hw : w.Prompt) : (compile waiting context source w).2.Prompt := by
  by_cases hnil : blocks = []
  · rw [compile_nil hparse waiting context w hnil]
    exact hw
  · rw [(compile_cons hparse waiting context w hnil).2.2]
    exact Compilation.evaluate_world context hw fun g => Block.fits_of_parse hparse

end

end GuardedText
