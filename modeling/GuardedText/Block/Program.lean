import GuardedText.Block.Body

/-
  Programs: what is run for some blocks. A program has a plan for each block, with the tests of the
  block in order and, for each branch, the program of the blocks in it. Programs are made without
  recursion: lists of blocks wait on a stack, each with the place in a table that its plans will
  take, and a body found on the way is given the next free place. `Program.compile` then reads the
  program off the table.
-/

namespace GuardedText

/-- A test, and what is run in its branch if there is anything. -/
structure Trial (α : Type) where
  /-- The test. -/
  test : Test
  /-- What is run in the branch. -/
  inner : Option α

/-- What is run for a block. -/
structure Plan (α : Type) where
  /-- The tests in order. -/
  trials : List (Trial α)
  /-- What is run when no test holds. -/
  otherwise : Option α

/-- What is run for some blocks. -/
inductive Program where
  | mk (plans : List (Plan Program))

/-- Plans under construction; what is run in a branch is known by its place in the table. -/
abbrev PlanTable := Array (List (Plan Nat))

namespace PlanTable

/-- The place of a body, and the body itself if there is one. -/
def placeBody (place : Nat) : Option (List Block) → Option Nat × List (List Block)
  | none => (none, [])
  | some blocks => (some place, [blocks])

/-- The plan of a block with some branches, and their bodies, which take the places from `place`
on. -/
def planArms (place : Nat) : List Arm → Plan Nat × List (List Block)
  | [] => (⟨[], none⟩, [])
  | arm :: arms =>
    let (inner, first) := placeBody place arm.body
    let (plan, rest) := planArms (place + first.length) arms
    (match arm.guard with
     | some guard => ⟨⟨⟨arm.span, guard⟩, inner⟩ :: plan.trials, plan.otherwise⟩
     | none => ⟨plan.trials, inner⟩,
     first ++ rest)

/-- The plans of some blocks, and the bodies of their branches, which take the places from `place`
on. -/
def planBlocks (place : Nat) : List Block → List (Plan Nat) × List (List Block)
  | [] => ([], [])
  | b :: bs =>
    let (plan, first) := planArms place b.arms
    let (plans, rest) := planBlocks (place + first.length) bs
    (plan :: plans, first ++ rest)

/-- How much there is to plan. -/
def pending (work : List (List Block × Nat)) : Nat := Block.weightBodies (work.map Prod.fst)

theorem weight_planArms (place : Nat) (arms : List Arm) :
    Block.weightBodies (planArms place arms).2 = Block.weightArms arms := by
  induction arms generalizing place with
  | nil => rfl
  | cons arm arms ih =>
    cases hb : arm.body <;> simp [planArms, placeBody, hb, ih]

theorem weight_planBlocks (place : Nat) (bs : List Block) :
    Block.weightBodies (planBlocks place bs).2 ≤ Block.weightList bs := by
  induction bs generalizing place with
  | nil => simp [planBlocks]
  | cons b bs ih =>
    have := ih (place + (planArms place b.arms).2.length)
    simp only [planBlocks, Block.weightBodies_append, weight_planArms, Block.weightList_cons,
      Block.weight_eq]
    omega

/-- Plans the lists of blocks that wait, the first one first. -/
def fill : List (List Block × Nat) → PlanTable → PlanTable
  | [], table => table
  | (bs, place) :: work, table =>
    let planned := planBlocks table.size bs
    fill ((planned.2.zipIdx table.size).reverse ++ work)
      (table.setIfInBounds place planned.1 ++ Array.replicate planned.2.length [])
termination_by work => pending work
decreasing_by
  have := weight_planBlocks table.size bs
  simp only [pending, List.map_append, Block.weightBodies_append, List.map_reverse,
    Block.weightBodies_reverse, List.zipIdx_map_fst, List.map_cons, Block.weightBodies_cons]
  omega

end PlanTable

/-- A plan in which places are replaced by the programs that stand there. -/
def Plan.link (at? : Nat → Option Program) (plan : Plan Nat) : Plan Program :=
  ⟨plan.trials.map fun trial => ⟨trial.test, trial.inner.bind at?⟩, plan.otherwise.bind at?⟩

/-- The program of the branch with a number as in `Choices`. -/
def Plan.innerAt (plan : Plan Program) : Int → Option Program
  | .ofNat k => (plan.trials[k]?).bind Trial.inner
  | .negSucc _ => plan.otherwise

theorem Plan.sizeOf_innerAt {plan : Plan Program} {branch : Int} {program : Program}
    (h : plan.innerAt branch = some program) : sizeOf program < sizeOf plan := by
  obtain ⟨trials, otherwise⟩ := plan
  match branch with
  | .ofNat k =>
    obtain ⟨⟨test, inner⟩, htrial, hinner⟩ := Option.bind_eq_some_iff.1 h
    have := List.sizeOf_lt_of_mem (List.mem_of_getElem? htrial)
    subst hinner
    simp only [Plan.mk.sizeOf_spec, Trial.mk.sizeOf_spec, Option.some.sizeOf_spec] at this ⊢
    omega
  | .negSucc _ =>
    simp only [innerAt] at h
    subst h
    simp only [Plan.mk.sizeOf_spec, Option.some.sizeOf_spec]
    omega

namespace Program

/-- The plans of a program. -/
def plans : Program → List (Plan Program)
  | .mk plans => plans

/-- The programs that stand in a table from `first` on. The places in a plan come after its own. -/
def resolve (first : Nat) : List (List (Plan Nat)) → List Program
  | [] => []
  | plans :: later =>
    let programs := resolve (first + 1) later
    .mk (plans.map (Plan.link fun place => programs[place - (first + 1)]?)) :: programs

/-- The program of some blocks. -/
def compile (blocks : List Block) : Program :=
  (resolve 0 (PlanTable.fill [(blocks, 0)] #[[]]).toList).headD (.mk [])

/-- Whether a test of a program, not of those inside it, could wait. -/
def waits (program : Program) : Bool :=
  program.plans.any fun plan => plan.trials.any fun trial => trial.test.guard.suspends

/-- The programs inside a plan. -/
def planInners (plan : Plan Program) : List Program :=
  plan.trials.filterMap Trial.inner ++ plan.otherwise.toList

/-- The programs right inside a program. -/
def inners (program : Program) : List Program := program.plans.flatMap planInners

/-- How large some programs are. -/
noncomputable def load : List Program → Nat
  | [] => 0
  | p :: ps => sizeOf p + 1 + load ps

theorem load_append (ps qs : List Program) : load (ps ++ qs) = load ps + load qs := by
  induction ps with
  | nil => simp [load]
  | cons p ps ih => simp [load, ih, Nat.add_assoc]

theorem load_reverse (ps : List Program) : load ps.reverse = load ps := by
  induction ps with
  | nil => rfl
  | cons p ps ih => simp [load, load_append, ih, Nat.add_comm]

theorem load_trials (trials : List (Trial Program)) :
    load (trials.filterMap Trial.inner) ≤ sizeOf trials := by
  induction trials with
  | nil => simp [load]
  | cons trial trials ih =>
    obtain ⟨test, inner⟩ := trial
    cases inner <;> simp_all [load] <;> omega

theorem load_plans (plans : List (Plan Program)) :
    load (plans.flatMap planInners) ≤ sizeOf plans := by
  induction plans with
  | nil => simp [load]
  | cons plan plans ih =>
    obtain ⟨trials, otherwise⟩ := plan
    have := load_trials trials
    rw [List.flatMap_cons, load_append, planInners, load_append]
    cases otherwise <;> simp_all [load] <;> omega

theorem load_inners (program : Program) : load program.inners < sizeOf program := by
  obtain ⟨plans⟩ := program
  have := load_plans plans
  simp only [inners, Program.plans, mk.sizeOf_spec]
  omega

/-- Whether a test of some programs, or of those inside them, could wait. -/
def anySuspends : List Program → Bool
  | [] => false
  | program :: pending => program.waits || anySuspends (program.inners.reverse ++ pending)
termination_by programs => load programs
decreasing_by
  have := load_inners program
  rw [load_append, load_reverse, load]
  omega

/-- Whether a test of a program could wait. -/
def suspends (program : Program) : Bool := anySuspends [program]

end Program

end GuardedText
