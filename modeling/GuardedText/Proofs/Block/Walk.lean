import GuardedText.Block.Run
import GuardedText.Proofs.Block.Program

/-
  Walking blocks. `Run.walk` evaluates the guards of some blocks by recursion, in document order, and
  tells of every block which branch it took, if it was reached. Running the program of the blocks
  on a stack of levels does the same to the world, stops at the same guard, and reports what the walk
  tells (`Run.program_of_error`, `Run.program_of_ok`).
-/

namespace GuardedText

/-! ## The walk -/

/-- Nothing is told of the blocks in some branches. -/
def unreached (arms : List Arm) : List (Option Int) :=
  (arms.flatMap fun arm => Block.preorderBody arm.body).map fun _ => none

theorem unreached_cons (arm : Arm) (arms : List Arm) :
    unreached (arm :: arms) = unreached [arm] ++ unreached arms := by
  rw [unreached, ← List.singleton_append, List.flatMap_append, List.map_append]
  rfl

namespace Run

variable (waiting : Waiting) (frame : Ref)

mutual

/-- Walks some blocks, one after the other. It tells which branch each block and each block in it
    took, in document order. -/
def walk : List Block → Run (List (Option Int))
  | [] => return []
  | b :: bs => do
    let (branch, inner) ← walkArms 0 b.arms
    let rest ← walk bs
    return some branch :: (inner ++ rest)
termination_by bs => (Block.weightList bs, 0)
decreasing_by
  all_goals
    have := Block.weight_eq b
    exact Prod.Lex.left _ _ (by rw [Block.weightList_cons]; omega)

/-- Evaluates the guards of some branches of a block, the first of which has the number `index`, up
    to the first that holds, and walks the blocks in the branch so chosen. -/
def walkArms (index : Int) : List Arm → Run (Int × List (Option Int))
  | [] => return (-1, [])
  | arm :: arms =>
    match arm.guard with
    | none => do
      let inner ← walkBody arm.body
      return (-1, inner ++ unreached arms)
    | some guard => do
      if ← holds waiting frame ⟨arm.span, guard⟩ then
        let inner ← walkBody arm.body
        return (index, inner ++ unreached arms)
      else
        let (branch, inner) ← walkArms (index + 1) arms
        return (branch, unreached [arm] ++ inner)
termination_by arms => (Block.weightArms arms, arms.length)
decreasing_by
  all_goals
    simp_wf
    simp only [Prod.lex_def]
    omega

/-- Walks the blocks in a branch. -/
def walkBody : Option (List Block) → Run (List (Option Int))
  | none => return []
  | some bs => walk bs
termination_by body => (Block.weightBody body, 0)
decreasing_by
  exact Prod.Lex.left _ _ (by rw [Block.weightBody_some]; omega)

end

end Run

/-! ## Branches by their tests -/

/-- A test and the body of its branch, as a branch. -/
def Arm.ofTest (t : Test × Option (List Block)) : Arm := ⟨t.1.span, some t.1.guard, t.2⟩

namespace Block

/-- The tests of a block, each with the body of its branch. -/
def tested (b : Block) : List (Test × Option (List Block)) :=
  (b.test, b.body) :: (b.alternatives.getD []).map fun branch => (branch.test, branch.body)

/-- The branch of the `#else`, if there is one. -/
def otherwise (b : Block) : List Arm := (b.fallback.map Fallback.arm).toList

theorem arms_eq (b : Block) : b.arms = b.tested.map Arm.ofTest ++ b.otherwise := by
  simp [arms, tested, otherwise, Arm.ofTest, Branch.arm, Function.comp_def]

theorem length_tested (b : Block) : b.tested.length = b.alternativeCount + 1 := by
  simp [tested, alternativeCount]

/-- Some tests, then perhaps an `#else`, of which a branch is taken: its number when the first test
    has the number `index`, the branches before it, its body and the branches after it. -/
inductive Picks (fallback : Option Fallback) : Int → List (Test × Option (List Block)) → Int →
    List Arm → Option (List Block) → List Arm → Prop where
  | otherwise (index : Int) : Picks fallback index [] (-1) [] (fallback.bind Fallback.body) []
  | here (index : Int) (t : Test × Option (List Block)) (ts : List (Test × Option (List Block))) :
      Picks fallback index (t :: ts) index [] t.2
        (ts.map Arm.ofTest ++ (fallback.map Fallback.arm).toList)
  | later {index k : Int} {ts : List (Test × Option (List Block))} {before after : List Arm}
      {body : Option (List Block)} (t : Test × Option (List Block)) :
      Picks fallback (index + 1) ts k before body after →
      Picks fallback index (t :: ts) k (Arm.ofTest t :: before) body after

namespace Picks

variable {fallback : Option Fallback} {index k : Int} {ts : List (Test × Option (List Block))}
  {before after : List Arm} {body : Option (List Block)}

/-- The number is that of a test, or it is -1. -/
theorem number (h : Picks fallback index ts k before body after) :
    (∃ i : Nat, k = index + i ∧ (ts[i]?).map Prod.snd = some body) ∨
      k = -1 ∧ body = fallback.bind Fallback.body := by
  induction h with
  | otherwise index => exact Or.inr ⟨rfl, rfl⟩
  | here index t ts => exact Or.inl ⟨0, by simp, rfl⟩
  | later t h ih =>
    rcases ih with ⟨i, hk, hbody⟩ | hlast
    · exact Or.inl ⟨i + 1, by rw [hk]; push_cast; omega, hbody⟩
    · exact Or.inr hlast

/-- The blocks in the branches are those before the branch, those in it and those after it. -/
theorem blocks (h : Picks fallback index ts k before body after) :
    ((ts.map Arm.ofTest ++ (fallback.map Fallback.arm).toList).flatMap fun arm =>
      preorderBody arm.body) =
    (before.flatMap fun arm => preorderBody arm.body) ++
      (preorderBody body ++ after.flatMap fun arm => preorderBody arm.body) := by
  induction h with
  | otherwise index => cases fallback <;> simp [Fallback.arm]
  | here index t ts => simp [Arm.ofTest]
  | later t h ih => simp_all

end Picks

/-- A block takes the branch with a number: the branches before it, its body and those after it. -/
def Takes (b : Block) (k : Int) (before : List Arm) (body : Option (List Block))
    (after : List Arm) : Prop :=
  Picks b.fallback 0 b.tested k before body after

namespace Takes

variable {b : Block} {k : Int} {before after : List Arm} {body : Option (List Block)}

theorem bounds (h : b.Takes k before body after) : -1 ≤ k ∧ k ≤ b.alternativeCount := by
  rcases h.number with ⟨i, rfl, hi⟩ | ⟨rfl, -⟩
  · obtain ⟨t, ht, -⟩ := Option.map_eq_some_iff.1 hi
    have := (List.getElem?_eq_some_iff.1 ht).1
    rw [length_tested] at this
    omega
  · omega

theorem bodyAt (h : b.Takes k before body after) : b.bodyAt k = body := by
  rcases h.number with ⟨i, rfl, hi⟩ | ⟨rfl, rfl⟩
  · obtain ⟨t, ht, rfl⟩ := Option.map_eq_some_iff.1 hi
    have harm : b.arms[i]? = some (Arm.ofTest t) := by
      have hlt := (List.getElem?_eq_some_iff.1 ht).1
      rw [arms_eq, List.getElem?_append_left (by simpa using hlt), List.getElem?_map, ht]
      rfl
    rw [Int.zero_add, Block.bodyAt]
    change (b.arms[i]?).bind Arm.body = t.2
    rw [harm]
    rfl
  · rw [Block.bodyAt]
    change (b.fallback.map Fallback.arm).bind Arm.body = _
    cases b.fallback <;> rfl

theorem blocks_arms (h : b.Takes k before body after) :
    (b.arms.flatMap fun arm => preorderBody arm.body) =
      (before.flatMap fun arm => preorderBody arm.body) ++
        (preorderBody body ++ after.flatMap fun arm => preorderBody arm.body) := by
  rw [arms_eq]
  exact h.blocks

end Takes

end Block

namespace Program

theorem planOf_tested (ts : List (Test × Option (List Block))) (fallback : Option Fallback) :
    planOf (ts.map Arm.ofTest ++ (fallback.map Fallback.arm).toList) =
      ⟨ts.map fun t => ⟨t.1, ofBody t.2⟩, ofBody (fallback.bind Fallback.body)⟩ := by
  induction ts with
  | nil =>
    cases fallback with
    | none => simp [planOf_nil]
    | some f =>
      have hguard : f.arm.guard = none := rfl
      rw [List.map_nil, List.nil_append, Option.map_some, Option.toList_some,
        planOf_unguarded hguard, planOf_nil]
      rfl
  | cons t ts ih =>
    have hguard : (Arm.ofTest t).guard = some t.1.guard := rfl
    rw [List.map_cons, List.cons_append, planOf_guarded hguard, ih]
    rfl

theorem trials_planOf (b : Block) :
    (planOf b.arms).trials = b.tested.map fun t => ⟨t.1, ofBody t.2⟩ := by
  rw [Block.arms_eq, Block.otherwise, planOf_tested]

/-- What the plan of a block runs in the branch that is taken is the program of its body. -/
theorem innerAt_planOf {b : Block} {k : Int} {before after : List Arm} {body : Option (List Block)}
    (h : b.Takes k before body after) : (planOf b.arms).innerAt k = ofBody body := by
  rw [Block.arms_eq, Block.otherwise, planOf_tested]
  rcases h.number with ⟨i, rfl, hi⟩ | ⟨rfl, rfl⟩
  · obtain ⟨t, ht, rfl⟩ := Option.map_eq_some_iff.1 hi
    rw [Int.zero_add]
    change (((b.tested.map fun t => ⟨t.1, ofBody t.2⟩)[i]?).bind Trial.inner) = _
    rw [List.getElem?_map, ht]
    rfl
  · rfl

end Program

/-! ## Running and walking -/

namespace Run

theorem bind_ok {α β : Type} {x : Run α} {f : α → Run β} {a : α} {w w' : World}
    (h : x w = .ok a w') : (x >>= f) w = f a w' := by
  change EStateM.bind x f w = _
  rw [EStateM.bind, h]

theorem bind_error {α β : Type} {x : Run α} {f : α → Run β} {e : GuardFailure} {w w' : World}
    (h : x w = .error e w') : (x >>= f) w = .error e w' := by
  change EStateM.bind x f w = _
  rw [EStateM.bind, h]

variable {waiting : Waiting} {frame : Ref}

theorem walkArms_ofTest (index : Int) (t : Test × Option (List Block)) (arms : List Arm) :
    walkArms waiting frame index (Arm.ofTest t :: arms) = (do
      if ← holds waiting frame t.1 then
        let inner ← walkBody waiting frame t.2
        return (index, inner ++ unreached arms)
      else
        let (branch, inner) ← walkArms waiting frame (index + 1) arms
        return (branch, unreached [Arm.ofTest t] ++ inner)) := by
  rw [walkArms]
  rfl

/-- What a walk tells of the branches of a block, of which only one is walked. -/
def told (k : Int) (before : List Arm) (after : List Arm) (inner : List (Option Int)) :
    Int × List (Option Int) :=
  (k, unreached before ++ (inner ++ unreached after))

theorem told_cons (k : Int) (arm : Arm) (before after : List Arm) (inner : List (Option Int)) :
    told k (arm :: before) after inner =
      (k, unreached [arm] ++ (told k before after inner).2) := by
  rw [told, unreached_cons, List.append_assoc]
  rfl

/-- The guards of some tests are evaluated as in a walk, which goes on with the branch chosen. -/
theorem walkArms_tested (fallback : Option Fallback) (ts : List (Test × Option (List Block))) :
    ∀ (index : Int) (w : World),
    (∃ e w', firstHolding waiting frame index (ts.map Prod.fst) w = .error e w' ∧
      walkArms waiting frame index (ts.map Arm.ofTest ++ (fallback.map Fallback.arm).toList) w =
        .error e w') ∨
    ∃ k before body after w', Block.Picks fallback index ts k before body after ∧
      firstHolding waiting frame index (ts.map Prod.fst) w = .ok k w' ∧
      walkArms waiting frame index (ts.map Arm.ofTest ++ (fallback.map Fallback.arm).toList) w =
        (walkBody waiting frame body >>= fun inner => pure (told k before after inner)) w' := by
  induction ts with
  | nil =>
    intro index w
    refine Or.inr ⟨-1, [], _, [], w, .otherwise index, rfl, ?_⟩
    cases fallback with
    | none =>
      rw [Option.bind_none, walkBody]
      simp only [List.map_nil, Option.map_none, Option.toList_none, List.nil_append, walkArms]
      rfl
    | some f =>
      simp only [List.map_nil, Option.map_some, Option.toList_some, List.nil_append, walkArms]
      rfl
  | cons t ts ih =>
    intro index w
    rw [List.map_cons, List.map_cons, List.cons_append, walkArms_ofTest, firstHolding]
    cases hholds : holds waiting frame t.1 w with
    | error e v => exact Or.inl ⟨e, v, bind_error hholds, bind_error hholds⟩
    | ok b v =>
      cases b with
      | true =>
        exact Or.inr ⟨index, [], t.2, _, v, .here index t ts, bind_ok hholds, bind_ok hholds⟩
      | false =>
        rcases ih (index + 1) v with ⟨e, u, hfirst, hwalk⟩ |
          ⟨k, before, body, after, u, hpicks, hfirst, hwalk⟩
        · exact Or.inl ⟨e, u, (bind_ok hholds).trans hfirst,
            (bind_ok hholds).trans (bind_error hwalk)⟩
        · refine Or.inr ⟨k, _, body, after, u, .later t hpicks, (bind_ok hholds).trans hfirst,
            (bind_ok hholds).trans ?_⟩
          cases hbody : walkBody waiting frame body u with
          | error e u' =>
            rw [bind_error hbody] at hwalk ⊢
            exact bind_error hwalk
          | ok inner u' =>
            rw [bind_ok hbody] at hwalk ⊢
            refine (bind_ok hwalk).trans ?_
            rw [told_cons]
            rfl

/-- A report on some blocks says what a walk tells. -/
inductive Fits : List Block → List Report → List (Option Int) → Prop where
  | nil : Fits [] [] []
  | leaf {b : Block} {bs : List Block} {k : Int} {before after : List Arm} {entries : List Report}
      {taken : List (Option Int)} : b.Takes k before none after → Fits bs entries taken →
      Fits (b :: bs) (.entry (.number (.int k)) .null :: entries)
        (some k :: ((told k before after []).2 ++ taken))
  | node {b : Block} {bs cs : List Block} {k : Int} {before after : List Arm}
      {entries nested : List Report} {taken inner : List (Option Int)} :
      b.Takes k before (some cs) after → Fits cs nested inner → Fits bs entries taken →
      Fits (b :: bs) (.entry (.number (.int k)) (.list nested) :: entries)
        (some k :: ((told k before after inner).2 ++ taken))

/-- The plan of a block chooses its branch as the walk does. -/
theorem select_walk (b : Block) (w : World) :
    (∃ e w', select waiting frame (Program.planOf b.arms) w = .error e w' ∧
      walkArms waiting frame 0 b.arms w = .error e w') ∨
    ∃ k before body after w', b.Takes k before body after ∧
      select waiting frame (Program.planOf b.arms) w = .ok k w' ∧
      walkArms waiting frame 0 b.arms w =
        (walkBody waiting frame body >>= fun inner => pure (told k before after inner)) w' := by
  have htests : (Program.planOf b.arms).trials.map Trial.test = b.tested.map Prod.fst := by
    rw [Program.trials_planOf, List.map_map]
    rfl
  rw [select, htests, Block.arms_eq]
  exact walkArms_tested b.fallback b.tested 0 w

/-- Running the plans of some blocks on a stack is walking the blocks and then going on. -/
def Follows (waiting : Waiting) (frame : Ref) (bs : List Block) (w : World) : Prop :=
  match walk waiting frame bs w with
  | .error e w' => ∀ done outer,
      levels waiting frame ⟨Program.plansOf bs, done⟩ outer w = .error e w'
  | .ok taken w' => ∃ entries, Fits bs entries taken ∧ ∀ done outer,
      levels waiting frame ⟨Program.plansOf bs, done⟩ outer w =
        levels waiting frame ⟨[], entries.reverse ++ done⟩ outer w'

theorem levels_leaf {b : Block} {bs : List Block} {w w' : World} {k : Int}
    {before after : List Arm} (h : select waiting frame (Program.planOf b.arms) w = .ok k w')
    (htakes : b.Takes k before none after) (done : List Report) (outer : List (Int × Level)) :
    levels waiting frame ⟨Program.plansOf (b :: bs), done⟩ outer w =
      levels waiting frame
        ⟨Program.plansOf bs, .entry (.number (.int k)) .null :: done⟩ outer w' := by
  have hinner := Program.innerAt_planOf htakes
  rw [Program.ofBody_none] at hinner
  rw [Program.plansOf_cons, levels, bind_ok h]
  refine congrFun ?_ w'
  split
  · rfl
  · simp_all

theorem levels_node {b : Block} {bs cs : List Block} {w w' : World} {k : Int}
    {before after : List Arm} (h : select waiting frame (Program.planOf b.arms) w = .ok k w')
    (htakes : b.Takes k before (some cs) after) (done : List Report)
    (outer : List (Int × Level)) :
    levels waiting frame ⟨Program.plansOf (b :: bs), done⟩ outer w =
      levels waiting frame ⟨Program.plansOf cs, []⟩ ((k, ⟨Program.plansOf bs, done⟩) :: outer)
        w' := by
  have hinner := Program.innerAt_planOf htakes
  rw [Program.ofBody_some] at hinner
  rw [Program.plansOf_cons, levels, bind_ok h]
  refine congrFun ?_ w'
  split
  · simp_all
  · rename_i p hp
    rw [hinner, Option.some.injEq] at hp
    rw [← hp]
    rfl

/-- A walk that is through with the first block goes on with the others. -/
theorem Follows.cons {b : Block} {bs : List Block} {w v : World} {k : Int}
    {inner : List (Option Int)} {entry : Report} (hrest : Follows waiting frame bs v)
    (hwalk : walkArms waiting frame 0 b.arms w = .ok (k, inner) v)
    (hfits : ∀ entries taken, Fits bs entries taken →
      Fits (b :: bs) (entry :: entries) (some k :: (inner ++ taken)))
    (hlevels : ∀ done outer, levels waiting frame ⟨Program.plansOf (b :: bs), done⟩ outer w =
      levels waiting frame ⟨Program.plansOf bs, entry :: done⟩ outer v) :
    Follows waiting frame (b :: bs) w := by
  have hcons : walk waiting frame (b :: bs) w =
      (walk waiting frame bs >>= fun rest => pure (some k :: (inner ++ rest))) v := by
    rw [walk]
    exact bind_ok hwalk
  rw [Follows] at hrest ⊢
  rw [hcons]
  cases hbs : walk waiting frame bs v with
  | error e u =>
    rw [hbs] at hrest
    rw [bind_error hbs]
    exact fun done outer => (hlevels done outer).trans (hrest _ outer)
  | ok taken u =>
    rw [hbs] at hrest
    obtain ⟨entries, hentries, hrun⟩ := hrest
    rw [bind_ok hbs]
    refine ⟨_, hfits entries taken hentries, fun done outer => ?_⟩
    rw [hlevels, hrun, List.reverse_cons, List.append_assoc]
    rfl

/-- A walk that stops in the first block stops. -/
theorem Follows.stop {b : Block} {bs : List Block} {w v : World} {e : GuardFailure}
    (hwalk : walkArms waiting frame 0 b.arms w = .error e v)
    (hlevels : ∀ done outer,
      levels waiting frame ⟨Program.plansOf (b :: bs), done⟩ outer w = .error e v) :
    Follows waiting frame (b :: bs) w := by
  have herror : walk waiting frame (b :: bs) w = .error e v := by
    rw [walk]
    exact bind_error hwalk
  rw [Follows, herror]
  exact hlevels

/-- Running a block and then those after it follows the walk if running the blocks in its branches
    and running those after it do. -/
theorem follows_cons {b : Block} {bs : List Block} {w : World}
    (hbody : ∀ k cs, b.bodyAt k = some cs → ∀ v, Follows waiting frame cs v)
    (hrest : ∀ v, Follows waiting frame bs v) : Follows waiting frame (b :: bs) w := by
  rcases select_walk b w with ⟨e, v, hselect, hwalk⟩ |
    ⟨k, before, body, after, v, htakes, hselect, hwalk⟩
  · refine .stop hwalk fun done outer => ?_
    rw [Program.plansOf_cons, levels]
    exact bind_error hselect
  · cases body with
    | none =>
      rw [walkBody] at hwalk
      exact (hrest v).cons hwalk (fun entries taken => .leaf htakes) (levels_leaf hselect htakes)
    | some cs =>
      rw [walkBody] at hwalk
      have hcs := hbody k cs htakes.bodyAt v
      rw [Follows] at hcs
      cases hinner : walk waiting frame cs v with
      | error e u =>
        rw [hinner] at hcs
        rw [bind_error hinner] at hwalk
        exact .stop hwalk fun done outer => (levels_node hselect htakes done outer).trans (hcs _ _)
      | ok inner u =>
        rw [hinner] at hcs
        obtain ⟨nested, hnested, hrun⟩ := hcs
        rw [bind_ok hinner] at hwalk
        refine (hrest u).cons hwalk (fun entries taken => .node htakes hnested)
          fun done outer => ?_
        rw [levels_node hselect htakes, hrun, List.append_nil, levels, List.reverse_reverse]

variable (waiting frame) in
/-- Running blocks follows the walk. -/
theorem follows (bs : List Block) (w : World) : Follows waiting frame bs w := by
  induction bs using Block.forest_induction generalizing w with
  | nil =>
    rw [Follows, walk]
    exact ⟨[], .nil, fun done outer => by rw [Program.plansOf_nil]; rfl⟩
  | cons b bs hbodies hrest =>
    refine follows_cons (fun k cs hcs v => ?_) hrest
    obtain ⟨arm, harm, hbody⟩ := Option.bind_eq_some_iff.1 hcs
    exact hbodies arm (Block.mem_arms_of_armAt harm) cs hbody v

/-- Running the program of some blocks stops where the walk stops. -/
theorem program_of_error {bs : List Block} {w w' : World} {e : GuardFailure}
    (h : walk waiting frame bs w = .error e w') :
    program waiting frame (.compile bs) w = .error e w' := by
  have hfollows := follows waiting frame bs w
  rw [Follows, h] at hfollows
  rw [Program.compile_eq, program]
  exact hfollows [] []

/-- Running the program of some blocks to its end reports what the walk tells. -/
theorem program_of_ok {bs : List Block} {w w' : World} {taken : List (Option Int)}
    (h : walk waiting frame bs w = .ok taken w') :
    ∃ entries, Fits bs entries taken ∧ program waiting frame (.compile bs) w = .ok entries w' := by
  have hfollows := follows waiting frame bs w
  rw [Follows, h] at hfollows
  obtain ⟨entries, hfits, hlevels⟩ := hfollows
  refine ⟨entries, hfits, ?_⟩
  rw [Program.compile_eq, program]
  refine (hlevels [] []).trans ?_
  rw [List.append_nil, levels, List.reverse_reverse]
  rfl

end Run

end GuardedText
