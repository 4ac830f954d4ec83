import Mathlib.Data.List.Nodup
import GuardedText.Block.Program
import GuardedText.Proofs.Block.Shape

/-
  The program of some blocks. `Program.ofBlocks` makes it by recursion, body by body. Filling the
  table of plans from a stack leaves every list of blocks at its place, with its bodies at places
  further on (`PlanTable.stands_fill`), so the program read off the table is the same one
  (`Program.compile_eq`). A program suspends only if a guard of its blocks does.
-/

namespace GuardedText

/-! ## Programs by recursion -/

namespace Program

mutual

/-- The plans of some blocks. -/
def plansOf : List Block → List (Plan Program)
  | [] => []
  | b :: bs => planOf b.arms :: plansOf bs
termination_by bs => (Block.weightList bs, 0)
decreasing_by
  · have := Block.weight_eq b
    exact Prod.Lex.left _ _ (by rw [Block.weightList_cons]; omega)
  · have := Block.weight_eq b
    exact Prod.Lex.left _ _ (by rw [Block.weightList_cons]; omega)

/-- The plan of a block with some branches. -/
def planOf : List Arm → Plan Program
  | [] => ⟨[], none⟩
  | arm :: arms =>
    match arm.guard with
    | some guard =>
      ⟨⟨⟨arm.span, guard⟩, ofBody arm.body⟩ :: (planOf arms).trials, (planOf arms).otherwise⟩
    | none => ⟨(planOf arms).trials, ofBody arm.body⟩
termination_by arms => (Block.weightArms arms, arms.length)
decreasing_by
  all_goals
    simp_wf
    simp only [Prod.lex_def]
    omega

/-- The program of the body of a branch. -/
def ofBody : Option (List Block) → Option Program
  | none => none
  | some bs => some (.mk (plansOf bs))
termination_by body => (Block.weightBody body, 0)
decreasing_by
  exact Prod.Lex.left _ _ (by rw [Block.weightBody_some]; omega)

end

/-- The program of some blocks, body by body. -/
def ofBlocks (bs : List Block) : Program := .mk (plansOf bs)

@[simp] theorem plansOf_nil : plansOf [] = [] := by rw [plansOf]

@[simp] theorem plansOf_cons (b : Block) (bs : List Block) :
    plansOf (b :: bs) = planOf b.arms :: plansOf bs := by
  rw [plansOf]

@[simp] theorem ofBody_none : ofBody none = none := by rw [ofBody]

@[simp] theorem ofBody_some (bs : List Block) : ofBody (some bs) = some (ofBlocks bs) := by
  rw [ofBody, ofBlocks]

theorem planOf_nil : planOf [] = ⟨[], none⟩ := by rw [planOf]

theorem planOf_guarded {arm : Arm} {guard : Guard} (h : arm.guard = some guard) (arms : List Arm) :
    planOf (arm :: arms) = ⟨⟨⟨arm.span, guard⟩, ofBody arm.body⟩ :: (planOf arms).trials,
      (planOf arms).otherwise⟩ := by
  rw [planOf, h]

theorem planOf_unguarded {arm : Arm} (h : arm.guard = none) (arms : List Arm) :
    planOf (arm :: arms) = ⟨(planOf arms).trials, ofBody arm.body⟩ := by
  rw [planOf, h]

end Program

/-! ## The table of plans -/

namespace PlanTable

/-- Some blocks stand at a place of a table: their plans are there, and the bodies of their branches
    stand at the places from `first` on, which come later. -/
inductive Stands (table : PlanTable) : Nat → List Block → Prop where
  | mk {place first : Nat} {bs : List Block} : place < first →
      table[place]? = some (planBlocks first bs).1 →
      (∀ i body, (planBlocks first bs).2[i]? = some body → Stands table (first + i) body) →
      Stands table place bs

/-- The places that wait to be filled. -/
def places (work : List (List Block × Nat)) : List Nat := work.map Prod.snd

theorem places_zipIdx (bodies : List (List Block)) (first : Nat) :
    places (bodies.zipIdx first) = List.range' first bodies.length := by
  rw [places, List.zipIdx_map_snd]

/-- Filling a table puts the blocks that wait where they belong, each with its bodies, and leaves the
    other places as they are. -/
theorem stands_fill (work : List (List Block × Nat)) (table : PlanTable)
    (hbound : ∀ p ∈ places work, p < table.size) (hdistinct : (places work).Nodup) :
    (∀ item ∈ work, Stands (fill work table) item.2 item.1) ∧
      ∀ p < table.size, p ∉ places work → (fill work table)[p]? = table[p]? := by
  induction work, table using fill.induct with
  | case1 table => exact ⟨by simp, fun p hp _ => by rw [fill]⟩
  | case2 bs place work table planned ih =>
    -- The bodies take the free places from the size of the table on, so they are new.
    have hnew : places ((planned.2.zipIdx table.size).reverse ++ work) =
        (List.range' table.size planned.2.length).reverse ++ places work := by
      rw [places, List.map_append, List.map_reverse, ← places, places_zipIdx, places]
    have hplace : place < table.size := hbound place List.mem_cons_self
    have hwork : ∀ p ∈ places work, p < table.size := fun p hp =>
      hbound p (List.mem_cons_of_mem place hp)
    obtain ⟨hfresh, hrest⟩ := List.nodup_cons.1 hdistinct
    have hsize : (table.setIfInBounds place planned.1 ++
        Array.replicate planned.2.length []).size = table.size + planned.2.length := by
      simp
    obtain ⟨hstands, hframe⟩ := ih
      (by
        intro p hp
        rw [hnew, List.mem_append, List.mem_reverse, List.mem_range'_1] at hp
        rw [hsize]
        rcases hp with hp | hp
        · omega
        · have := hwork p hp
          omega)
      (by
        rw [hnew, List.nodup_append]
        refine ⟨List.nodup_reverse.2 (List.nodup_range' ..), hrest, ?_⟩
        rintro p hp q hq rfl
        rw [List.mem_reverse, List.mem_range'_1] at hp
        have := hwork p hq
        omega)
    have hold : ∀ p < table.size, p ∉ places work →
        (fill ((planned.2.zipIdx table.size).reverse ++ work)
          (table.setIfInBounds place planned.1 ++ Array.replicate planned.2.length []))[p]? =
        (table.setIfInBounds place planned.1)[p]? := by
      intro p hp hpw
      rw [hframe p (by rw [hsize]; omega), Array.getElem?_append_left (by simpa using hp)]
      rw [hnew, List.mem_append, List.mem_reverse, List.mem_range'_1]
      rintro (hin | hin)
      · omega
      · exact hpw hin
    rw [fill]
    refine ⟨?_, ?_⟩
    · intro item hitem
      rcases List.mem_cons.1 hitem with rfl | hitem
      · refine .mk hplace ?_ fun i body hbody => ?_
        · rw [hold place hplace hfresh, Array.getElem?_setIfInBounds_self_of_lt hplace]
        · refine hstands (body, table.size + i) ?_
          rw [List.mem_append, List.mem_reverse]
          exact Or.inl (List.mk_add_mem_zipIdx_iff_getElem?.2 hbody)
      · exact hstands item (List.mem_append_right _ hitem)
    · intro p hp hpw
      obtain ⟨hne, hpw⟩ := List.ne_and_not_mem_of_not_mem_cons hpw
      rw [hold p hp hpw, Array.getElem?_setIfInBounds_ne (Ne.symm hne)]

/-! ## Programs off the table -/

variable {at? : Nat → Option Program}

theorem link_placeBody {place : Nat} {body : Option (List Block)}
    (h : ∀ i bs, (placeBody place body).2[i]? = some bs → at? (place + i) = some (.ofBlocks bs)) :
    (placeBody place body).1.bind at? = Program.ofBody body := by
  cases body with
  | none => simp [placeBody]
  | some bs => simpa [placeBody] using h 0 bs rfl

/-- With the programs of its bodies in their places, the plan of a block is the one by recursion. -/
theorem link_planArms {arms : List Arm} : ∀ {place : Nat},
    (∀ i bs, (planArms place arms).2[i]? = some bs → at? (place + i) = some (.ofBlocks bs)) →
    (planArms place arms).1.link at? = Program.planOf arms := by
  induction arms with
  | nil => intro place _; simp [planArms, Plan.link, Program.planOf_nil]
  | cons arm arms ih =>
    intro place h
    simp only [planArms] at h ⊢
    have hbody := link_placeBody fun i bs hi => h i bs (by
      rw [List.getElem?_append_left (List.getElem?_eq_some_iff.1 hi).1]
      exact hi)
    have hrest := ih fun i bs hi => by
      have := h ((placeBody place arm.body).2.length + i) bs (by
        rw [List.getElem?_append_right (by omega), Nat.add_sub_cancel_left]
        exact hi)
      rwa [← Nat.add_assoc] at this
    cases hguard : arm.guard with
    | none =>
      rw [Program.planOf_unguarded hguard, ← hrest, ← hbody]
      rfl
    | some guard =>
      rw [Program.planOf_guarded hguard, ← hrest, ← hbody]
      rfl

theorem link_planBlocks {bs : List Block} : ∀ {place : Nat},
    (∀ i cs, (planBlocks place bs).2[i]? = some cs → at? (place + i) = some (.ofBlocks cs)) →
    (planBlocks place bs).1.map (Plan.link at?) = Program.plansOf bs := by
  induction bs with
  | nil => intro place _; simp [planBlocks]
  | cons b bs ih =>
    intro place h
    simp only [planBlocks] at h ⊢
    have hfirst := link_planArms fun i cs hi => h i cs (by
      rw [List.getElem?_append_left (List.getElem?_eq_some_iff.1 hi).1]
      exact hi)
    have hrest := ih fun i cs hi => by
      have := h ((planArms place b.arms).2.length + i) cs (by
        rw [List.getElem?_append_right (by omega), Nat.add_sub_cancel_left]
        exact hi)
      rwa [← Nat.add_assoc] at this
    rw [List.map_cons, hfirst, hrest, Program.plansOf_cons]

end PlanTable

namespace Program

theorem resolve_getElem? (table : List (List (Plan Nat))) : ∀ first i : Nat,
    (resolve first table)[i]? = (table[i]?).map fun plans =>
      .mk (plans.map (Plan.link fun place =>
        (resolve first table)[i + 1 + (place - (first + i + 1))]?)) := by
  induction table with
  | nil => intro first i; simp [resolve]
  | cons plans later ih =>
    intro first i
    cases i with
    | zero => simp [resolve, Nat.add_comm 1]
    | succ i =>
      simp only [resolve, List.getElem?_cons_succ]
      rw [ih (first + 1) i]
      simp only [List.getElem?_cons_succ, Nat.add_right_comm _ 1]
      rfl

/-- The program that is read off a table for blocks that stand in it. -/
theorem resolve_of_stands {table : PlanTable} {place : Nat} {bs : List Block}
    (h : table.Stands place bs) : (resolve 0 table.toList)[place]? = some (ofBlocks bs) := by
  induction h with
  | @mk place first bs hlater hplans hbodies ih =>
    rw [resolve_getElem?, Array.getElem?_toList, hplans, Option.map_some]
    refine congrArg some (congrArg Program.mk ?_)
    refine PlanTable.link_planBlocks fun i cs hi => ?_
    rw [← ih i cs hi]
    congr 1
    omega

theorem compile_eq (blocks : List Block) : compile blocks = ofBlocks blocks := by
  have hstands := (PlanTable.stands_fill [(blocks, 0)] #[[]] (by simp [PlanTable.places])
    (by simp [PlanTable.places])).1 (blocks, 0) (by simp)
  have hfirst := resolve_of_stands hstands
  rw [compile, List.headD_eq_head?_getD, List.head?_eq_getElem?, hfirst, Option.getD_some]

/-! ## Waiting -/

theorem mem_trials_planOf {arms : List Arm} {t : Trial Program} (h : t ∈ (planOf arms).trials) :
    ∃ arm ∈ arms, arm.guard = some t.test.guard ∧ t.inner = ofBody arm.body := by
  induction arms with
  | nil => simp [planOf_nil] at h
  | cons arm arms ih =>
    cases hguard : arm.guard with
    | none =>
      rw [planOf_unguarded hguard] at h
      obtain ⟨other, hother, hfacts⟩ := ih h
      exact ⟨other, List.mem_cons_of_mem arm hother, hfacts⟩
    | some guard =>
      rw [planOf_guarded hguard] at h
      rcases List.mem_cons.1 h with rfl | h
      · exact ⟨arm, List.mem_cons_self, hguard, rfl⟩
      · obtain ⟨other, hother, hfacts⟩ := ih h
        exact ⟨other, List.mem_cons_of_mem arm hother, hfacts⟩

theorem otherwise_planOf {arms : List Arm} {p : Program} (h : (planOf arms).otherwise = some p) :
    ∃ arm ∈ arms, ofBody arm.body = some p := by
  induction arms with
  | nil => simp [planOf_nil] at h
  | cons arm arms ih =>
    cases hguard : arm.guard with
    | none =>
      rw [planOf_unguarded hguard] at h
      exact ⟨arm, List.mem_cons_self, h⟩
    | some guard =>
      rw [planOf_guarded hguard] at h
      obtain ⟨other, hother, hbody⟩ := ih h
      exact ⟨other, List.mem_cons_of_mem arm hother, hbody⟩

theorem mem_plansOf {bs : List Block} {plan : Plan Program} (h : plan ∈ plansOf bs) :
    ∃ b ∈ bs, plan = planOf b.arms := by
  induction bs with
  | nil => simp at h
  | cons b bs ih =>
    rw [plansOf_cons] at h
    rcases List.mem_cons.1 h with rfl | h
    · exact ⟨b, List.mem_cons_self, rfl⟩
    · obtain ⟨c, hc, hplan⟩ := ih h
      exact ⟨c, List.mem_cons_of_mem b hc, hplan⟩

/-- No guard of some blocks, or of those in them, could wait. -/
def Immediate (bs : List Block) : Prop :=
  ∀ b ∈ Block.preorderList bs, ∀ arm ∈ b.arms, ∀ guard, arm.guard = some guard →
    guard.suspends = false

instance (bs : List Block) : Decidable (Immediate bs) :=
  decidable_of_iff (∀ b ∈ Block.preorderList bs, ∀ arm ∈ b.arms,
      (arm.guard.all fun guard => !guard.suspends) = true) <| by
    refine forall₂_congr fun b _ => forall₂_congr fun arm _ => ?_
    cases arm.guard <;> simp

theorem Immediate.arms {bs : List Block} (h : Immediate bs) {b : Block} (hb : b ∈ bs) {arm : Arm}
    (harm : arm ∈ b.arms) {guard : Guard} (hguard : arm.guard = some guard) :
    guard.suspends = false :=
  h b (Block.mem_preorderList.2 ⟨b, hb, b.mem_preorder_self⟩) arm harm guard hguard

theorem Immediate.body {bs cs : List Block} (h : Immediate bs) {b : Block} (hb : b ∈ bs) {arm : Arm}
    (harm : arm ∈ b.arms) (hbody : arm.body = some cs) : Immediate cs := by
  intro c hc
  refine h c (Block.mem_preorderList.2 ⟨b, hb, Block.mem_preorder.2 (Or.inr ?_)⟩)
  exact ⟨arm, harm, cs, hbody, hc⟩

theorem waits_ofBlocks {bs : List Block} (h : Immediate bs) : (ofBlocks bs).waits = false := by
  rw [waits, List.any_eq_false]
  intro plan hplan
  obtain ⟨b, hb, rfl⟩ := mem_plansOf hplan
  rw [Bool.not_eq_true, List.any_eq_false]
  intro t ht
  obtain ⟨arm, harm, hguard, -⟩ := mem_trials_planOf ht
  rw [Bool.not_eq_true]
  exact h.arms hb harm hguard

/-- The programs right inside the program of some blocks are those of bodies of their branches. -/
theorem mem_inners_ofBlocks {bs : List Block} {p : Program} (h : p ∈ (ofBlocks bs).inners) :
    ∃ b ∈ bs, ∃ arm ∈ b.arms, ∃ cs, arm.body = some cs ∧ p = ofBlocks cs := by
  obtain ⟨plan, hplan, hp⟩ := List.mem_flatMap.1 h
  obtain ⟨b, hb, rfl⟩ := mem_plansOf hplan
  obtain ⟨arm, harm, hbody⟩ : ∃ arm ∈ b.arms, ofBody arm.body = some p := by
    rcases List.mem_append.1 hp with hp | hp
    · obtain ⟨t, ht, hinner⟩ := List.mem_filterMap.1 hp
      obtain ⟨arm, harm, -, hbody⟩ := mem_trials_planOf ht
      exact ⟨arm, harm, hbody.symm.trans hinner⟩
    · exact otherwise_planOf (Option.mem_toList.1 hp)
  cases hcs : arm.body with
  | none => simp [hcs] at hbody
  | some cs =>
    rw [hcs, ofBody_some, Option.some.injEq] at hbody
    exact ⟨b, hb, arm, harm, cs, hcs, hbody.symm⟩

theorem anySuspends_ofBlocks (programs : List Program)
    (h : ∀ p ∈ programs, ∃ bs, p = ofBlocks bs ∧ Immediate bs) : anySuspends programs = false := by
  induction programs using anySuspends.induct with
  | case1 => rw [anySuspends]
  | case2 p pending ih =>
    obtain ⟨bs, rfl, hbs⟩ := h p List.mem_cons_self
    rw [anySuspends, waits_ofBlocks hbs, Bool.false_or]
    refine ih fun q hq => ?_
    rcases List.mem_append.1 hq with hq | hq
    · obtain ⟨b, hb, arm, harm, cs, hcs, rfl⟩ := mem_inners_ofBlocks (List.mem_reverse.1 hq)
      exact ⟨cs, rfl, hbs.body hb harm hcs⟩
    · exact h q (List.mem_cons_of_mem _ hq)

/-- A program suspends only if a guard of its blocks does. -/
theorem suspends_compile {blocks : List Block} (h : Immediate blocks) :
    (compile blocks).suspends = false := by
  rw [compile_eq, suspends]
  exact anySuspends_ofBlocks _ (by simpa using ⟨blocks, rfl, h⟩)

end Program

end GuardedText
