import GuardedText.Proofs.Block.Spelling
import GuardedText.Proofs.Block.Walk

/-
  The guards of some blocks, of those nested in them too (`Block.Guards`). Each of them was compiled
  from a text (`Block.compiled_of_parse`). They are the guards of the program of the blocks
  (`Program.every_ofBlocks`, `Program.Every.guards`), so a program suspends just when one of them
  does (`Program.suspends_iff`).
-/

namespace GuardedText

namespace Block

/-- A guard of some blocks or of those in them. -/
def Guards (bs : List Block) (g : Guard) : Prop :=
  ∃ b ∈ preorderList bs, ∃ arm ∈ b.arms, arm.guard = some g

theorem Guards.here {bs : List Block} {b : Block} (hb : b ∈ bs) {arm : Arm} (harm : arm ∈ b.arms)
    {g : Guard} (hg : arm.guard = some g) : Guards bs g :=
  ⟨b, mem_preorderList.2 ⟨b, hb, b.mem_preorder_self⟩, arm, harm, hg⟩

theorem Guards.inside {bs cs : List Block} {b : Block} (hb : b ∈ bs) {arm : Arm}
    (harm : arm ∈ b.arms) (hbody : arm.body = some cs) {g : Guard} (hg : Guards cs g) :
    Guards bs g := by
  obtain ⟨c, hc, hguard⟩ := hg
  exact ⟨c, mem_preorderList.2 ⟨b, hb, mem_preorder.2 (Or.inr ⟨arm, harm, cs, hbody, hc⟩)⟩, hguard⟩

/-- A guard of some blocks is that of a branch of one of them, or one in the body of a branch. -/
theorem Guards.cases {bs : List Block} {g : Guard} (h : Guards bs g) :
    ∃ b ∈ bs, ∃ arm ∈ b.arms, arm.guard = some g ∨ ∃ cs, arm.body = some cs ∧ Guards cs g := by
  obtain ⟨c, hc, arm, harm, hg⟩ := h
  obtain ⟨b, hb, hcb⟩ := mem_preorderList.1 hc
  rcases mem_preorder.1 hcb with rfl | ⟨outer, houter, cs, hcs, hc⟩
  · exact ⟨c, hb, arm, harm, Or.inl hg⟩
  · exact ⟨b, hb, outer, houter, Or.inr ⟨cs, hcs, c, hc, arm, harm, hg⟩⟩

/-- To show something of all lists of blocks, show it of a list from the bodies of the branches of
    its blocks. -/
theorem list_induction {P : List Block → Prop}
    (step : ∀ bs : List Block,
      (∀ b ∈ bs, ∀ arm ∈ b.arms, ∀ cs, arm.body = some cs → P cs) → P bs)
    (bs : List Block) : P bs := by
  refine step bs fun b hb => ?_
  clear hb
  induction b using arm_induction with
  | step b ih => exact fun arm harm cs hcs => step cs (ih arm harm cs hcs)

/-! ## Where guards come from -/

/-- The guard of a directive is among the directives of the blocks. -/
theorem guards_mem_pieces (bs : List Block) {g : Guard} (h : Guards bs g) :
    some g ∈ (piecesList bs).map Piece.guard := by
  induction bs using forest_induction with
  | nil =>
    obtain ⟨b, hb, -⟩ := h.cases
    cases hb
  | cons b bs hbodies hrest =>
    obtain ⟨c, hc, arm, harm, hg⟩ := h.cases
    rw [piecesList_cons, List.map_append, List.mem_append]
    rcases List.mem_cons.1 hc with rfl | hc
    · refine Or.inl ?_
      have harmed : some g ∈ (armPieces arm).map Prod.snd := by
        rw [armPieces, List.map_cons, List.mem_cons]
        rcases hg with hg | ⟨cs, hcs, hg⟩
        · exact Or.inl hg.symm
        · refine Or.inr ?_
          have := hbodies arm harm cs hcs hg
          rw [hcs, piecesBody_some, List.map_map]
          exact this
      have hall := congrArg (List.map Prod.snd) (pieces_eq c)
      rw [List.map_map, List.map_append] at hall
      change c.pieces.map Piece.guard = _ at hall
      rw [hall, List.mem_append, List.map_flatMap]
      exact Or.inl (List.mem_flatMap.2 ⟨arm, harm, harmed⟩)
    · refine Or.inr (hrest ?_)
      rcases hg with hg | ⟨cs, hcs, hg⟩
      · exact .here hc harm hg
      · exact .inside hc harm hcs hg

/-- Every guard of a script was compiled from a text. -/
theorem compiled_of_parse {source : Text} {blocks : List Block}
    (h : (parse source).2 = .ok blocks) {g : Guard} (hg : Guards blocks g) :
    ∃ text, Guard.compile text = .ok g := by
  have hmem := guards_mem_pieces blocks hg
  rw [(spelled_of_ofDirectives h).1, List.map_map] at hmem
  obtain ⟨d, -, hd⟩ := List.mem_map.1 hmem
  change (if d.tag.takesGuard then (Guard.compile d.payload).toOption else none) = some g at hd
  split at hd
  · refine ⟨d.payload, ?_⟩
    cases hcompile : Guard.compile d.payload with
    | error e =>
      rw [hcompile] at hd
      cases hd
    | ok g' =>
      rw [hcompile] at hd
      cases hd
      rfl
  · cases hd

end Block

/-! ## Guards of programs -/

namespace Program

/-- Every guard of a program, and of those inside it, has a property. -/
inductive Every (P : Guard → Prop) : Program → Prop where
  | intro {p : Program} : (∀ plan ∈ p.plans, ∀ trial ∈ plan.trials, P trial.test.guard) →
      (∀ q ∈ p.inners, Every P q) → Every P p

variable {P : Guard → Prop}

theorem Every.trial {p : Program} (h : Every P p) {plan : Plan Program} (hplan : plan ∈ p.plans)
    {trial : Trial Program} (htrial : trial ∈ plan.trials) : P trial.test.guard := by
  obtain ⟨htrials, -⟩ := h
  exact htrials plan hplan trial htrial

theorem Every.inner {p q : Program} (h : Every P p) (hq : q ∈ p.inners) : Every P q := by
  obtain ⟨-, hinners⟩ := h
  exact hinners q hq

/-- The guards of a program of some blocks are guards of the blocks. -/
theorem every_ofBlocks (bs : List Block) (h : ∀ g, Block.Guards bs g → P g) :
    Every P (ofBlocks bs) := by
  induction bs using Block.list_induction with
  | step bs ih =>
    refine ⟨fun plan hplan trial htrial => ?_, fun q hq => ?_⟩
    · obtain ⟨b, hb, rfl⟩ := mem_plansOf hplan
      obtain ⟨arm, harm, hguard, -⟩ := mem_trials_planOf htrial
      exact h _ (.here hb harm hguard)
    · obtain ⟨b, hb, arm, harm, cs, hcs, rfl⟩ := mem_inners_ofBlocks hq
      exact ih b hb arm harm cs hcs fun g hg => h g (.inside hb harm hcs hg)

theorem mem_plansOf_of_mem {bs : List Block} {b : Block} (hb : b ∈ bs) :
    planOf b.arms ∈ plansOf bs := by
  induction bs with
  | nil => cases hb
  | cons c bs ih =>
    rw [plansOf_cons]
    rcases List.mem_cons.1 hb with rfl | hb
    · exact List.mem_cons_self
    · exact List.mem_cons_of_mem _ (ih hb)

/-- The program of the body of a branch is inside the plan of the block. -/
theorem mem_planInners {b : Block} {arm : Arm} (harm : arm ∈ b.arms) {cs : List Block}
    (hbody : arm.body = some cs) : ofBlocks cs ∈ planInners (planOf b.arms) := by
  rw [Block.arms_eq, Block.otherwise] at harm ⊢
  rw [planOf_tested, planInners]
  rcases List.mem_append.1 harm with harm | harm
  · obtain ⟨t, ht, rfl⟩ := List.mem_map.1 harm
    refine List.mem_append_left _ (List.mem_filterMap.2 ⟨_, List.mem_map.2 ⟨t, ht, rfl⟩, ?_⟩)
    change ofBody t.2 = _
    rw [show t.2 = some cs from hbody, ofBody_some]
  · obtain ⟨f, hf, rfl⟩ := Option.map_eq_some_iff.1 (Option.mem_toList.1 harm)
    refine List.mem_append_right _ (Option.mem_toList.2 ?_)
    change ofBody (b.fallback.bind Fallback.body) = _
    rw [hf, Option.bind_some, show f.body = some cs from hbody, ofBody_some]

/-- The test of a branch is a trial of the plan of the block. -/
theorem exists_trial {b : Block} {arm : Arm} (harm : arm ∈ b.arms) {g : Guard}
    (hg : arm.guard = some g) : ∃ trial ∈ (planOf b.arms).trials, trial.test.guard = g := by
  rw [Block.arms_eq] at harm
  rw [trials_planOf]
  rcases List.mem_append.1 harm with harm | harm
  · obtain ⟨t, ht, rfl⟩ := List.mem_map.1 harm
    exact ⟨_, List.mem_map.2 ⟨t, ht, rfl⟩, Option.some.inj hg⟩
  · obtain ⟨f, -, rfl⟩ := Option.map_eq_some_iff.1 (Option.mem_toList.1 harm)
    cases hg

/-- The guards of some blocks are guards of their program. -/
theorem Every.guards (bs : List Block) (h : Every P (ofBlocks bs)) {g : Guard}
    (hg : Block.Guards bs g) : P g := by
  induction bs using Block.list_induction with
  | step bs ih =>
    obtain ⟨b, hb, arm, harm, hguard | ⟨cs, hcs, hinside⟩⟩ := hg.cases
    · obtain ⟨trial, htrial, rfl⟩ := exists_trial harm hguard
      exact h.trial (mem_plansOf_of_mem hb) htrial
    · refine ih b hb arm harm cs hcs (h.inner ?_) hinside
      exact List.mem_flatMap.2 ⟨_, mem_plansOf_of_mem hb, mem_planInners harm hcs⟩

/-! ## Waiting -/

theorem waits_eq_false {p : Program} : p.waits = false ↔
    ∀ plan ∈ p.plans, ∀ trial ∈ plan.trials, trial.test.guard.suspends = false := by
  simp [waits]

theorem anySuspends_eq_false (programs : List Program) :
    anySuspends programs = false ↔
      ∀ p ∈ programs, Every (fun g => g.suspends = false) p := by
  induction programs using anySuspends.induct with
  | case1 => simp [anySuspends]
  | case2 p pending ih =>
    rw [anySuspends, Bool.or_eq_false_iff, ih, waits_eq_false]
    constructor
    · rintro ⟨htrials, hrest⟩ q hq
      rcases List.mem_cons.1 hq with rfl | hq
      · exact ⟨htrials, fun r hr => hrest r (List.mem_append_left _ (List.mem_reverse.2 hr))⟩
      · exact hrest q (List.mem_append_right _ hq)
    · intro hall
      have hp := hall p List.mem_cons_self
      refine ⟨fun plan hplan trial htrial => hp.trial hplan htrial, fun q hq => ?_⟩
      rcases List.mem_append.1 hq with hq | hq
      · exact hp.inner (List.mem_reverse.1 hq)
      · exact hall q (List.mem_cons_of_mem _ hq)

/-- A program suspends just when a guard of its blocks, or of those in them, does. -/
theorem suspends_iff (blocks : List Block) :
    (compile blocks).suspends = true ↔ ¬ Immediate blocks := by
  rw [← Bool.not_eq_false, not_iff_not, compile_eq, suspends, anySuspends_eq_false]
  constructor
  · intro h b hb arm harm g hg
    exact (h _ List.mem_cons_self).guards blocks ⟨b, hb, arm, harm, hg⟩
  · intro h p hp
    rw [List.mem_singleton.1 hp]
    refine every_ofBlocks blocks ?_
    rintro g ⟨b, hb, arm, harm, hg⟩
    exact h b hb arm harm g hg

end Program

end GuardedText
