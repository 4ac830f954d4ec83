import GuardedText.Block.Basic

/-
  How much there is in a block. The weight of a block counts the blocks in it and the branches that
  hold some, so the bodies of its branches weigh less than it does and going down into branches
  comes to an end.
-/

namespace GuardedText.Block

mutual

/-- The weight of a block. -/
def weight : Block → Nat
  | .mk _ body alternatives fallback _ _ =>
    weightBody body + (weightAlternatives alternatives + weightFallback fallback) + 1

/-- The weight of the blocks in a branch. -/
def weightBody : Option (List Block) → Nat
  | none => 0
  | some blocks => weightList blocks + 1

/-- The weight of some blocks. -/
def weightList : List Block → Nat
  | [] => 0
  | b :: bs => weight b + weightList bs

/-- The weight of the `#elseif` branches of a block. -/
def weightAlternatives : Option (List Branch) → Nat
  | none => 0
  | some branches => weightBranches branches

/-- The weight of some branches. -/
def weightBranches : List Branch → Nat
  | [] => 0
  | .mk _ body :: branches => weightBody body + weightBranches branches

/-- The weight of an `#else` branch. -/
def weightFallback : Option Fallback → Nat
  | none => 0
  | some (.mk _ body) => weightBody body

end

@[simp] theorem weightList_nil : weightList [] = 0 := by simp [weightList]

@[simp] theorem weightList_cons (b : Block) (bs : List Block) :
    weightList (b :: bs) = b.weight + weightList bs := by
  simp [weightList]

@[simp] theorem weightBody_none : weightBody none = 0 := by simp [weightBody]

@[simp] theorem weightBody_some (bs : List Block) : weightBody (some bs) = weightList bs + 1 := by
  simp [weightBody]

/-- The weight of the bodies of some branches. -/
def weightArms : List Arm → Nat
  | [] => 0
  | arm :: arms => weightBody arm.body + weightArms arms

@[simp] theorem weightArms_nil : weightArms [] = 0 := rfl

@[simp] theorem weightArms_cons (arm : Arm) (arms : List Arm) :
    weightArms (arm :: arms) = weightBody arm.body + weightArms arms := rfl

theorem weightArms_append (arms arms' : List Arm) :
    weightArms (arms ++ arms') = weightArms arms + weightArms arms' := by
  induction arms with
  | nil => simp
  | cons arm arms ih => simp [ih, Nat.add_assoc]

/-- The weight of some lists of blocks; every list counts, an empty one too. -/
def weightBodies : List (List Block) → Nat
  | [] => 0
  | bs :: bodies => weightList bs + 1 + weightBodies bodies

@[simp] theorem weightBodies_nil : weightBodies [] = 0 := rfl

@[simp] theorem weightBodies_cons (bs : List Block) (bodies : List (List Block)) :
    weightBodies (bs :: bodies) = weightList bs + 1 + weightBodies bodies := rfl

theorem weightBodies_append (bodies more : List (List Block)) :
    weightBodies (bodies ++ more) = weightBodies bodies + weightBodies more := by
  induction bodies with
  | nil => simp
  | cons bs bodies ih => simp [ih, Nat.add_assoc]

theorem weightBodies_reverse (bodies : List (List Block)) :
    weightBodies bodies.reverse = weightBodies bodies := by
  induction bodies with
  | nil => rfl
  | cons bs bodies ih => simp [weightBodies_append, ih, Nat.add_comm]

theorem weightArms_branches (branches : List Branch) :
    weightArms (branches.map Branch.arm) = weightBranches branches := by
  induction branches with
  | nil => simp [weightBranches]
  | cons first rest ih =>
    obtain ⟨test, body⟩ := first
    simp [weightBranches, Branch.arm, Branch.body, ih]

theorem weightArms_fallback (fallback : Option Fallback) :
    weightArms (fallback.map Fallback.arm).toList = weightFallback fallback := by
  cases fallback with
  | none => simp [weightFallback]
  | some f =>
    obtain ⟨span, body⟩ := f
    simp [weightFallback, Fallback.arm, Fallback.body]

/-- A block weighs one more than the bodies of its branches. -/
theorem weight_eq (b : Block) : b.weight = weightArms b.arms + 1 := by
  obtain ⟨test, body, alternatives, fallback, closing, standIn⟩ := b
  have alternativesWeight :
      weightArms ((alternatives.getD []).map Branch.arm) = weightAlternatives alternatives := by
    rw [weightArms_branches]
    cases alternatives <;> simp [weightAlternatives, weightBranches]
  simp only [arms, weight, weightArms_cons, weightArms_append, weightArms_fallback, Block.body,
    Block.alternatives, Block.fallback, alternativesWeight]

theorem weightBody_le_of_mem {arms : List Arm} {arm : Arm} (h : arm ∈ arms) :
    weightBody arm.body ≤ weightArms arms := by
  induction arms with
  | nil => simp at h
  | cons first rest ih =>
    rw [weightArms_cons]
    rcases List.mem_cons.1 h with rfl | h
    · omega
    · have := ih h
      omega

/-- The body of a branch weighs less than the block. -/
theorem weightBody_lt {b : Block} {arm : Arm} (h : arm ∈ b.arms) :
    weightBody arm.body < b.weight := by
  have := weightBody_le_of_mem h
  rw [weight_eq]
  omega

theorem fallback_arm_mem {b : Block} {f : Fallback} (h : b.fallback = some f) :
    f.arm ∈ b.arms := by
  simp [arms, h]

/-- The branch with a number is one of the branches. -/
theorem mem_arms_of_armAt {b : Block} {branch : Int} {arm : Arm} (h : b.armAt branch = some arm) :
    arm ∈ b.arms := by
  match branch with
  | .ofNat k => exact List.mem_of_getElem? h
  | .negSucc k =>
    obtain ⟨f, hf, rfl⟩ := Option.map_eq_some_iff.1 h
    exact fallback_arm_mem hf

/-- The blocks in a branch weigh less than the block. -/
theorem weightList_bodyAt_lt {b : Block} {branch : Int} {blocks : List Block}
    (h : b.bodyAt branch = some blocks) : weightList blocks + 1 < b.weight := by
  obtain ⟨arm, harm, hbody⟩ := Option.bind_eq_some_iff.1 h
  have := weightBody_lt (mem_arms_of_armAt harm)
  rw [hbody, weightBody_some] at this
  exact this

end GuardedText.Block
