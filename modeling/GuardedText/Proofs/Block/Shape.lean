import GuardedText.Block.Body

/-
  The shape of blocks. A block is described by its branches alone: the blocks in it (`preorder_eq`)
  and the directives that spell it out (`pieces_eq`) are those of its branches in order. Facts about
  all blocks are proved by `Block.arm_induction`, from the blocks in the branches to the block.
-/

namespace GuardedText

/-- A directive as it stands in a block: which one it is, its place and its compiled guard. -/
structure Piece where
  tag : Tag
  span : Span
  guard : Option Guard

namespace Block

mutual

/-- The directives of a block and of the blocks in it, in document order. -/
def pieces : Block → List Piece
  | .mk test body alternatives fallback closing _ =>
    ⟨.ifTag, test.span, some test.guard⟩ ::
      (piecesBody body ++ (piecesAlternatives alternatives ++
        (piecesFallback fallback ++ [⟨.endifTag, closing, none⟩])))

/-- The directives in the body of a branch. -/
def piecesBody : Option (List Block) → List Piece
  | none => []
  | some blocks => piecesList blocks

/-- The directives of some blocks. -/
def piecesList : List Block → List Piece
  | [] => []
  | b :: bs => pieces b ++ piecesList bs

/-- The directives of the `#elseif` branches of a block. -/
def piecesAlternatives : Option (List Branch) → List Piece
  | none => []
  | some branches => piecesBranches branches

/-- The directives of some branches. -/
def piecesBranches : List Branch → List Piece
  | [] => []
  | .mk test body :: branches =>
    ⟨.elseifTag, test.span, some test.guard⟩ :: (piecesBody body ++ piecesBranches branches)

/-- The directives of an `#else` branch. -/
def piecesFallback : Option Fallback → List Piece
  | none => []
  | some (.mk span body) => ⟨.elseTag, span, none⟩ :: piecesBody body

end

/-! ## Blocks by their branches -/

/-- To show something of all lists of blocks, show it of a list from the bodies of the branches of
    its first block and from the other blocks. -/
theorem forest_induction {P : List Block → Prop} (nil : P [])
    (cons : ∀ (b : Block) (bs : List Block),
      (∀ arm ∈ b.arms, ∀ cs, arm.body = some cs → P cs) → P bs → P (b :: bs))
    (bs : List Block) : P bs := by
  have heavy : ∀ n, ∀ bs : List Block, weightList bs < n → P bs := by
    intro n
    induction n with
    | zero => intro bs hbs; omega
    | succ n ih =>
      intro bs hbs
      cases bs with
      | nil => exact nil
      | cons b bs =>
        rw [weightList_cons] at hbs
        have hweight := weight_eq b
        refine cons b bs (fun arm harm cs hcs => ih cs ?_) (ih bs (by omega))
        have := weightBody_lt harm
        rw [hcs, weightBody_some] at this
        omega
  exact heavy (weightList bs + 1) bs (by omega)

/-- To show something of every block, show it of a block from the blocks in its branches. -/
theorem arm_induction {P : Block → Prop}
    (step : ∀ b : Block, (∀ arm ∈ b.arms, ∀ bs, arm.body = some bs → ∀ c ∈ bs, P c) → P b)
    (b : Block) : P b := by
  have hall : ∀ bs : List Block, ∀ c ∈ bs, P c := by
    intro bs
    induction bs using forest_induction with
    | nil => simp
    | cons b bs hbodies hrest => exact List.forall_mem_cons.2 ⟨step b hbodies, hrest⟩
  exact hall [b] b List.mem_cons_self

@[simp] theorem preorderList_nil : preorderList [] = [] := by simp [preorderList]

@[simp] theorem preorderList_cons (b : Block) (bs : List Block) :
    preorderList (b :: bs) = b.preorder ++ preorderList bs := by
  simp [preorderList]

@[simp] theorem preorderBody_none : preorderBody none = [] := by simp [preorderBody]

@[simp] theorem preorderBody_some (bs : List Block) :
    preorderBody (some bs) = preorderList bs := by
  simp [preorderBody]

@[simp] theorem piecesList_nil : piecesList [] = [] := by simp [piecesList]

@[simp] theorem piecesList_cons (b : Block) (bs : List Block) :
    piecesList (b :: bs) = b.pieces ++ piecesList bs := by
  simp [piecesList]

@[simp] theorem piecesBody_none : piecesBody none = [] := by simp [piecesBody]

@[simp] theorem piecesBody_some (bs : List Block) : piecesBody (some bs) = piecesList bs := by
  simp [piecesBody]

theorem piecesList_append (bs cs : List Block) :
    piecesList (bs ++ cs) = piecesList bs ++ piecesList cs := by
  induction bs with
  | nil => simp
  | cons b bs ih => simp [ih]

theorem preorderBranches_eq (branches : List Branch) :
    preorderBranches branches =
      (branches.map Branch.arm).flatMap fun arm => preorderBody arm.body := by
  induction branches with
  | nil => simp [preorderBranches]
  | cons first rest ih =>
    obtain ⟨test, body⟩ := first
    simp [preorderBranches, ih, Branch.arm, Branch.body]

/-- The blocks in a block are those in its branches. -/
theorem preorder_eq (b : Block) :
    b.preorder = b :: b.arms.flatMap fun arm => preorderBody arm.body := by
  obtain ⟨test, body, alternatives, fallback, closing, standIn⟩ := b
  have halternatives : preorderAlternatives alternatives =
      ((alternatives.getD []).map Branch.arm).flatMap fun arm => preorderBody arm.body := by
    cases alternatives with
    | none => simp [preorderAlternatives]
    | some branches => simpa [preorderAlternatives] using preorderBranches_eq branches
  have hfallback : preorderFallback fallback =
      (fallback.map Fallback.arm).toList.flatMap fun arm => preorderBody arm.body := by
    cases fallback with
    | none => simp [preorderFallback]
    | some f =>
      obtain ⟨span, body⟩ := f
      simp [preorderFallback, Fallback.arm, Fallback.body]
  simp only [preorder, arms, Block.body, Block.alternatives, Block.fallback, List.flatMap_cons,
    List.flatMap_append, halternatives, hfallback]

theorem mem_preorder_self (b : Block) : b ∈ b.preorder := by
  rw [preorder_eq]
  simp

theorem mem_preorderList {bs : List Block} {c : Block} :
    c ∈ preorderList bs ↔ ∃ b ∈ bs, c ∈ b.preorder := by
  induction bs with
  | nil => simp
  | cons b bs ih => simp [ih]

/-- A block in another is that block or stands in one of its branches. -/
theorem mem_preorder {b c : Block} :
    c ∈ b.preorder ↔ c = b ∨ ∃ arm ∈ b.arms, ∃ bs, arm.body = some bs ∧ c ∈ preorderList bs := by
  rw [preorder_eq, List.mem_cons, List.mem_flatMap]
  refine or_congr_right (exists_congr fun arm => and_congr_right fun _ => ?_)
  cases arm.body <;> simp

/-! ## Directives by branches -/

/-- A directive without its tag. -/
def untagged (p : Piece) : Span × Option Guard := (p.span, p.guard)

/-- The directives of a branch and of the blocks in it. -/
def armPieces (arm : Arm) : List (Span × Option Guard) :=
  (arm.span, arm.guard) :: (piecesBody arm.body).map untagged

theorem untagged_branches (branches : List Branch) :
    (piecesBranches branches).map untagged = (branches.map Branch.arm).flatMap armPieces := by
  induction branches with
  | nil => simp [piecesBranches]
  | cons first rest ih =>
    obtain ⟨test, body⟩ := first
    simp [piecesBranches, ih, Branch.arm, Branch.body, Branch.test, armPieces, untagged]

/-- The directives of a block are those of its branches and its `#endif`. -/
theorem pieces_eq (b : Block) :
    b.pieces.map untagged = b.arms.flatMap armPieces ++ [(b.closing, none)] := by
  obtain ⟨test, body, alternatives, fallback, closing, standIn⟩ := b
  have halternatives : (piecesAlternatives alternatives).map untagged =
      ((alternatives.getD []).map Branch.arm).flatMap armPieces := by
    cases alternatives with
    | none => simp [piecesAlternatives]
    | some branches => simpa [piecesAlternatives] using untagged_branches branches
  have hfallback : (piecesFallback fallback).map untagged =
      (fallback.map Fallback.arm).toList.flatMap armPieces := by
    cases fallback with
    | none => simp [piecesFallback]
    | some f =>
      obtain ⟨span, body⟩ := f
      simp [piecesFallback, Fallback.arm, Fallback.body, Fallback.span, armPieces, untagged]
  simp [pieces, arms, Block.body, Block.alternatives, Block.fallback, Block.closing, Block.test,
    armPieces, halternatives, hfallback, untagged]

end Block

end GuardedText
