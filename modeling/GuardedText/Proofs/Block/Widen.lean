import GuardedText.Proofs.Block.Cuts
import GuardedText.Proofs.Cut.Widen

/-
  Blocks whose offsets are moved. A moved block has the moved branches (`Block.arms_move`), so a
  choice of branches surrounds the one that stays with the moved cuts (`Block.surround?_move`), and the
  stack of what is still to be cut makes the moved cuts step by step (`Uncut.cut?_move`). With that,
  cutting blocks out of a text and writing both characters at its line ends can be done in either
  order (`Block.emit_crlf`).
-/

namespace GuardedText

/-- The span with its offsets moved. -/
def Span.move (f : Nat → Nat) (s : Span) : Span := ⟨f s.start, f s.stop, s.position⟩

/-- The directive with its offsets moved. -/
def Test.move (f : Nat → Nat) (t : Test) : Test := ⟨t.span.move f, t.guard⟩

namespace Block

mutual

/-- The block with all offsets moved. -/
def move (f : Nat → Nat) : Block → Block
  | .mk test body alternatives fallback closing standIn =>
    .mk (test.move f) (moveBody f body) (moveAlternatives f alternatives) (moveFallback f fallback)
      (closing.move f) standIn

/-- The blocks of a branch with all offsets moved. -/
def moveBody (f : Nat → Nat) : Option (List Block) → Option (List Block)
  | none => none
  | some blocks => some (moveList f blocks)

/-- Some blocks with all offsets moved. -/
def moveList (f : Nat → Nat) : List Block → List Block
  | [] => []
  | b :: bs => move f b :: moveList f bs

/-- The `#elseif` branches of a block with all offsets moved. -/
def moveAlternatives (f : Nat → Nat) : Option (List Branch) → Option (List Branch)
  | none => none
  | some branches => some (moveBranches f branches)

/-- Some branches with all offsets moved. -/
def moveBranches (f : Nat → Nat) : List Branch → List Branch
  | [] => []
  | .mk test body :: branches => .mk (test.move f) (moveBody f body) :: moveBranches f branches

/-- An `#else` branch with all offsets moved. -/
def moveFallback (f : Nat → Nat) : Option Fallback → Option Fallback
  | none => none
  | some (.mk span body) => some (.mk (span.move f) (moveBody f body))

end

end Block

/-- The branch with all offsets moved. -/
def Arm.move (f : Nat → Nat) (arm : Arm) : Arm :=
  ⟨arm.span.move f, arm.guard, Block.moveBody f arm.body⟩

/-- The choices of the moved blocks. -/
def Choices.move (f : Nat → Nat) (choices : Choices) : Choices :=
  choices.map fun choice => (f choice.1, choice.2)

/-- The cuts around a branch with all offsets moved. -/
def Surround.move (f : Nat → Nat) (s : Surround) : Surround :=
  ⟨s.before.move f, Block.moveBody f s.body, s.after.map (·.move f)⟩

/-- What still has to be cut with all offsets moved. -/
def Uncut.move (f : Nat → Nat) : Uncut → Uncut
  | .range r => .range (r.move f)
  | .blocks bs => .blocks (Block.moveList f bs)

namespace Block

variable (f : Nat → Nat)

theorem moveBranches_arms (branches : List Branch) :
    (moveBranches f branches).map Branch.arm = (branches.map Branch.arm).map (Arm.move f) := by
  induction branches with
  | nil => simp [moveBranches]
  | cons first rest ih =>
    obtain ⟨test, body⟩ := first
    rw [moveBranches, List.map_cons, ih]
    rfl

/-- The branches of a moved block. -/
theorem arms_move (b : Block) : (b.move f).arms = b.arms.map (Arm.move f) := by
  obtain ⟨test, body, alternatives, fallback, closing, standIn⟩ := b
  have halternatives : ((moveAlternatives f alternatives).getD []).map Branch.arm =
      ((alternatives.getD []).map Branch.arm).map (Arm.move f) := by
    cases alternatives with
    | none => simp [moveAlternatives]
    | some branches => simpa [moveAlternatives] using moveBranches_arms f branches
  have hfallback : (moveFallback f fallback).map Fallback.arm =
      (fallback.map Fallback.arm).map (Arm.move f) := by
    cases fallback with
    | none => simp [moveFallback]
    | some own =>
      obtain ⟨span, body⟩ := own
      simp [moveFallback, Fallback.arm, Fallback.span, Fallback.body, Arm.move]
  simp only [move, arms, Block.test, Block.body, Block.alternatives, Block.fallback, List.map_cons,
    List.map_append, halternatives, hfallback]
  cases fallback <;> rfl

theorem start_move (b : Block) : (b.move f).start = f b.start := by
  obtain ⟨test, body, alternatives, fallback, closing, standIn⟩ := b
  rw [move]
  rfl

theorem closing_move (b : Block) : (b.move f).closing = b.closing.move f := by
  obtain ⟨test, body, alternatives, fallback, closing, standIn⟩ := b
  rw [move]
  rfl

theorem fallback_move (b : Block) : (b.move f).fallback = moveFallback f b.fallback := by
  obtain ⟨test, body, alternatives, fallback, closing, standIn⟩ := b
  rw [move]
  rfl

/-- The cuts around the branch that a moved block took. -/
theorem surround?_move (b : Block) (taken : Option Int) :
    (b.move f).surround? taken = (b.surround? taken).map (Surround.move f) := by
  unfold surround?
  rw [arms_move, start_move, closing_move, fallback_move]
  split
  · rename_i k _
    rw [List.getElem?_map, List.getElem?_map, Option.map_map, Option.map_map]
    refine congrFun (congrArg Option.map (funext fun arm => ?_)) _
    simp only [Function.comp_apply, Surround.move, Range.move, Arm.move, Span.move]
    cases b.arms[k.toNat + 1]? <;> rfl
  · cases b.fallback with
    | none => simp [moveFallback, Surround.move, Range.move, Span.move, moveBody]
    | some own =>
      obtain ⟨span, body⟩ := own
      simp [moveFallback, Surround.move, Range.move, Span.move, Fallback.span, Fallback.body]

end Block

/-- A moved block took the branch that the block took. -/
theorem Choices.taken?_move {f : Nat → Nat} (hf : StrictMono f) (choices : Choices) (b : Block) :
    (choices.move f).taken? (b.move f) = choices.taken? b := by
  rw [taken?, Block.start_move, taken?]
  induction choices with
  | nil => rfl
  | cons choice choices ih =>
    obtain ⟨start, branch⟩ := choice
    rw [move, List.map_cons, List.lookup_cons, List.lookup_cons, ← move, ih]
    by_cases hstart : b.start = start
    · simp [hstart]
    · rw [beq_false_of_ne hstart, beq_false_of_ne (hf.injective.ne hstart)]

namespace Uncut

theorem ofSurround_move (f : Nat → Nat) (s : Surround) :
    ofSurround (s.move f) = (ofSurround s).map (Uncut.move f) := by
  obtain ⟨before, body, after⟩ := s
  rcases body with - | - | ⟨b, bs⟩ <;> cases after <;>
    simp [ofSurround, Surround.move, ofBody, Block.moveBody, Block.moveList, Uncut.move]

/-- What is still to be cut, all of it moved, makes the moved cuts. -/
theorem cut?_move {f : Nat → Nat} (hf : StrictMono f) (choices : Choices) (work : List Uncut)
    (cuts : Cuts) :
    cut? (choices.move f) (work.map (Uncut.move f)) (cuts.move f) =
      (cut? choices work cuts).map (Cuts.move f) := by
  induction work, cuts using cut?.induct choices with
  | case1 cuts => simp [cut?]
  | case2 cuts r work ih =>
    rw [List.map_cons, Uncut.move, cut?, cut?, Cuts.move_add hf, ih]
  | case3 cuts work ih =>
    rw [List.map_cons, Uncut.move, Block.moveList, cut?, cut?, ih]
  | case4 cuts b bs work hnone =>
    rw [List.map_cons, Uncut.move, Block.moveList, cut?_blocks_cons, cut?_blocks_cons,
      Choices.taken?_move hf, Block.surround?_move, hnone]
    rfl
  | case5 cuts b bs work s hs ih =>
    rw [List.map_append, List.map_cons, ← ofSurround_move, Uncut.move, ← Cuts.move_add hf] at ih
    rw [List.map_cons, Uncut.move, Block.moveList, cut?_blocks_cons, cut?_blocks_cons,
      Choices.taken?_move hf, Block.surround?_move, hs]
    exact ih

end Uncut

namespace Block

/-- Blocks that are moved give up the moved cuts. -/
theorem cuts?_move {f : Nat → Nat} (hf : StrictMono f) (hzero : f 0 = 0) (choices : Choices)
    (blocks : List Block) :
    cuts? (choices.move f) (moveList f blocks) = (cuts? choices blocks).map (Cuts.move f) := by
  have hcut := Uncut.cut?_move hf choices [.blocks blocks] {}
  have hstart : Cuts.move f {} = {} := by simp [Cuts.move, Range.move, hzero]
  rwa [List.map_singleton, Uncut.move, hstart] at hcut

/-- Cutting and line ends: blocks whose offsets are moved by the number of line feeds before them
    leave of the text with both characters at its line ends what the blocks leave of the text, with
    both characters at its line ends. A choice of branches is one of both. -/
theorem emit_crlf {s : Text} (hs : s.NoReturn) (choices : Choices) (blocks : List Block) :
    (cuts? (choices.move s.widen) (moveList s.widen blocks)).map (Cut.emit s.crlf) =
      (cuts? choices blocks).map fun cuts => (Cut.emit s cuts).crlf := by
  rw [cuts?_move s.widen_strictMono s.widen_zero, Option.map_map]
  exact congrFun (congrArg Option.map (funext (Cut.emit_move_crlf hs))) _

/-- Blocks on lines of their own and inside a line, an empty line and blanks at a line end. -/
def linesAndInline : Text :=
  "\n x\n  // #if A\n y /* #if B */ z /* #endif */ \n// #else\nw\n\t// #endif\n\nv"

theorem emit_crlf_inline :
    linesAndInline.NoReturn ∧
    ∃ blocks, (parse linesAndInline).2 = .ok blocks ∧
      (cuts? [(6, 0), (18, -1)] blocks).map (Cut.emit linesAndInline) =
        some (Text.ofString " x\n y \n\nv") ∧
      (cuts? (Choices.move linesAndInline.widen [(6, 0), (18, -1)])
          (moveList linesAndInline.widen blocks)).map (Cut.emit linesAndInline.crlf) =
        some (Text.ofString " x\r\n y \r\n\r\nv") := by
  have hreturn : linesAndInline.NoReturn := by decide +kernel
  obtain ⟨blocks, hparse, hcheck⟩ := parse_of_check
    (show (parse linesAndInline).2.toOption.any (fun blocks =>
        decide ((cuts? [(6, 0), (18, -1)] blocks).map (Cut.emit linesAndInline) =
          some (Text.ofString " x\n y \n\nv"))) = true by
      decide +kernel)
  rw [decide_eq_true_eq] at hcheck
  refine ⟨hreturn, blocks, hparse, hcheck, ?_⟩
  obtain ⟨cuts, hcuts, hemit⟩ := Option.map_eq_some_iff.1 hcheck
  rw [emit_crlf hreturn, hcuts, Option.map_some, hemit]
  decide +kernel

end Block

end GuardedText
