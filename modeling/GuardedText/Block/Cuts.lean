import GuardedText.Block.Body
import GuardedText.Cut.Emit

/-
  The ranges that a choice of branches cuts. A block gives a cut from its `#if` to the start of the
  branch it took and one from the end of that branch to its `#endif`, with the cuts of the blocks in
  that branch between them; a block that took no branch is cut as a whole. The cuts are made in
  document order: blocks whose cuts are still to be made stand on a stack, together with the cuts
  that follow them.
-/

namespace GuardedText

/-- The cuts around the branch that a block took. -/
structure Surround where
  /-- The cut before the branch, or the whole block. -/
  before : Range
  /-- The blocks in the branch, if there are any. -/
  body : Option (List Block)
  /-- The cut after the branch. -/
  after : Option Range

/-- What still has to be cut. -/
inductive Uncut where
  | range (range : Range)
  | blocks (blocks : List Block)

namespace Block

/-- The cuts around the branch that a block took; none when it has no such branch. A number below
zero, and none, is the `#else`, or no branch at all. -/
def surround? (b : Block) (taken : Option Int) : Option Surround :=
  match taken.filter fun k => decide (0 ≤ k) with
  | some k =>
    (b.arms[k.toNat]?).map fun arm =>
      let next := (b.arms[k.toNat + 1]?).elim b.closing.start (·.span.start)
      ⟨⟨b.start, arm.span.stop⟩, arm.body, some ⟨next, b.closing.stop⟩⟩
  | none =>
    match b.fallback with
    | some f =>
      some ⟨⟨b.start, f.span.stop⟩, f.body, some ⟨b.closing.start, b.closing.stop⟩⟩
    | none => some ⟨⟨b.start, b.closing.stop⟩, none, none⟩

/-- The blocks in the branch that a block took weigh less than the block. -/
theorem weightBody_surround {b : Block} {taken : Option Int} {s : Surround}
    (h : b.surround? taken = some s) : weightBody s.body < b.weight := by
  unfold surround? at h
  split at h
  · obtain ⟨arm, harm, rfl⟩ := Option.map_eq_some_iff.1 h
    exact weightBody_lt (List.mem_of_getElem? harm)
  · split at h
    · rename_i f hf
      cases h
      exact weightBody_lt (fallback_arm_mem hf)
    · cases h
      rw [weight_eq]
      simp

end Block

namespace Uncut

/-- The blocks of a branch, if there are any. -/
def ofBody : Option (List Block) → List Uncut
  | some (b :: bs) => [.blocks (b :: bs)]
  | some [] | none => []

/-- What a surround leaves to be cut: the blocks in the branch, then the cut after it. -/
def ofSurround (s : Surround) : List Uncut := ofBody s.body ++ (s.after.map .range).toList

/-- How much there is to cut. -/
def weight : List Uncut → Nat
  | [] => 0
  | .range _ :: work => 1 + weight work
  | .blocks bs :: work => 3 * Block.weightList bs + 1 + weight work

theorem weight_append (a b : List Uncut) : weight (a ++ b) = weight a + weight b := by
  induction a with
  | nil => simp [weight]
  | cons item a ih => cases item <;> simp [weight, ih] <;> omega

theorem weight_ofSurround (s : Surround) :
    weight (ofSurround s) ≤ 3 * Block.weightBody s.body + 1 := by
  obtain ⟨before, body, after⟩ := s
  cases body with
  | none => cases after <;> simp [ofSurround, ofBody, weight]
  | some bs =>
    rw [Block.weightBody_some, ofSurround, weight_append]
    cases bs <;> cases after <;> simp only [ofBody, weight, Option.map, Option.toList] <;> omega

/-- Makes the cuts that are still to be made, the first one first; none when a block took a branch
that it has not. -/
def cut? (choices : Choices) : List Uncut → Cuts → Option Cuts
  | [], cuts => some cuts
  | .range r :: work, cuts => cut? choices work (cuts.add r)
  | .blocks [] :: work, cuts => cut? choices work cuts
  | .blocks (b :: bs) :: work, cuts =>
    match _h : b.surround? (choices.taken? b) with
    | none => none
    | some s => cut? choices (ofSurround s ++ .blocks bs :: work) (cuts.add s.before)
termination_by work => weight work
decreasing_by
  · simp [weight]
  · simp [weight]
  · have := Block.weightBody_surround _h
    have := weight_ofSurround s
    simp only [weight_append, weight, Block.weightList_cons]
    omega

end Uncut

/-- The cuts of some blocks; none when a block took a branch that it has not. -/
def Block.cuts? (choices : Choices) (blocks : List Block) : Option Cuts :=
  Uncut.cut? choices [.blocks blocks] {}

end GuardedText
