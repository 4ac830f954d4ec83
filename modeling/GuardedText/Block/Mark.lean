import GuardedText.Block.Body
import GuardedText.Note
import GuardedText.Report

/-
  Marking blocks with the branches that a report says they took. Lists of blocks that wait to be
  marked stand on a stack; a list is marked from its first block to its last, and the lists found in
  it are taken up in the opposite order. A report that does not fit the blocks is refused, and the
  marks made before that remain.
-/

namespace GuardedText

/-- The branch that a block was marked with. -/
structure Mark where
  /-- Where the `#if` of the block stands. -/
  span : Span
  /-- The branch, as the report has it. -/
  branch : Report

/-- Why a report does not fit. -/
inductive Misfit where
  /-- Not a list with an entry for each block, or not an entry. -/
  | malformed (report : Report)
  /-- The block of this line has no such branch. -/
  | noBranch (branch : Report) (line : Int)

/-- Marking keeps the marks made so far, the latest first. -/
abbrev Marking := EStateM Misfit (List Mark)

namespace Marking

/-- Marks one block. -/
def block (b : Block) : Report → Marking Unit
  | .entry branch _ =>
    match branch.branch? with
    | some k =>
      if -1 ≤ k ∧ k ≤ b.alternativeCount then modify (⟨b.span, branch⟩ :: ·)
      else throw (.noBranch branch b.span.position.line)
    | none => throw (.noBranch branch b.span.position.line)
  | r => throw (.malformed r)

/-- Marks some blocks, each by its entry. -/
def list : List Block → List Report → Marking Unit
  | b :: bs, r :: rs => do
    block b r
    list bs rs
  | _, _ => return ()

/-- The blocks in the branch that an entry names, with the report on them. -/
def nested? (b : Block) : Report → Option (List Block × Report)
  | .entry branch children =>
    if children.isNull then none
    else ((branch.branch?).bind b.bodyAt).map fun blocks => (blocks, children)
  | _ => none

/-- The lists to be marked that the entries of some blocks lead to. -/
def nested : List Block → List Report → List (List Block × Report)
  | b :: bs, r :: rs => (nested? b r).toList ++ nested bs rs
  | _, _ => []

/-- How much there is to mark. -/
def pending (work : List (List Block × Report)) : Nat := Block.weightBodies (work.map Prod.fst)

theorem pending_append (a b : List (List Block × Report)) :
    pending (a ++ b) = pending a + pending b := by
  rw [pending, List.map_append, Block.weightBodies_append]
  rfl

theorem pending_nested? (b : Block) (r : Report) :
    pending (nested? b r).toList < b.weight := by
  cases hn : nested? b r with
  | none => simp [pending, Block.weight_eq]
  | some item =>
    cases r with
    | entry branch children =>
      simp only [nested?] at hn
      split at hn
      · cases hn
      · obtain ⟨blocks, hb, rfl⟩ := Option.map_eq_some_iff.1 hn
        obtain ⟨k, -, hk⟩ := Option.bind_eq_some_iff.1 hb
        have := Block.weightList_bodyAt_lt hk
        simpa [pending] using this
    | _ => simp [nested?] at hn

theorem pending_nested (bs : List Block) (rs : List Report) :
    pending (nested bs rs) ≤ Block.weightList bs := by
  induction bs generalizing rs with
  | nil => simp [nested, pending]
  | cons b bs ih =>
    cases rs with
    | nil => simp [nested, pending]
    | cons r rs =>
      have := pending_nested? b r
      have := ih rs
      rw [nested, pending_append, Block.weightList_cons]
      omega

/-- Marks the lists that wait, the first one first. -/
def all : List (List Block × Report) → Marking Unit
  | [] => return ()
  | (bs, .list entries) :: rest => do
    if entries.length = bs.length then
      list bs entries
      all ((nested bs entries).reverse ++ rest)
    else throw (.malformed (.list entries))
  | (_, r) :: _ => throw (.malformed r)
termination_by work => pending work
decreasing_by
  have := pending_nested bs entries
  rw [pending_append, pending, List.map_reverse, Block.weightBodies_reverse]
  simp only [pending, List.map_cons, Block.weightBodies_cons] at this ⊢
  omega

end Marking

namespace Mark

/-- The marks that a report gives to blocks, in the order in which they are made, and why it does
not fit if it does not. -/
def ofReport (blocks : List Block) (report : Report) : List Mark × Option Misfit :=
  match Marking.all [(blocks, report)] [] with
  | .ok _ marks => (marks.reverse, none)
  | .error misfit marks => (marks.reverse, some misfit)

/-- The branch of a mark as a number. -/
def taken (m : Mark) : Int := m.branch.branch?.getD (-1)

/-- The choices that marks amount to. -/
def choices (marks : List Mark) : Choices := marks.map fun m => (m.span.start, m.taken)

/-- The note on a mark. -/
def note (m : Mark) : Note := .took m.span.position m.taken

end Mark

end GuardedText
