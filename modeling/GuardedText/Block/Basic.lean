import GuardedText.Directive
import GuardedText.Guard.Basic

/-
  Blocks: what stands between an `#if` and its `#endif`. A block has the branch of the `#if`, the
  branches of its `#elseif`s in order and perhaps the branch of an `#else`; every branch may hold
  blocks nested in it. A block is known by the offset at which its `#if` starts.
-/

namespace GuardedText

/-- The directive that opens a branch, and its guard. -/
structure Test where
  /-- Where the directive stands. -/
  span : Span
  /-- The condition of the branch. -/
  guard : Guard

mutual

/-- An `#if` with everything up to its `#endif`. A stand-in is opened for an `#if` that is
missing. -/
inductive Block where
  | mk (test : Test) (body : Option (List Block)) (alternatives : Option (List Branch))
      (fallback : Option Fallback) (closing : Span) (standIn : Bool)

/-- An `#elseif` branch. -/
inductive Branch where
  | mk (test : Test) (body : Option (List Block))

/-- An `#else` branch. -/
inductive Fallback where
  | mk (span : Span) (body : Option (List Block))

end

/-- A branch of a block, whichever directive opened it. -/
structure Arm where
  /-- Where the directive stands. -/
  span : Span
  /-- The condition of the branch; an `#else` has none. -/
  guard : Option Guard
  /-- The blocks in the branch, if there are any. -/
  body : Option (List Block)

namespace Branch

/-- The `#elseif` and its guard. -/
def test : Branch → Test
  | .mk test _ => test

/-- The blocks in the branch. -/
def body : Branch → Option (List Block)
  | .mk _ body => body

/-- The `#elseif` branch as a branch of its block. -/
def arm (b : Branch) : Arm := ⟨b.test.span, some b.test.guard, b.body⟩

end Branch

namespace Fallback

/-- Where the `#else` stands. -/
def span : Fallback → Span
  | .mk span _ => span

/-- The blocks in the branch. -/
def body : Fallback → Option (List Block)
  | .mk _ body => body

/-- The `#else` branch as a branch of its block. -/
def arm (f : Fallback) : Arm := ⟨f.span, none, f.body⟩

end Fallback

namespace Block

/-- The `#if` and its guard. -/
def test : Block → Test
  | .mk test _ _ _ _ _ => test

/-- The blocks in the branch of the `#if`. -/
def body : Block → Option (List Block)
  | .mk _ body _ _ _ _ => body

/-- The `#elseif` branches, if there are any. -/
def alternatives : Block → Option (List Branch)
  | .mk _ _ alternatives _ _ _ => alternatives

/-- The `#else` branch. -/
def fallback : Block → Option Fallback
  | .mk _ _ _ fallback _ _ => fallback

/-- Where the `#endif` stands. -/
def closing : Block → Span
  | .mk _ _ _ _ closing _ => closing

/-- Whether the block stands in for a missing `#if`. -/
def standIn : Block → Bool
  | .mk _ _ _ _ _ standIn => standIn

/-- Where the `#if` stands. -/
def span (b : Block) : Span := b.test.span

/-- The offset that a block is known by. -/
def start (b : Block) : Nat := b.span.start

/-- The number of `#elseif` branches. -/
def alternativeCount (b : Block) : Nat := (b.alternatives.getD []).length

/-- The branches of a block in order: that of the `#if`, those of the `#elseif`s, that of the
`#else`. -/
def arms (b : Block) : List Arm :=
  ⟨b.test.span, some b.test.guard, b.body⟩ ::
    ((b.alternatives.getD []).map Branch.arm ++ (b.fallback.map Fallback.arm).toList)

/-- The branch with a number as in `Choices`: below zero the `#else`. -/
def armAt (b : Block) : Int → Option Arm
  | .ofNat k => b.arms[k]?
  | .negSucc _ => b.fallback.map Fallback.arm

/-- The blocks in the branch with a number as in `Choices`. -/
def bodyAt (b : Block) (branch : Int) : Option (List Block) := (b.armAt branch).bind Arm.body

mutual

/-- A block and the blocks in it, in document order. -/
def preorder : Block → List Block
  | .mk test body alternatives fallback closing standIn =>
    .mk test body alternatives fallback closing standIn ::
      (preorderBody body ++ (preorderAlternatives alternatives ++ preorderFallback fallback))

/-- The blocks of a branch and the blocks in them, in document order. -/
def preorderBody : Option (List Block) → List Block
  | none => []
  | some blocks => preorderList blocks

/-- Some blocks and the blocks in them, in document order. -/
def preorderList : List Block → List Block
  | [] => []
  | b :: bs => preorder b ++ preorderList bs

/-- The blocks in the `#elseif` branches of a block, in document order. -/
def preorderAlternatives : Option (List Branch) → List Block
  | none => []
  | some branches => preorderBranches branches

/-- The blocks in some branches, in document order. -/
def preorderBranches : List Branch → List Block
  | [] => []
  | .mk _ body :: branches => preorderBody body ++ preorderBranches branches

/-- The blocks in an `#else` branch, in document order. -/
def preorderFallback : Option Fallback → List Block
  | none => []
  | some (.mk _ body) => preorderBody body

end

end Block

/-- Which branch each block took: 0 is the `#if`, k the k-th `#elseif`, -1 the `#else` or none.
A block is listed by the offset at which it starts. -/
abbrev Choices := List (Nat × Int)

/-- The branch that a block took, if it was reached. -/
def Choices.taken? (choices : Choices) (b : Block) : Option Int := choices.lookup b.start

end GuardedText
