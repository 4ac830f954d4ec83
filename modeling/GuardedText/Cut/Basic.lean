/-
  Ranges to cut out of a text. Ranges arrive in document order and merge with the last one when
  they touch it. The list starts with an empty range at offset 0, so that there always is a last
  one.
-/

namespace GuardedText

/-- A range of offsets, from `start` up to but not including `stop`. -/
structure Range where
  /-- The first offset. -/
  start : Nat
  /-- The offset after the last one. -/
  stop : Nat
  deriving DecidableEq, Repr

/-- The ranges to cut, the last one first. -/
structure Cuts where
  /-- The range that was added or grew last. -/
  last : Range := ⟨0, 0⟩
  /-- The ranges before it, the latest first. -/
  closed : List Range := []
  deriving DecidableEq, Repr

namespace Cuts

/-- The ranges in document order. -/
def toList (cuts : Cuts) : List Range := (cuts.last :: cuts.closed).reverse

/-- The cuts with one more range, which grows the last one if it does not start after it. -/
def add (cuts : Cuts) (range : Range) : Cuts :=
  if range.start ≤ cuts.last.stop then
    { cuts with last := ⟨cuts.last.start, max cuts.last.stop range.stop⟩ }
  else ⟨range, cuts.last :: cuts.closed⟩

/-- Whether nothing is cut. -/
def isEmpty (cuts : Cuts) : Bool := cuts.closed.isEmpty && cuts.last.stop == 0

/-- The cuts of some ranges in document order. -/
def ofRanges (ranges : List Range) : Cuts := ranges.foldl add {}

end Cuts

end GuardedText
