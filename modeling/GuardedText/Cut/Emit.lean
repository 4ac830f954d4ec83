import GuardedText.Text.Class
import GuardedText.Cut.Basic

/-
  What remains of a text after its cuts. Horizontal white space right before a cut goes too, and
  when the cut then starts a line, one line terminator right after it, so that a directive on a line
  of its own leaves no empty line.
-/

namespace GuardedText.Cut

/-- The offset `stop` moved left over horizontal white space, not past `limit`. -/
def trimLeft (text : Text) (limit : Nat) : Nat → Nat
  | 0 => 0
  | stop + 1 =>
    if limit < stop + 1 ∧ (text[stop]?).any CodePoint.isHorizontal then trimLeft text limit stop
    else stop + 1

/-- Whether a line starts at an offset. -/
def startsLine (text : Text) : Nat → Bool
  | 0 => true
  | offset + 1 => (text[offset]?).any CodePoint.isLineEnd

/-- The offset after the line terminator that starts at `offset`, or `offset` itself. -/
def skipLineEnd (text : Text) (offset : Nat) : Nat :=
  match text[offset]?, text[offset + 1]? with
  | some c, some d =>
    if c.val == 0x0D && d.val == 0x0A then offset + 2
    else if c.isLineEnd then offset + 1 else offset
  | some c, none => if c.isLineEnd then offset + 1 else offset
  | none, _ => offset

/-- The offset at which reading goes on after a cut that was met while reading from `offset`. -/
def resume (text : Text) (offset : Nat) (cut : Range) : Nat :=
  if startsLine text (trimLeft text offset cut.start) then skipLineEnd text cut.stop else cut.stop

/-- What remains of `text` from `offset` on, given the cuts that follow. -/
def remains (text : Text) (offset : Nat) : List Range → Text
  | [] => text.drop offset
  | cut :: cuts =>
    text.slice offset (trimLeft text offset cut.start) ++
      remains text (resume text offset cut) cuts

/-- What remains of a text after its cuts. -/
def emit (text : Text) (cuts : Cuts) : Text :=
  if cuts.isEmpty then text else remains text 0 cuts.toList

end GuardedText.Cut
