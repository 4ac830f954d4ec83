import GuardedText.Text.Class

/-
  Lines and positions. A line ends at LF, CR, CR LF, LS or PS. `lineStarts` lists the offsets at
  which lines begin, `Position.locate` finds the line and column of an offset among them.
-/

namespace GuardedText

/-- A place in a text: lines count from one, columns from zero. -/
structure Position where
  /-- Line, from one. -/
  line : Int
  /-- Column, from zero. -/
  column : Int
  deriving DecidableEq, Repr

namespace Text

/-- What follows the line terminator at the start of `s`. -/
def afterLineEnd? : Text → Option Text
  | [] => none
  | c :: s =>
    if c.isLineEnd then
      (match s with
       | d :: rest => if c.val == 0x0D && d.val == 0x0A then some rest else some s
       | [] => some s)
    else none

/-- The offsets just after the line terminators of a text that begins at `offset`. -/
def lineEnds (offset : Nat) : Text → List Nat
  | [] => []
  | [c] => if c.isLineEnd then [offset + 1] else []
  | c :: d :: s =>
    if c.isLineEnd then
      (if c.val == 0x0D && d.val == 0x0A then (offset + 2) :: lineEnds (offset + 2) s
       else (offset + 1) :: lineEnds (offset + 1) (d :: s))
    else lineEnds (offset + 1) (d :: s)

/-- The offsets at which the lines of a text begin. -/
def lineStarts (s : Text) : List Nat := 0 :: lineEnds 0 s

/-- The lines of a text without their terminators; `line` holds the open line, last code point
first. -/
def linesGo (line : Text) : Text → List Text
  | [] => [line.reverse]
  | [c] => if c.isLineEnd then [line.reverse, []] else [(c :: line).reverse]
  | c :: d :: s =>
    if c.isLineEnd then
      (if c.val == 0x0D && d.val == 0x0A then line.reverse :: linesGo [] s
       else line.reverse :: linesGo [] (d :: s))
    else linesGo (c :: line) (d :: s)

/-- The lines of a text without their terminators. -/
def lines (s : Text) : List Text := linesGo [] s

end Text

namespace Position

/-- The line and column of an offset, given the offsets at which lines begin. An offset before
the text is on line 0, its column counted from the last line start. -/
def locate (starts : List Nat) (offset : Int) : Position :=
  let before := starts.filter fun (s : Nat) => decide ((s : Int) ≤ offset)
  { line := before.length
    column := offset - (((before.getLast?).or starts.getLast?).getD 0 : Nat) }

end Position

end GuardedText
