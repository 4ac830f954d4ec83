import GuardedText.Text.Basic

/-
  Searching and splitting. Occurrences are found from the left and never overlap.
-/

namespace GuardedText.Text

/-- The offset of the first occurrence of `part` in `s`. -/
def find? (part : Text) : Text → Option Nat
  | [] => if part.isEmpty then some 0 else none
  | c :: s =>
    if part.isPrefixOf (c :: s) then some 0 else (find? part s).map (· + 1)

/-- Whether `part` occurs in `s`. -/
def contains (s part : Text) : Bool := (find? part s).isSome

/-- The parts of `s` between the occurrences of `sep`; `skip` code points of an occurrence are
still to be passed, and `part` holds the open part, last code point first. -/
def splitGo (sep : Text) (skip : Nat) (part : Text) : Text → List Text
  | [] => [part.reverse]
  | c :: s =>
    match skip with
    | k + 1 => splitGo sep k part s
    | 0 =>
      if sep.isPrefixOf (c :: s) then part.reverse :: splitGo sep (sep.length - 1) [] s
      else splitGo sep 0 (c :: part) s

/-- The parts of `s` between the occurrences of a separator that is not empty. -/
def splitOn (s sep : Text) : List Text := splitGo sep 0 [] s

/-- `s` cut at every code point of `p`, those code points left out. -/
def splitAtEach (p : CodePoint → Bool) (s : Text) : List Text := List.splitOnP p s

end GuardedText.Text
