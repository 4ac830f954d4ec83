import GuardedText.Text.Class
import GuardedText.Text.CaseTable

/-
  Lower and upper case of a text. The mappings are the full ones, so one code point may become
  several, and a capital sigma at the end of a word becomes the final small sigma.
-/

namespace GuardedText.Text

/-- The image of a code point under runs and expansions; a code point in neither stays. -/
def mapCase (runs : List (Nat × Nat × Nat × Int)) (expansions : List (Nat × List Nat))
    (c : CodePoint) : Text :=
  match expansions.find? fun e => e.1 == c.val with
  | some (_, image) => image.map (Fin.ofNat 0x110000)
  | none =>
    match runs.find? fun (first, last, step, _) =>
        decide (first ≤ c.val) && decide (c.val ≤ last) && (c.val - first) % step == 0 with
    | some (_, _, _, shift) => [Fin.ofNat 0x110000 (c.val + shift).toNat]
    | none => [c]

/-- The upper-case form of a code point. -/
def upperOf (c : CodePoint) : Text :=
  if c.val < 0x80 then
    (if c.between 'a' 'z' then [Fin.ofNat 0x110000 (c.val - 32)] else [c])
  else mapCase upperRuns upperExpansions c

/-- The lower-case form of a code point, away from any word. -/
def lowerOf (c : CodePoint) : Text :=
  if c.val < 0x80 then [c.toAsciiLower] else mapCase lowerRuns lowerExpansions c

/-- Whether the nearest code point that a word does not pass through is a cased letter. -/
def meetsCased (s : Text) : Bool :=
  match s.dropWhile fun c => inRanges caseIgnorableRanges c.val with
  | [] => false
  | c :: _ => inRanges casedRanges c.val

/-- The upper-case form of a text. -/
def upper (s : Text) : Text := s.flatMap upperOf

/-- The lower-case form of `s` after the code points of `before`, nearest first. -/
def lowerAfter (before : Text) : Text → Text
  | [] => []
  | c :: s =>
    let image :=
      if c.val == 0x3A3 then
        (if meetsCased before && !meetsCased s then [0x3C2] else [0x3C3])
      else lowerOf c
    image ++ lowerAfter (c :: before) s

/-- The lower-case form of a text. -/
def lower (s : Text) : Text := lowerAfter [] s

end GuardedText.Text
