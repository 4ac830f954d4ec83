/-
  Text as a sequence of code points. Surrogates are code points too: a string literal may spell
  one alone, and every offset and length of this library counts code points. The functions here
  know nothing of character classes.
-/

namespace GuardedText

instance CodePoint.neZero : @NeZero Nat Zero.ofOfNat0 0x110000 := ⟨Nat.succ_ne_zero 0x10FFFF⟩

/-- A Unicode code point, surrogates included. -/
abbrev CodePoint := Fin 0x110000

/-- A text is the list of its code points. -/
abbrev Text := List CodePoint

/-- The code point of a character. -/
def CodePoint.ofChar (c : Char) : CodePoint := Fin.ofNat 0x110000 c.toNat

instance : Coe Char CodePoint := ⟨CodePoint.ofChar⟩

namespace Text

/-- The code points of a string. -/
def ofString (s : String) : Text := s.toList.map CodePoint.ofChar

instance : Coe String Text := ⟨ofString⟩

/-- What follows `lead` at the start of `s`. -/
def after? : (lead s : Text) → Option Text
  | [], s => some s
  | _ :: _, [] => none
  | a :: lead, c :: s => if a = c then after? lead s else none

/-- Whether `s` starts with `lead`. -/
def startsWith (s lead : Text) : Bool := lead.isPrefixOf s

/-- Whether `s` ends with `tail`. -/
def endsWith (s tail : Text) : Bool := tail.isSuffixOf s

/-- The first code points on which `p` holds, and the rest. -/
def span (p : CodePoint → Bool) (s : Text) : Text × Text := (s.takeWhile p, s.dropWhile p)

/-- `s` without the code points of `p` at its end. -/
def dropEndWhile (p : CodePoint → Bool) (s : Text) : Text := (s.reverse.dropWhile p).reverse

/-- `s` without the code points of `p` at either end. -/
def trimBoth (p : CodePoint → Bool) (s : Text) : Text := dropEndWhile p (s.dropWhile p)

/-- The part of `s` from offset `i` up to offset `j`. -/
def slice (s : Text) (i j : Nat) : Text := (s.drop i).take (j - i)

/-- The parts joined with `sep` between neighbours. -/
def join (sep : Text) : List Text → Text
  | [] => []
  | [t] => t
  | t :: ts => t ++ sep ++ join sep ts

/-- The decimal numeral of a natural number. -/
def ofNat (n : Nat) : Text := (Nat.toDigits 10 n).map CodePoint.ofChar

/-- The decimal numeral of an integer, with a minus sign when it is negative. -/
def ofInt : Int → Text
  | .ofNat n => ofNat n
  | .negSucc n => CodePoint.ofChar '-' :: ofNat (n + 1)

/-- Order by code point, a shorter text before its extensions. -/
def less (s t : Text) : Bool :=
  match s, t with
  | _, [] => false
  | [], _ :: _ => true
  | a :: s, b :: t => if a.val < b.val then true else if a.val = b.val then less s t else false

/-- The text as a string; a surrogate, which no string can hold, becomes the replacement
character. -/
def toString (s : Text) : String :=
  String.ofList (s.map fun c => if 0xD800 ≤ c.val ∧ c.val < 0xE000 then Char.ofNat 0xFFFD
    else Char.ofNat c.val)

theorem after?_eq_some_iff {lead s rest : Text} :
    after? lead s = some rest ↔ s = lead ++ rest := by
  induction lead generalizing s with
  | nil => simp [after?, eq_comm]
  | cons a lead ih =>
    cases s with
    | nil => simp [after?]
    | cons b s =>
      by_cases h : a = b
      · simpa [after?, h] using ih
      · simp [after?, h, Ne.symm h]

theorem takeWhile_append_dropWhile (p : CodePoint → Bool) (s : Text) :
    (span p s).1 ++ (span p s).2 = s := by
  simp [span]

end Text

end GuardedText
