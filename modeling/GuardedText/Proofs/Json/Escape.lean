import Mathlib.Tactic.FinCases
import Mathlib.Tactic.IntervalCases
import GuardedText.Json.Reader
import GuardedText.Proofs.Table

/-
  How the code points of a string are spelled in JSON. Quotes, backslashes and some control
  characters have an escape of one letter, the other control characters are spelled as units of four
  hexadecimal digits, and every other code point stands for itself (`Json.escape_eq`).
-/

namespace GuardedText.Json

/-- The code points that have an escape of one letter, and the letter. -/
def letters : List (CodePoint × CodePoint) :=
  [('"', '"'), ('\\', '\\'), (0x0A, 'n'), (0x0D, 'r'), (0x09, 't'), (0x08, 'b'), (0x0C, 'f')]

/-- The spelling of a code point in a string that is not confined to ASCII. -/
def spelling (c : CodePoint) : Text :=
  match Table.lookup? c letters with
  | some d => [CodePoint.ofChar '\\', d]
  | none => if c.val < 0x20 then unitEscape c.val else [c]

theorem escape_eq (c : CodePoint) : escape false c = spelling c := by
  by_cases hmem : c ∈ Table.keys letters
  · fin_cases hmem <;> rfl
  · have hne {d : CodePoint} (hd : d ∈ Table.keys letters) : c.val ≠ d.val :=
      fun h => hmem (Fin.ext h ▸ hd)
    have hspelling : spelling c = if c.val < 0x20 then unitEscape c.val else [c] := by
      rw [spelling, Table.lookup?_eq_none.2 hmem]
    have hletters : c.val ≠ 0x22 ∧ c.val ≠ 0x5C ∧ c.val ≠ 0x0A ∧ c.val ≠ 0x0D ∧ c.val ≠ 0x09 ∧
        c.val ≠ 0x08 ∧ c.val ≠ 0x0C :=
      ⟨hne (d := '"') (by decide), hne (d := '\\') (by decide), hne (d := 0x0A) (by decide),
        hne (d := 0x0D) (by decide), hne (d := 0x09) (by decide), hne (d := 0x08) (by decide),
        hne (d := 0x0C) (by decide)⟩
    rw [hspelling]
    simp [escape, hletters]

/-- The ways in which a code point can be spelled. -/
inductive Escaped (c : CodePoint) : Text → Prop where
  | plain : 0x20 ≤ c.val → c.val ≠ 0x22 → c.val ≠ 0x5C → Escaped c [c]
  | letter {d : CodePoint} : (c, d) ∈ letters → Escaped c [CodePoint.ofChar '\\', d]
  | unit : c.val < 0x20 → Escaped c (unitEscape c.val)

theorem escaped (c : CodePoint) : Escaped c (escape false c) := by
  rw [escape_eq, spelling]
  cases hd : Table.lookup? c letters with
  | some d =>
    obtain ⟨t, u, ht, -⟩ := Table.exists_of_lookup? hd
    exact .letter (ht ▸ List.mem_append_right t List.mem_cons_self)
  | none =>
    rw [Table.lookup?_eq_none] at hd
    dsimp only
    split_ifs with hcontrol
    · exact .unit hcontrol
    · refine .plain (Nat.le_of_not_lt hcontrol) (fun h => hd ?_) (fun h => hd ?_)
      · obtain rfl : c = 0x22 := Fin.ext h
        decide
      · obtain rfl : c = 0x5C := Fin.ext h
        decide

/-! ## Units -/

/-- The digits of a unit and their values. -/
theorem hexUnit_digits (n : Nat) :
    List.Forall₂ (fun d v => CodePoint.hexValue? d = some v) (hexUnit n)
      [n / 4096 % 16, n / 256 % 16, n / 16 % 16, n % 16] := by
  have digit (m : Nat) : CodePoint.hexValue? (if m % 16 < 10 then Fin.ofNat 0x110000 (0x30 + m % 16)
      else Fin.ofNat 0x110000 (0x61 + m % 16 - 10)) = some (m % 16) := by
    have hm : m % 16 < 16 := Nat.mod_lt _ (by decide)
    interval_cases m % 16 <;> rfl
  exact .cons (digit _) (.cons (digit _) (.cons (digit _) (.cons (digit _) .nil)))

theorem unit_value {n : Nat} (h : n < 0x10000) :
    ((n / 4096 % 16 * 16 + n / 256 % 16) * 16 + n / 16 % 16) * 16 + n % 16 = n := by
  omega

end GuardedText.Json
