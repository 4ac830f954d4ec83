import Mathlib.Tactic.ByContra
import Mathlib.Tactic.SplitIfs
import GuardedText.Text.Case

/-
  Small letters and ASCII. The lower-case form of a code point beyond ASCII starts beyond ASCII, but
  for the Kelvin sign and the capital I with a dot, which have the forms of `K` and `I`
  (`Text.smallOf_lowerOf`). In a word only the capital sigma depends on its neighbours
  (`Text.lowerAfter_cons`).
-/

namespace GuardedText

namespace Numeral

theorem ascii_of_digitValue? {c : CodePoint} (h : c.digitValue?.isSome = true) : c.val < 128 := by
  by_contra hc
  have hnot {lo hi : Char} (hhi : hi.toNat < 128) : CodePoint.between lo hi c = false := by
    simp only [CodePoint.between, Bool.and_eq_false_iff, decide_eq_false_iff_not]
    omega
  have hdigit : CodePoint.isAsciiDigit c = false := hnot (by decide)
  simp [CodePoint.digitValue?, hdigit, hnot (by decide : ('z' : Char).toNat < 128),
    hnot (by decide : ('Z' : Char).toNat < 128)] at h

/-- What holds of all ASCII characters holds of each. -/
theorem of_ascii {c : CodePoint} (hc : c.val < 128) (p : CodePoint → Bool)
    (h : ((List.range 128).all fun n => p (Fin.ofNat 0x110000 n)) = true) : p c = true := by
  have hp := List.all_eq_true.1 h c.val (List.mem_range.2 hc)
  rwa [show Fin.ofNat 0x110000 c.val = c from Fin.ofNat_val_eq_self c] at hp

end Numeral

namespace Text

/-- What a code point becomes in lower case. -/
inductive SmallOf (c : CodePoint) : Text → Prop where
  | ascii (hc : c.val < 0x80) : SmallOf c [c.toAsciiLower]
  | beyond {d : CodePoint} {image : Text} (hc : 0x80 ≤ c.val) (hd : 0x80 ≤ d.val) :
      SmallOf c (d :: image)
  | kelvin (hc : c.val = 0x212A) : SmallOf c [CodePoint.ofChar 'k']
  | dotted (hc : c.val = 0x130) : SmallOf c [CodePoint.ofChar 'i', 0x307]

/-- No run but that of the Kelvin sign leads into ASCII from beyond. -/
theorem lowerRuns_beyond : ∀ run ∈ lowerRuns, run.2.1 < 0x80 ∨ run = (0x212A, 0x212A, 1, -0x20BF) ∨
    0x80 ≤ run.1 + run.2.2.2 ∧ run.2.1 + run.2.2.2 < 0x110000 := by
  decide +kernel

theorem smallOf_lowerOf (c : CodePoint) : SmallOf c (lowerOf c) := by
  rcases Nat.lt_or_ge c.val 0x80 with hc | hc
  · rw [lowerOf, if_pos hc]
    exact .ascii hc
  rw [lowerOf, if_neg (Nat.not_lt.2 hc), mapCase]
  by_cases hdotted : c.val = 0x130
  · have hfind : lowerExpansions.find? (fun e => e.1 == c.val) = some (0x130, [0x69, 0x307]) := by
      rw [hdotted]
      rfl
    rw [hfind]
    exact .dotted hdotted
  have hfind : lowerExpansions.find? (fun e => e.1 == c.val) = none := by
    simpa [lowerExpansions] using Ne.symm hdotted
  rw [hfind]
  dsimp only
  -- Not expanded, so moved by a run or left as it is.
  split
  · next first last step shift hrun =>
    have hin := List.find?_some hrun
    simp only [Bool.and_eq_true, decide_eq_true_eq] at hin
    rcases lowerRuns_beyond _ (List.mem_of_find?_eq_some hrun) with hlast | heq | ⟨hfirst, hlast⟩
    · exact absurd (Nat.lt_of_le_of_lt hin.1.2 hlast) (Nat.not_lt.2 hc)
    · simp only [Prod.mk.injEq] at heq
      obtain ⟨rfl, rfl, rfl, rfl⟩ := heq
      have hkelvin : c.val = 0x212A := by omega
      rw [hkelvin]
      exact .kelvin hkelvin
    · refine .beyond hc ?_
      dsimp only at hfirst hlast
      rw [Fin.val_ofNat, Nat.mod_eq_of_lt (by omega)]
      omega
  · exact .beyond hc hc

/-- The first code point of a text in lower case. Without a capital sigma it does not depend on what
stands around it. -/
theorem lowerAfter_cons (before : Text) (c : CodePoint) (s : Text) :
    ∃ image, lowerAfter before (c :: s) = image ++ lowerAfter (c :: before) s ∧
      SmallOf c image ∧ (c.val ≠ 0x3A3 → image = lowerOf c) := by
  refine ⟨_, rfl, ?_, fun hc => if_neg (by simpa using hc)⟩
  split_ifs with hsigma
  · exact .beyond (by rw [beq_iff_eq.1 hsigma]; decide) (by decide)
  · exact .beyond (by rw [beq_iff_eq.1 hsigma]; decide) (by decide)
  · exact smallOf_lowerOf c

end Text

end GuardedText
