import GuardedText.Proofs.Number.Remainder
import GuardedText.Proofs.Value.Bitwise

/-
  Arithmetic of integers. Sums, differences, products and equality are those of integers of any
  size. The other operators pass through doubles: an order is that of the integers, but fails when
  one of them is too large for a double, and a remainder is that of the doubles nearest to the
  operands, so it is right when the operands are doubles themselves (`Store.binary_integers`).
-/

namespace GuardedText

open Double (Fits IsExact near?)

namespace Num

theorem isNaN_int (a : Int) :
    (Num.int a).isNaN = if Fits a then .ok false else .error .overflow := by
  rcases Double.ofInt?_cases a with ⟨hfits, x, k, hx, hsigned, -⟩ | ⟨hlarge, hnone⟩
  · rw [if_pos hfits, isNaN, toFloat_int hx]
    exact congrArg Except.ok hsigned.isNaN
  · rw [if_neg hlarge, isNaN, toFloat_int_large hnone]
    rfl

theorem equal_int (a b : Int) : (Num.int a).equal (.int b) = decide (a = b) := by
  rw [Bool.eq_iff_iff, decide_eq_true_iff, equal, compare?, beq_iff_eq, Option.some.injEq,
    Int.compare_eq_eq]

end Num

namespace Store

variable (s : Store) (a b : Int)

/-- An order of integers, unless one of them is too large for a double. -/
theorem ordered_int (texts : Text → Text → Bool) (accepts : Ordering → Bool) :
    s.ordered texts accepts (.num (.int a)) (.num (.int b)) =
      if Fits a ∧ Fits b then .ok (accepts (compare a b)) else .error .overflow := by
  change (do
    if ← (Num.int a).isNaN then return false
    if ← (Num.int b).isNaN then return false
    return accepts (compare a b) : Except Fault Bool) = _
  rw [Num.isNaN_int, Num.isNaN_int]
  by_cases ha : Fits a
  · by_cases hb : Fits b
    · rw [if_pos ha, if_pos hb, if_pos ⟨ha, hb⟩]
      rfl
    · rw [if_pos ha, if_neg hb, if_neg (not_and_of_not_right (Fits a) hb)]
      rfl
  · rw [if_neg ha, if_neg (not_and_of_not_left (Fits b) ha)]
    rfl

/-- The remainder of integers is that of the doubles nearest to them. -/
theorem rem_near {b : Int} (hb : b ≠ 0) :
    s.binaryNamed "%" (.num (.int a)) (.num (.int b)) =
      match near? a, near? b with
      | some m, some n => .ok (.num (.int (m.tmod n)))
      | _, _ => .error .overflow := by
  refine (s.binaryNamed_symbol .rem _ _).trans ?_
  change (do return .num (← (Num.int a).rem (.int b)) : Except Fault Value) = _
  rw [Num.rem_int hb]
  cases near? a with
  | none => rfl
  | some m => cases near? b <;> rfl

theorem rem_exact {b : Int} (hb : b ≠ 0) (ha : IsExact a) (hb' : IsExact b) :
    s.binaryNamed "%" (.num (.int a)) (.num (.int b)) = .ok (.num (.int (a.tmod b))) := by
  rw [s.rem_near a hb, Double.near?_of_isExact ha, Double.near?_of_isExact hb']

/-- Operators on integers. -/
theorem binary_integers :
    let x : Value := .num (.int a)
    let y : Value := .num (.int b)
    let order (holds : Bool) : Except Fault Value :=
      if Fits a ∧ Fits b then .ok (.bool holds) else .error .overflow
    s.binaryNamed "+" x y = .ok (.num (.int (a + b))) ∧
      s.binaryNamed "-" x y = .ok (.num (.int (a - b))) ∧
      s.binaryNamed "*" x y = .ok (.num (.int (a * b))) ∧
      s.binaryNamed "===" x y = .ok (.bool (decide (a = b))) ∧
      s.binaryNamed "==" x y = .ok (.bool (decide (a = b))) ∧
      s.binaryNamed "<" x y = order (decide (a < b)) ∧
      s.binaryNamed ">" x y = order (decide (a > b)) ∧
      s.binaryNamed "<=" x y = order (decide (a ≤ b)) ∧
      s.binaryNamed ">=" x y = order (decide (a ≥ b)) ∧
      (b ≠ 0 → s.binaryNamed "%" x y =
        match near? a, near? b with
        | some m, some n => .ok (.num (.int (m.tmod n)))
        | _, _ => .error .overflow) ∧
      (b ≠ 0 → IsExact a → IsExact b → ∃ r, s.binaryNamed "%" x y = .ok (.num (.int r)) ∧
        |r| < |b| ∧ b ∣ a - r ∧ (r = 0 ∨ r.sign = a.sign)) := by
  intro x y order
  have hordered (texts : Text → Text → Bool) {accepts : Ordering → Bool} {holds : Bool}
      (h : accepts (compare a b) = holds) :
      (do return .bool (← s.ordered texts accepts x y) : Except Fault Value) = order holds := by
    rw [ordered_int, h]
    by_cases hfits : Fits a ∧ Fits b
    · rw [if_pos hfits]
      exact (if_pos hfits).symm
    · rw [if_neg hfits]
      exact (if_neg hfits).symm
  refine ⟨s.binaryNamed_symbol .add x y, s.binaryNamed_symbol .sub x y,
    s.binaryNamed_symbol .mul x y, ?_, ?_, ?_, ?_, ?_, ?_, s.rem_near a, fun hb ha hb' => ?_⟩
  · refine (s.binaryNamed_symbol .strictEq x y).trans ?_
    rw [← Num.equal_int]
    rfl
  · refine (s.binaryNamed_symbol .looseEq x y).trans ?_
    rw [binary, looseEquals_settle, ← Num.equal_int]
    rfl
  · refine (s.binaryNamed_symbol .less x y).trans (hordered _ ?_)
    rw [Bool.eq_iff_iff, beq_iff_eq, decide_eq_true_iff, Int.compare_eq_lt]
  · refine (s.binaryNamed_symbol .greater x y).trans (hordered _ ?_)
    rw [Bool.eq_iff_iff, beq_iff_eq, decide_eq_true_iff, Int.compare_eq_gt]
  · refine (s.binaryNamed_symbol .lessEq x y).trans (hordered _ ?_)
    rw [Bool.eq_iff_iff, bne_iff_ne, decide_eq_true_iff, Ne, Int.compare_eq_gt, Int.not_lt]
  · refine (s.binaryNamed_symbol .greaterEq x y).trans (hordered _ ?_)
    rw [Bool.eq_iff_iff, bne_iff_ne, decide_eq_true_iff, Ne, Int.compare_eq_lt, Int.not_lt]
  · refine ⟨a.tmod b, s.rem_exact a hb ha hb', ?_, Int.dvd_self_sub_tmod, ?_⟩
    · rw [Int.abs_eq_natAbs, Int.abs_eq_natAbs, Int.natAbs_tmod]
      exact_mod_cast Nat.mod_lt _ (Int.natAbs_pos.2 hb)
    · rw [Int.sign_tmod, ← Int.dvd_iff_tmod_eq_zero]
      split_ifs with h
      · exact .inl h
      · exact .inr rfl

/-- Integers of 61 and 57 binary digits, most of which are zeros at the end. -/
theorem binary_integers_wide :
    let a : Int := -(2 ^ 60 + 2 ^ 10)
    let b : Int := 3 * 2 ^ 55
    b ≠ 0 ∧ IsExact a ∧ IsExact b ∧
      Store.binaryNamed #[] "*" (.num (.int a)) (.num (.int b)) = .ok (.num (.int (a * b))) ∧
      Store.binaryNamed #[] "<" (.num (.int a)) (.num (.int b)) = .ok (.bool true) ∧
      ∃ r, Store.binaryNamed #[] "%" (.num (.int a)) (.num (.int b)) = .ok (.num (.int r)) ∧
        |r| < |b| ∧ b ∣ a - r ∧ (r = 0 ∨ r.sign = a.sign) := by
  intro a b
  have hb : b ≠ 0 := by decide
  have ha : IsExact a := ⟨2 ^ 50 + 1, 10, by decide, by decide, by decide⟩
  have hb' : IsExact b := ⟨3, 55, by decide, by decide, by decide⟩
  obtain ⟨-, -, hmul, -, -, hless, -, -, -, -, hrem⟩ := binary_integers #[] a b
  have hfits : Fits a ∧ Fits b := by decide +kernel
  exact ⟨hb, ha, hb', hmul, hless.trans (if_pos hfits), hrem hb ha hb'⟩

/-- The remainder of 2^53 + 1 and 2 is zero though 2 does not divide it, and 2^1024 is in no order
with 1. -/
theorem binary_integers_rounded :
    Store.binaryNamed #[] "%" (.num (.int 9007199254740993)) (.num (.int 2)) =
        .ok (.num (.int 0)) ∧
      ¬ (2 : Int) ∣ 9007199254740993 - 0 ∧
      Store.binaryNamed #[] ">" (.num (.int (twoTo 1024))) (.num (.int 1)) = .error .overflow := by
  have hnear : near? 9007199254740993 = some 9007199254740992 := by
    have hexact : IsExact 9007199254740992 := ⟨1, 53, by decide, by decide, by decide⟩
    have hbits : Double.nearestBits? 9007199254740993 1 =
        Double.nearestBits? 9007199254740992 1 := by decide
    refine Eq.trans ?_ (Double.near?_of_isExact hexact)
    exact congrArg (fun bits => (bits.map (Double.withSign false)).bind Double.truncate?) hbits
  have htwo : IsExact 2 := ⟨1, 1, by decide, by decide, by decide⟩
  refine ⟨?_, by decide, ?_⟩
  · rw [rem_near _ _ (by decide), hnear, Double.near?_of_isExact htwo]
    rfl
  · change (do return .bool (← Store.ordered #[] _ (· == .gt) _ _) : Except Fault Value) = _
    rw [ordered_int, if_neg (by decide +kernel)]
    rfl

end Store

end GuardedText
