import GuardedText.Number.Basic
import GuardedText.Proofs.Number.Nearest

/-
  Integers as doubles and their remainders. An integer has a nearest double unless it is too large
  for one (`ofInt?_cases`); the double is the integer itself if that has at most 53 binary digits
  before the zeros at its end (`near?_of_isExact`). The remainder of two doubles that are integers
  is exact, so the remainder of two integers is that of the doubles nearest to them
  (`Num.rem_int`).
-/

namespace GuardedText

namespace Double

/-! ## Numbers that are doubles -/

/-- A number of at most 53 binary digits times a power of two is its own nearest double. -/
theorem exists_nearest {r : Nat} {e : Int} (h : r = 0 ∨ r < 2 ^ 53 ∧ -1074 ≤ e ∧ e ≤ 971)
    (negative : Bool) : ∃ x m q, nearest? negative (fraction r e).1 (fraction r e).2 = some x ∧
      decode x = .finite negative m q ∧ (m * 2 ^ q : ℚ) = r * 2 ^ e := by
  rcases Nat.eq_zero_or_pos r with rfl | hpos
  · obtain ⟨m, q, hdecode, hbits, hparts⟩ :=
      exists_decode_withSign (show 0 < 2047 * twoTo 52 by decide) negative
    refine ⟨withSign negative 0, m, q, ?_, hdecode, ?_⟩
    · have hnum : (fraction 0 e).1 = 0 := by
        cases e with
        | ofNat k => exact Nat.zero_mul _
        | negSucc k => rfl
      rw [hnum]
      rfl
    · rcases hparts with rfl | hparts
      · simp
      · exact absurd hbits hparts.bitsOf_pos.ne'
  · obtain ⟨hr, hlow, hhigh⟩ := h.resolve_left hpos.ne'
    obtain ⟨m, q, hparts, heq⟩ := exists_parts hpos hr hlow hhigh
    have hnum : 0 < (fraction r e).1 := by
      cases e with
      | ofNat k => exact Nat.mul_pos hpos (Nat.two_pow_pos k)
      | negSucc k => exact hpos
    refine ⟨withSign negative (bitsOf m q), m, q, ?_, hparts.decode_withSign negative, heq⟩
    rw [nearest?, nearestBits?_self hparts hnum (fraction_pos r e)
      ((fraction_eq r e).trans heq.symm)]
    rfl

/-! ## Doubles that are integers -/

/-- An integer from its sign and the natural number behind it. -/
def signed (negative : Bool) (k : Nat) : Int := if negative then -(k : Int) else k

theorem signed_natAbs (n : Int) : signed (decide (n < 0)) n.natAbs = n := by
  unfold signed
  split_ifs with h
  · have := of_decide_eq_true h
    omega
  · rw [decide_eq_true_iff] at h
    omega

theorem tmod_signed (negative negative' : Bool) (k k' : Nat) :
    (signed negative k).tmod (signed negative' k') = signed negative (k % k') := by
  cases negative <;> cases negative' <;>
    simp [signed, Int.neg_tmod, Int.tmod_neg, ← Int.ofNat_tmod]

/-- What it is for a double to be the natural number `k` with a sign. -/
def IsSigned (negative : Bool) (k : Nat) (x : Float) : Prop :=
  ∃ m q, decode x = .finite negative m q ∧ (m * 2 ^ q : ℚ) = k

section

variable {negative negative' : Bool} {k k' : Nat} {x y : Float}

theorem IsSigned.truncate? (h : IsSigned negative k x) :
    Double.truncate? x = some (signed negative k) := by
  obtain ⟨m, q, hdecode, hvalue⟩ := h
  exact truncate?_of_natural hdecode hvalue

theorem IsSigned.isNaN (h : IsSigned negative k x) : Double.isNaN x = false := by
  obtain ⟨m, q, hdecode, -⟩ := h
  rw [Double.isNaN, hdecode]
  rfl

theorem IsSigned.isInfinite (h : IsSigned negative k x) : Double.isInfinite x = false := by
  obtain ⟨m, q, hdecode, -⟩ := h
  rw [Double.isInfinite, hdecode]

/-- Remainders of numbers on one grid are those of the places on the grid. -/
theorem mod_grid {a b : Nat} {e : Int} (ha : (a * 2 ^ e : ℚ) = k) (hb : (b * 2 ^ e : ℚ) = k') :
    ((a % b : Nat) * 2 ^ e : ℚ) = (k % k' : Nat) := by
  cases e with
  | ofNat t =>
    rw [Int.ofNat_eq_natCast, zpow_natCast] at ha hb ⊢
    have ha' : a * 2 ^ t = k := by exact_mod_cast ha
    have hb' : b * 2 ^ t = k' := by exact_mod_cast hb
    rw [← ha', ← hb', Nat.mul_mod_mul_right]
    push_cast
    rfl
  | negSucc t =>
    have hpos : (2 ^ (t + 1) : ℚ) ≠ 0 := by positivity
    rw [zpow_negSucc, ← div_eq_mul_inv, div_eq_iff hpos] at ha hb ⊢
    have ha' : a = k * 2 ^ (t + 1) := by exact_mod_cast ha
    have hb' : b = k' * 2 ^ (t + 1) := by exact_mod_cast hb
    rw [ha', hb', Nat.mul_mod_mul_right]
    push_cast
    rfl

/-- Bringing a mantissa to a smaller exponent keeps the value. -/
theorem value_scaled {m : Nat} {q e : Int} (h : e ≤ q) :
    ((m * twoTo (q - e).toNat : Nat) * 2 ^ e : ℚ) = m * 2 ^ q := by
  rw [twoTo_eq]
  push_cast
  rw [mul_assoc, ← zpow_natCast, Int.toNat_of_nonneg (by omega), ← zpow_add₀ two_ne_zero,
    sub_add_cancel]

/-- The remainder of two mantissas on one grid is a mantissa: it is at most the dividend and below the
divisor, and one of these is a mantissa itself. -/
theorem mod_scaled_lt {m m' : Nat} {q q' : Int} (h : IsParts m q) (h' : IsParts m' q') :
    m * twoTo (q - min q q').toNat % (m' * twoTo (q' - min q q').toNat) < 2 ^ 53 := by
  rcases le_total q q' with hle | hle
  · rw [min_eq_left hle, sub_self]
    exact (Nat.mod_le _ _).trans_lt (by simpa [twoTo] using h.lt)
  · rw [min_eq_right hle, sub_self]
    refine (Nat.mod_lt _ ?_).trans_le ?_
    · simpa [twoTo] using h'.pos
    · simpa [twoTo] using h'.lt.le

/-- The remainder of doubles that are integers is exact and has the sign of the dividend. -/
theorem IsSigned.exists_remainder? (hx : IsSigned negative k x) (hy : IsSigned negative' k' y)
    (hk' : k' ≠ 0) : ∃ r, remainder? x y = some r ∧ IsSigned negative (k % k') r := by
  obtain ⟨m, q, hx, hm⟩ := hx
  obtain ⟨m', q', hy, hm'⟩ := hy
  have hne : m' ≠ 0 := by
    rintro rfl
    rw [Nat.cast_zero, zero_mul] at hm'
    exact hk' (by exact_mod_cast hm'.symm)
  have hparts' := (decode_eq hy).1.resolve_left hne
  have hgrid := mod_grid ((value_scaled (min_le_left q q')).trans hm)
    ((value_scaled (min_le_right q q')).trans hm')
  have hsmall : m * twoTo (q - min q q').toNat % (m' * twoTo (q' - min q q').toNat) = 0 ∨
      m * twoTo (q - min q q').toNat % (m' * twoTo (q' - min q q').toNat) < 2 ^ 53 ∧
        -1074 ≤ min q q' ∧ min q q' ≤ 971 := by
    rcases (decode_eq hx).1 with rfl | hparts
    · exact .inl (by rw [Nat.zero_mul, Nat.zero_mod])
    · exact .inr ⟨mod_scaled_lt hparts hparts', le_min hparts.low hparts'.low,
        (min_le_left _ _).trans hparts.high⟩
  obtain ⟨r, n, e, hr, hdecode, hvalue⟩ := exists_nearest hsmall negative
  refine ⟨r, ?_, n, e, hdecode, hvalue.trans hgrid⟩
  simp only [remainder?, hx, hy, if_neg hne]
  exact hr

end

/-! ## Doubles nearest to integers -/

/-- Integers that are not too large for a double. -/
def Fits (n : Int) : Prop := n.natAbs < limit

instance : DecidablePred Fits := fun n => inferInstanceAs (Decidable (n.natAbs < limit))

/-- Integers of at most 53 binary digits before the zeros at their end, which are doubles. -/
def IsExact (n : Int) : Prop := ∃ c k : Nat, c < 2 ^ 53 ∧ k ≤ 971 ∧ n.natAbs = c * 2 ^ k

/-- The integer that is the double nearest to an integer; none if that is too large for a double. -/
def near? (n : Int) : Option Int := (ofInt? n).bind truncate?

/-- An integer has a nearest double, an integer of the same sign, unless it is too large. -/
theorem ofInt?_cases (n : Int) :
    (Fits n ∧ ∃ x k, ofInt? n = some x ∧ IsSigned (decide (n < 0)) k x ∧ (n ≠ 0 → k ≠ 0)) ∨
      (¬ Fits n ∧ ofInt? n = none) := by
  rcases eq_or_ne n 0 with rfl | hn
  · obtain ⟨x, m, q, hx, hdecode, hvalue⟩ := exists_nearest (r := 0) (e := 0) (.inl rfl) false
    refine .inl ⟨by decide +kernel, x, 0, hx, ⟨m, q, hdecode, ?_⟩, fun h => (h rfl).elim⟩
    rw [hvalue, Nat.cast_zero, zero_mul]
  · rcases nearestBits?_natural (Int.natAbs_pos.2 hn) with
      ⟨hfits, m, q, hparts, hbits, k, hk, -⟩ | ⟨hlarge, hbits⟩
    · refine .inl ⟨hfits, withSign (decide (n < 0)) (bitsOf m q), k, ?_,
        ⟨m, q, hparts.decode_withSign _, hk⟩, fun _ => ?_⟩
      · rw [ofInt?, nearest?, hbits]
        rfl
      · rintro rfl
        have hpos : (0 : ℚ) < m * 2 ^ q :=
          mul_pos (by exact_mod_cast hparts.pos) (zpow_pos two_pos q)
        rw [hk, Nat.cast_zero] at hpos
        exact lt_irrefl _ hpos
    · refine .inr ⟨hlarge, ?_⟩
      rw [ofInt?, nearest?, hbits]
      rfl

/-- An integer of at most 53 binary digits before the zeros at its end is its own nearest double. -/
theorem near?_of_isExact {n : Int} (h : IsExact n) : near? n = some n := by
  obtain ⟨c, k, hc, hk, hn⟩ := h
  obtain ⟨x, m, q, hx, hdecode, hvalue⟩ :=
    exists_nearest (r := c) (e := k) (.inr ⟨hc, by omega, by omega⟩) (decide (n < 0))
  have hint : ofInt? n = some x := by
    rw [ofInt?, hn]
    exact hx
  have hsigned : IsSigned (decide (n < 0)) n.natAbs x := by
    refine ⟨m, q, hdecode, ?_⟩
    rw [hvalue, hn, zpow_natCast]
    push_cast
    rfl
  rw [near?, hint, Option.bind_some, hsigned.truncate?, signed_natAbs]

end Double

namespace Num

open Double

theorem toFloat_int {n : Int} {x : Float} (h : ofInt? n = some x) :
    (Num.int n).toFloat = .ok x := by
  rw [toFloat, h]
  rfl

theorem toFloat_int_large {n : Int} (h : ofInt? n = none) :
    (Num.int n).toFloat = .error .overflow := by
  rw [toFloat, h]
  rfl

/-- The remainder of integers is that of the doubles nearest to them. -/
theorem rem_int {a b : Int} (hb : b ≠ 0) : (Num.int a).rem (.int b) =
    match near? a, near? b with
    | some m, some n => .ok (.int (m.tmod n))
    | _, _ => .error .overflow := by
  have hzero : (Num.int b).isZero = false := beq_eq_false_iff_ne.2 hb
  unfold rem near?
  rw [hzero]
  rcases ofInt?_cases a with ⟨-, x, k, hx, hsigned, -⟩ | ⟨-, hnone⟩
  · rw [toFloat_int hx, hx, Option.bind_some, hsigned.truncate?]
    rcases ofInt?_cases b with ⟨-, y, k', hy, hsigned', hne⟩ | ⟨-, hnone⟩
    · obtain ⟨r, hr, hrest⟩ := hsigned.exists_remainder? hsigned' (hne hb)
      rw [toFloat_int hy, hy, Option.bind_some, hsigned'.truncate?]
      change (do
        if Double.isInfinite x || Double.isNaN x then return nan
        if Double.isNaN y then return nan
        if Double.isInfinite y then return Num.int a
        return Num.int ((Double.truncate? ((Double.remainder? x y).getD Double.nan)).getD 0) :
          Except Fault Num) = _
      rw [hsigned.isInfinite, hsigned.isNaN, hsigned'.isNaN, hsigned'.isInfinite, hr,
        Option.getD_some, hrest.truncate?, ← tmod_signed]
      rfl
    · rw [toFloat_int_large hnone, hnone]
      change (do
        if Double.isInfinite x || Double.isNaN x then return nan
        throw Fault.overflow : Except Fault Num) = _
      rw [hsigned.isInfinite, hsigned.isNaN]
      rfl
  · rw [toFloat_int_large hnone, hnone]
    rfl

end Num

end GuardedText
