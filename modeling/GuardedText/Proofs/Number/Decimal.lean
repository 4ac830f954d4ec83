import GuardedText.Number.Decimal
import GuardedText.Proofs.Number.Nearest

/-
  Decimals that read back. The leading digit of a value is found from an estimate that is never
  too high (`leadingExponent_le`), so a decimal of 17 digits is closer to a double than half the
  way to the next one (`exists_withDigits`), and the shortest decimal of a double reads back as
  that double (`readsBack_shortest`).
-/

namespace GuardedText.Double

/-! ## Powers of ten and of two -/

/-- 59 / 196 is less than the logarithm of two. -/
theorem ten_pow_le {k l : Nat} (h : 196 * k ≤ 59 * l) : 10 ^ k ≤ 2 ^ l := by
  refine (Nat.pow_le_pow_iff_left (n := 59) (by norm_num)).1 ?_
  calc (10 ^ k) ^ 59 = (10 ^ 59) ^ k := by rw [← pow_mul, ← pow_mul, Nat.mul_comm]
    _ ≤ (2 ^ 196) ^ k := Nat.pow_le_pow_left (by norm_num) k
    _ = 2 ^ (196 * k) := (pow_mul 2 196 k).symm
    _ ≤ 2 ^ (59 * l) := Nat.pow_le_pow_right Nat.two_pos h
    _ = (2 ^ l) ^ 59 := by rw [← pow_mul, Nat.mul_comm]

/-- 28 / 93 is more than the logarithm of two. -/
theorem two_pow_le {k l : Nat} (h : 28 * l ≤ 93 * k) : 2 ^ l ≤ 10 ^ k := by
  refine (Nat.pow_le_pow_iff_left (n := 28) (by norm_num)).1 ?_
  calc (2 ^ l) ^ 28 = 2 ^ (28 * l) := by rw [← pow_mul, Nat.mul_comm]
    _ ≤ 2 ^ (93 * k) := Nat.pow_le_pow_right Nat.two_pos h
    _ = (2 ^ 93) ^ k := pow_mul 2 93 k
    _ ≤ (10 ^ 28) ^ k := Nat.pow_le_pow_left (by norm_num) k
    _ = (10 ^ k) ^ 28 := by rw [← pow_mul, ← pow_mul, Nat.mul_comm]

/-- The estimate of a decimal exponent from a binary one is not too high. -/
theorem ten_zpow_estimate {l : Int} (hlow : -1100 ≤ l) (hhigh : l ≤ 1100) :
    (10 : ℚ) ^ (l * 30103 / 100000 - 1) ≤ 2 ^ l := by
  rcases le_or_gt 0 (l * 30103 / 100000 - 1) with hpos | hneg
  · obtain ⟨k, hk⟩ := Int.eq_ofNat_of_zero_le hpos
    obtain ⟨j, rfl⟩ := Int.eq_ofNat_of_zero_le (show 0 ≤ l by omega)
    rw [hk, zpow_natCast, zpow_natCast]
    exact_mod_cast ten_pow_le (show 196 * k ≤ 59 * j by omega)
  · obtain ⟨k, hk⟩ := Int.eq_ofNat_of_zero_le (show 0 ≤ -(l * 30103 / 100000 - 1) by omega)
    rw [show l * 30103 / 100000 - 1 = -(k : ℤ) by omega, zpow_neg, zpow_natCast]
    rcases le_or_gt 0 l with hl | hl
    · have hk' : (1 : ℚ) ≤ 10 ^ k := one_le_pow₀ (by norm_num)
      exact (inv_le_one_of_one_le₀ hk').trans (one_le_zpow₀ one_le_two hl)
    · obtain ⟨j, hj⟩ := Int.eq_ofNat_of_zero_le (show 0 ≤ -l by omega)
      rw [show l = -(j : ℤ) by omega, zpow_neg, zpow_natCast]
      refine inv_anti₀ (by positivity) ?_
      exact_mod_cast two_pow_le (show 28 * j ≤ 93 * k by omega)

/-! ## The leading digit -/

section

variable {num den : Nat}

/-- The power of two below a quotient that its numerator and denominator give. -/
theorem two_zpow_le (hnum : 0 < num) (hden : 0 < den) :
    (2 : ℚ) ^ ((Nat.log2 num : ℤ) - (Nat.log2 den : ℤ) - 1) ≤ num / den := by
  have hn : 2 ^ Nat.log2 num ≤ num := Nat.log2_self_le hnum.ne'
  have hd : den ≤ 2 ^ (Nat.log2 den + 1) := Nat.lt_log2_self.le
  have hden' : (0 : ℚ) < den := by exact_mod_cast hden
  rw [le_div_iff₀ hden']
  calc (2 : ℚ) ^ ((Nat.log2 num : ℤ) - (Nat.log2 den : ℤ) - 1) * den
      ≤ 2 ^ ((Nat.log2 num : ℤ) - (Nat.log2 den : ℤ) - 1) * 2 ^ ((Nat.log2 den + 1 : Nat) : ℤ) := by
        rw [zpow_natCast]
        gcongr
        exact_mod_cast hd
    _ = 2 ^ (Nat.log2 num : ℤ) := by
        rw [← zpow_add₀ two_ne_zero]
        congr 1
        push_cast
        ring
    _ ≤ num := by
        rw [zpow_natCast]
        exact_mod_cast hn

/-- Whether a quotient reaches a power of ten. -/
def reaches (num den : Nat) : Int → Bool
  | .ofNat k => decide (den * tenTo k ≤ num)
  | .negSucc k => decide (den ≤ num * tenTo (k + 1))

theorem ten_zpow_le_of_reaches (hden : 0 < den) {e : Int} (h : reaches num den e = true) :
    (10 : ℚ) ^ e ≤ num / den := by
  have hden' : (0 : ℚ) < den := by exact_mod_cast hden
  cases e with
  | ofNat k =>
    rw [reaches, decide_eq_true_eq, tenTo_eq] at h
    rw [Int.ofNat_eq_natCast, zpow_natCast, le_div_iff₀ hden', mul_comm]
    exact_mod_cast h
  | negSucc k =>
    rw [reaches, decide_eq_true_eq, tenTo_eq] at h
    rw [zpow_negSucc, le_div_iff₀ hden', inv_mul_le_iff₀ (by positivity), mul_comm]
    exact_mod_cast h

theorem leadingExponent_unfold (num den : Nat) : leadingExponent num den =
    (let estimate : Int :=
      (((Nat.log2 num : Int) - (Nat.log2 den : Int) - 1) * 30103) / 100000 - 1
    if reaches num den (estimate + 3) then estimate + 3
    else if reaches num den (estimate + 2) then estimate + 2
    else if reaches num den (estimate + 1) then estimate + 1
    else estimate) := rfl

/-- The exponent of the leading digit gives a power of ten that is not above the value. -/
theorem leadingExponent_le (hnum : 0 < num) (hden : 0 < den) (hn : Nat.log2 num ≤ 1050)
    (hd : Nat.log2 den ≤ 1090) : (10 : ℚ) ^ leadingExponent num den ≤ num / den := by
  rw [leadingExponent_unfold]
  dsimp only
  split_ifs with h h h
  · exact ten_zpow_le_of_reaches hden h
  · exact ten_zpow_le_of_reaches hden h
  · exact ten_zpow_le_of_reaches hden h
  · exact (ten_zpow_estimate (by omega) (by omega)).trans (two_zpow_le hnum hden)

end

/-! ## Decimals and their values -/

namespace Decimal

/-- The number that a decimal writes. -/
def value (d : Decimal) : ℚ := d.digits * 10 ^ d.exponent

theorem fraction_pos (d : Decimal) : 0 < d.fraction.2 := by
  cases d with
  | mk digits exponent =>
    cases exponent with
    | ofNat k => exact Nat.one_pos
    | negSucc k => exact Nat.pow_pos (by norm_num)

theorem fraction_eq (d : Decimal) : (d.fraction.1 / d.fraction.2 : ℚ) = d.value := by
  cases d with
  | mk digits exponent =>
    cases exponent with
    | ofNat k => simp [fraction, value, tenTo_eq]
    | negSucc k => simp [fraction, value, tenTo_eq, zpow_negSucc, div_eq_mul_inv]

theorem fraction_num_pos {d : Decimal} (h : 0 < d.value) : 0 < d.fraction.1 := by
  rw [← fraction_eq] at h
  refine Nat.pos_of_ne_zero fun h0 => ?_
  rw [h0] at h
  simp at h

theorem trim_value (fuel : Nat) (d : Decimal) : (trim fuel d).value = d.value := by
  induction fuel generalizing d with
  | zero => rfl
  | succ fuel ih =>
    rw [trim]
    split_ifs with h
    · have hdigits : (d.digits : ℚ) = (d.digits / 10 : Nat) * 10 := by
        exact_mod_cast (Nat.div_mul_cancel (Nat.dvd_of_mod_eq_zero h.2)).symm
      rw [ih, value, value, hdigits]
      dsimp only
      rw [zpow_add_one₀ (by norm_num), mul_assoc, mul_comm (10 : ℚ)]
    · rfl

end Decimal

theorem readsBack_iff {d : Decimal} {bits : Nat} :
    readsBack bits d = true ↔ nearestBits? d.fraction.1 d.fraction.2 = some bits := beq_iff_eq

/-- A decimal that reads back is positive. -/
theorem value_pos_of_readsBack {d : Decimal} {bits : Nat} (hbits : bits ≠ 0)
    (h : readsBack bits d = true) : 0 < d.value := by
  rw [← Decimal.fraction_eq]
  refine div_pos ?_ (by exact_mod_cast d.fraction_pos)
  refine Nat.cast_pos.2 (Nat.pos_of_ne_zero fun h0 => hbits ?_)
  rw [readsBack_iff, h0] at h
  simpa [nearestBits?] using h.symm

/-- Decimals of the same value read back as the same double. -/
theorem readsBack_of_value_eq {d d' : Decimal} {bits : Nat} (hbits : bits ≠ 0)
    (heq : d.value = d'.value) (h : readsBack bits d = true) : readsBack bits d' = true := by
  have hpos := value_pos_of_readsBack hbits h
  have hcongr := nearestBits?_congr (Decimal.fraction_num_pos hpos) d.fraction_pos
    (Decimal.fraction_num_pos (heq ▸ hpos)) d'.fraction_pos
    (by rw [Decimal.fraction_eq, Decimal.fraction_eq, heq])
  rw [readsBack_iff] at h ⊢
  rwa [← hcongr]

/-! ## Seventeen digits -/

/-- The grid of decimals with a given exponent, as a numerator and a denominator. -/
def gridded (num den : Nat) : Int → Nat × Nat
  | .ofNat k => (num, den * tenTo k)
  | .negSucc k => (num * tenTo (k + 1), den)

section

variable {num den : Nat}

theorem gridded_pos (num : Nat) (hden : 0 < den) (e : Int) : 0 < (gridded num den e).2 := by
  cases e with
  | ofNat k => exact Nat.mul_pos hden (Nat.pow_pos (by norm_num))
  | negSucc k => exact hden

theorem gridded_eq (num den : Nat) (e : Int) :
    ((gridded num den e).1 / (gridded num den e).2 : ℚ) * 10 ^ e = num / den := by
  cases e with
  | ofNat k =>
    simp only [gridded, tenTo_eq, Int.ofNat_eq_natCast, zpow_natCast]
    push_cast
    field_simp
  | negSucc k =>
    simp only [gridded, tenTo_eq, zpow_negSucc]
    push_cast
    field_simp

/-- The decimal on a grid that is nearest to a value. -/
def nearestAt (num den : Nat) (e : Int) : Decimal :=
  ⟨roundDiv (gridded num den e).1 (gridded num den e).2, e⟩

/-- The nearest decimal on a grid is at most half a step away. -/
theorem near_value (num : Nat) (hden : 0 < den) (e : Int) :
    (nearestAt num den e).value ≤ num / den + 10 ^ e / 2 ∧
      num / den ≤ (nearestAt num den e).value + 10 ^ e / 2 := by
  have hb := gridded_pos num hden e
  have heq := gridded_eq num den e
  rw [nearestAt, Decimal.value]
  dsimp only
  generalize gridded num den e = g at hb heq ⊢
  obtain ⟨hlow, hhigh⟩ := roundDiv_near (a := g.1) hb
  generalize roundDiv g.1 g.2 = n at hlow hhigh ⊢
  have hb' : (0 : ℚ) < g.2 := by exact_mod_cast hb
  have hlow' : (n : ℚ) ≤ g.1 / g.2 + 1 / 2 := by
    rw [← sub_le_iff_le_add, le_div_iff₀ hb']
    have : (2 * (g.2 * n) : ℚ) ≤ 2 * g.1 + g.2 := by exact_mod_cast hlow
    linarith
  have hhigh' : (g.1 / g.2 : ℚ) ≤ n + 1 / 2 := by
    rw [div_le_iff₀ hb']
    have : (2 * g.1 : ℚ) ≤ 2 * (g.2 * n) + g.2 := by exact_mod_cast hhigh
    linarith
  have hten : (0 : ℚ) < 10 ^ e := by positivity
  rw [← heq]
  constructor
  · calc (n : ℚ) * 10 ^ e ≤ (g.1 / g.2 + 1 / 2) * 10 ^ e := by gcongr
      _ = g.1 / g.2 * 10 ^ e + 10 ^ e / 2 := by ring
  · calc (g.1 / g.2 : ℚ) * 10 ^ e ≤ (n + 1 / 2) * 10 ^ e := by gcongr
      _ = n * 10 ^ e + 10 ^ e / 2 := by ring

theorem withDigits?_unfold (bits num den : Nat) (lead : Int) (count : Nat) :
    withDigits? bits num den lead count =
      (let e : Int := lead - (count : Int) + 1
      let (n, d) := gridded num den e
      [nearestAt num den e, ⟨n / d, e⟩, ⟨n / d + 1, e⟩].find? (readsBack bits)) := by
  unfold withDigits?
  dsimp only
  cases lead - (count : Int) + 1 <;> rfl

theorem readsBack_of_withDigits {bits : Nat} {lead : Int} {count : Nat} {d : Decimal}
    (h : withDigits? bits num den lead count = some d) : readsBack bits d = true := by
  rw [withDigits?_unfold] at h
  exact List.find?_some h

end

section

variable {m : Nat} {q : Int}

/-- A decimal that is as close to a double as 17 digits allow reads back as that double. -/
theorem readsBack_of_close (h : IsParts m q) {d : Decimal} (hpos : 0 < d.value)
    (hlow : d.value ≤ m * 2 ^ q + m * 2 ^ q / (2 * 10 ^ 16))
    (hhigh : (m * 2 ^ q : ℚ) ≤ d.value + m * 2 ^ q / (2 * 10 ^ 16)) :
    readsBack (bitsOf m q) d = true := by
  have hm : (m : ℚ) < 2 ^ 53 := by exact_mod_cast h.lt
  have hunit : (2 : ℚ) ^ q * 2 ^ (-q) = 1 := by
    rw [← zpow_add₀ two_ne_zero, add_neg_cancel, zpow_zero]
  have hstep : (0 : ℚ) < 2 ^ (-q) := by positivity
  have hlow' : d.value * 2 ^ (-q) ≤ m + m / (2 * 10 ^ 16) := by
    calc d.value * 2 ^ (-q) ≤ (m * 2 ^ q + m * 2 ^ q / (2 * 10 ^ 16)) * 2 ^ (-q) := by gcongr
      _ = (m + m / (2 * 10 ^ 16)) * (2 ^ q * 2 ^ (-q)) := by ring
      _ = m + m / (2 * 10 ^ 16) := by rw [hunit, mul_one]
  have hhigh' : (m : ℚ) ≤ d.value * 2 ^ (-q) + m / (2 * 10 ^ 16) := by
    calc (m : ℚ) = m * 2 ^ q * 2 ^ (-q) := by rw [mul_assoc, hunit, mul_one]
      _ ≤ (d.value + m * 2 ^ q / (2 * 10 ^ 16)) * 2 ^ (-q) := by gcongr
      _ = d.value * 2 ^ (-q) + m / (2 * 10 ^ 16) * (2 ^ q * 2 ^ (-q)) := by ring
      _ = d.value * 2 ^ (-q) + m / (2 * 10 ^ 16) := by rw [hunit, mul_one]
  have hnear := nearestBits?_of_near h (Decimal.fraction_num_pos hpos) d.fraction_pos
    (by rw [Decimal.fraction_eq]; linarith) (by rw [Decimal.fraction_eq]; linarith)
    (fun hlead => by
      have hlead' : (m : ℚ) = 2 ^ 52 := by exact_mod_cast hlead
      rw [Decimal.fraction_eq]
      linarith)
  exact readsBack_iff.2 hnear

theorem close_of_near {v w step : ℚ} (hv : 0 < v) (hstep : step ≤ v / 10 ^ 16)
    (hlow : w ≤ v + step / 2) (hhigh : v ≤ w + step / 2) :
    0 < w ∧ w ≤ v + v / (2 * 10 ^ 16) ∧ v ≤ w + v / (2 * 10 ^ 16) := by
  refine ⟨?_, ?_, ?_⟩ <;> linarith

theorem fraction_log2 (h : IsParts m q) :
    Nat.log2 (fraction m q).1 ≤ 1050 ∧ Nat.log2 (fraction m q).2 ≤ 1090 := by
  have hm := h.lt
  have hlow := h.low
  have hhigh := h.high
  cases q with
  | ofNat k =>
    have hk : k ≤ 971 := by simpa using hhigh
    have hlt : m * 2 ^ k < 2 ^ (53 + k) := by
      rw [pow_add]
      exact Nat.mul_lt_mul_of_pos_right hm (Nat.two_pow_pos k)
    have hpos : m * 2 ^ k ≠ 0 := (Nat.mul_pos h.pos (Nat.two_pow_pos k)).ne'
    have hlog := (Nat.log2_lt hpos).2 hlt
    exact ⟨show (m * 2 ^ k).log2 ≤ 1050 by omega, show Nat.log2 1 ≤ 1090 by decide⟩
  | negSucc k =>
    have hlog := (Nat.log2_lt h.pos.ne').2 hm
    have hlog' : (2 ^ (k + 1)).log2 = k + 1 := Nat.log2_two_pow
    exact ⟨show m.log2 ≤ 1050 by omega, show (2 ^ (k + 1)).log2 ≤ 1090 by omega⟩

theorem IsParts.fraction_pos (h : IsParts m q) : 0 < (fraction m q).1 := by
  cases q with
  | ofNat k => exact Nat.mul_pos h.pos (Nat.two_pow_pos k)
  | negSucc k => exact h.pos

/-- With 17 digits some decimal reads back. -/
theorem exists_withDigits (h : IsParts m q) : ∃ d, withDigits? (bitsOf m q) (fraction m q).1
    (fraction m q).2 (leadingExponent (fraction m q).1 (fraction m q).2) 17 = some d := by
  have hden := fraction_pos m q
  have hvalue := fraction_eq m q
  obtain ⟨hn, hd⟩ := fraction_log2 h
  have hlead := leadingExponent_le h.fraction_pos hden hn hd
  rw [hvalue] at hlead
  rw [withDigits?_unfold]
  generalize leadingExponent (fraction m q).1 (fraction m q).2 = lead at hlead ⊢
  obtain ⟨hlow, hhigh⟩ := near_value (fraction m q).1 hden (lead - (17 : Nat) + 1)
  rw [hvalue] at hlow hhigh
  have hpos : (0 : ℚ) < m * 2 ^ q := mul_pos (by exact_mod_cast h.pos) (by positivity)
  have hstep : (10 : ℚ) ^ (lead - (17 : Nat) + 1) ≤ m * 2 ^ q / 10 ^ 16 := by
    rw [show lead - ((17 : Nat) : Int) + 1 = lead - (16 : Nat) by push_cast; ring,
      zpow_sub₀ (by norm_num), zpow_natCast]
    gcongr
  obtain ⟨hd, hclose, hclose'⟩ := close_of_near hpos hstep hlow hhigh
  have hread := readsBack_of_close h hd hclose hclose'
  exact Option.isSome_iff_exists.1 (List.find?_isSome.2 ⟨_, List.mem_cons_self, hread⟩)

/-- The shortest decimal of a double reads back as that double. -/
theorem readsBack_shortest (h : IsParts m q) : readsBack (bitsOf m q) (shortest m q) = true := by
  unfold shortest
  dsimp only
  rw [nearestBits?_self h h.fraction_pos (fraction_pos m q) (fraction_eq m q), Option.getD_some]
  cases hfound : (List.range 17).findSome? fun k => withDigits? (bitsOf m q) (fraction m q).1
      (fraction m q).2 (leadingExponent (fraction m q).1 (fraction m q).2) (k + 1) with
  | none =>
    obtain ⟨d, hd⟩ := exists_withDigits h
    have := List.findSome?_eq_none_iff.1 hfound 16 (List.mem_range.2 (by omega))
    rw [hd] at this
    cases this
  | some d =>
    obtain ⟨k, -, hk⟩ := List.exists_of_findSome?_eq_some hfound
    exact readsBack_of_value_eq h.bitsOf_pos.ne' (Decimal.trim_value 20 d).symm
      (readsBack_of_withDigits hk)

end

end GuardedText.Double
