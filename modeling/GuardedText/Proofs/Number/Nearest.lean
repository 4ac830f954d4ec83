import GuardedText.Proofs.Number.Double

/-
  The double nearest to a quotient. Rounding looks at the quotient only, however it is written
  (`nearestBits?_eq`, `nearestBits?_congr`); what is closer to a double than to the middle between
  it and a neighbour is rounded to it (`nearestBits?_of_near`); and a natural number is rounded to
  a natural number, unless it is too large (`nearestBits?_natural`).
-/

namespace GuardedText

namespace Double

/-! ## Rounding to a natural number -/

theorem roundDiv_cases (a b : Nat) :
    (roundDiv a b = a / b ∧ 2 * (a % b) ≤ b) ∨ (roundDiv a b = a / b + 1 ∧ b ≤ 2 * (a % b)) := by
  unfold roundDiv
  dsimp only
  split_ifs <;> omega

/-- A quotient is rounded to a number that is at most a half away. -/
theorem roundDiv_near {a b : Nat} (hb : 0 < b) :
    2 * (b * roundDiv a b) ≤ 2 * a + b ∧ 2 * a ≤ 2 * (b * roundDiv a b) + b := by
  have hdiv := Nat.div_add_mod a b
  have hmod := Nat.mod_lt a hb
  rcases roundDiv_cases a b with ⟨h, hhalf⟩ | ⟨h, hhalf⟩
  · rw [h]
    omega
  · rw [h, Nat.mul_succ]
    omega

/-- What is less than a half away from a natural number is rounded to it. -/
theorem roundDiv_eq {a b m : Nat} (hlow : 2 * (b * m) < 2 * a + b) (hhigh : 2 * a < 2 * (b * m) + b) :
    roundDiv a b = m := by
  obtain ⟨hnear, hnear'⟩ := roundDiv_near (a := a) (show 0 < b by omega)
  rcases lt_trichotomy m (roundDiv a b) with h | h | h
  · have := Nat.mul_le_mul_left b (Nat.succ_le_of_lt h)
    rw [Nat.mul_succ] at this
    omega
  · exact h.symm
  · have := Nat.mul_le_mul_left b (Nat.succ_le_of_lt h)
    rw [Nat.mul_succ] at this
    omega

theorem roundDiv_of_near {a b m : Nat} (hb : 0 < b) (hlow : (m : ℚ) - 1 / 2 < a / b)
    (hhigh : (a / b : ℚ) < m + 1 / 2) : roundDiv a b = m := by
  have hb' : (0 : ℚ) < b := by exact_mod_cast hb
  rw [lt_div_iff₀ hb'] at hlow
  rw [div_lt_iff₀ hb'] at hhigh
  have hlow' : (2 * (b * m) : ℚ) < 2 * a + b := by linarith
  have hhigh' : (2 * a : ℚ) < 2 * (b * m) + b := by linarith
  exact roundDiv_eq (by exact_mod_cast hlow') (by exact_mod_cast hhigh')

theorem le_roundDiv {a b c : Nat} (hb : 0 < b) (h : b * c ≤ a) : c ≤ roundDiv a b := by
  have hc : c ≤ a / b := (Nat.le_div_iff_mul_le hb).2 (Nat.mul_comm b c ▸ h)
  rcases roundDiv_cases a b with ⟨h, -⟩ | ⟨h, -⟩ <;> omega

theorem roundDiv_le {a b c : Nat} (hb : 0 < b) (h : a < b * c) : roundDiv a b ≤ c := by
  have hc : a / b < c := (Nat.div_lt_iff_lt_mul hb).2 (Nat.mul_comm b c ▸ h)
  rcases roundDiv_cases a b with ⟨h, -⟩ | ⟨h, -⟩ <;> omega

theorem roundDiv_mul (a b : Nat) {c : Nat} (hc : 0 < c) :
    roundDiv (a * c) (b * c) = roundDiv a b := by
  have htwice (x y : Nat) : 2 * (x * c) < y * c ↔ 2 * x < y := by
    rw [← Nat.mul_assoc, Nat.mul_lt_mul_right hc]
  have hsame (x y : Nat) : 2 * (x * c) = y * c ↔ 2 * x = y := by
    rw [← Nat.mul_assoc, Nat.mul_left_inj hc.ne']
  simp only [roundDiv, Nat.mul_div_mul_right _ _ hc, Nat.mul_mod_mul_right, htwice, hsame]

/-- Equal quotients are rounded to the same number. -/
theorem roundDiv_congr {a b a' b' : Nat} (hb : 0 < b) (hb' : 0 < b') (h : a * b' = a' * b) :
    roundDiv a b = roundDiv a' b' := by
  rw [← roundDiv_mul a b hb', h, Nat.mul_comm b b', roundDiv_mul a' b' hb]

/-- A quotient is rounded below an even number if it lies more than a half below it. -/
theorem roundDiv_lt_iff {a b c : Nat} (hb : 0 < b) (hc : c % 2 = 0) :
    roundDiv a b < c ↔ 2 * a + b < 2 * (b * c) := by
  have hdiv := Nat.div_add_mod a b
  have hmod := Nat.mod_lt a hb
  unfold roundDiv
  dsimp only
  generalize a / b = d at *
  generalize a % b = r at *
  rcases lt_trichotomy (d + 1) c with h | rfl | h
  · have := Nat.mul_le_mul_left b (show d + 2 ≤ c from h)
    rw [Nat.mul_add] at this
    split_ifs <;> omega
  · rw [Nat.mul_succ]
    split_ifs <;> omega
  · have := Nat.mul_le_mul_left b (show c ≤ d by omega)
    split_ifs <;> omega

/-! ## The nearest double -/

/-- The numerator and denominator of a quotient times a power of two. -/
def scaled (num den : Nat) : Int → Nat × Nat
  | .ofNat k => (num * twoTo k, den)
  | .negSucc k => (num, den * twoTo (k + 1))

theorem scaled_pos (num : Nat) {den : Nat} (hden : 0 < den) (s : Int) :
    0 < (scaled num den s).2 := by
  cases s with
  | ofNat k => exact hden
  | negSucc k => exact Nat.mul_pos hden (Nat.pow_pos Nat.two_pos)

theorem scaled_eq (num den : Nat) (s : Int) :
    ((scaled num den s).1 / (scaled num den s).2 : ℚ) = num / den * 2 ^ s := by
  cases s with
  | ofNat k =>
    simp only [scaled, twoTo_eq, Int.ofNat_eq_natCast, zpow_natCast]
    push_cast
    ring
  | negSucc k =>
    simp only [scaled, twoTo_eq, zpow_negSucc]
    push_cast
    rw [div_mul_eq_div_mul_one_div, one_div]

/-- The power of two that brings the leading digit of a quotient to the place of the leading digit
of a mantissa. -/
def leadShift (num den : Nat) : Int :=
  let estimate : Int := 52 - ((Nat.log2 num : Int) - (Nat.log2 den : Int))
  if (scaled num den estimate).1 / (scaled num den estimate).2 < twoTo 52 then estimate + 1
  else estimate

theorem nearestBits?_unfold (num den : Nat) : nearestBits? num den =
    if num = 0 then some 0
    else
      let shift := if leadShift num den > 1074 then 1074 else leadShift num den
      let bits := (1074 - shift).toNat * twoTo 52 +
        roundDiv (scaled num den shift).1 (scaled num den shift).2
      if bits < 2047 * twoTo 52 then some bits else none := rfl

variable {num den : Nat}

theorem leadShift_spec (hnum : 0 < num) (hden : 0 < den) :
    (2 : ℚ) ^ 52 ≤ num / den * 2 ^ leadShift num den ∧
      (num / den * 2 ^ leadShift num den : ℚ) < 2 ^ 53 := by
  have hn : (2 : ℚ) ^ (Nat.log2 num : ℤ) ≤ num := by
    rw [zpow_natCast]
    exact_mod_cast Nat.log2_self_le hnum.ne'
  have hn' : (num : ℚ) < 2 ^ ((Nat.log2 num : ℤ) + 1) := by
    have : num < 2 ^ (Nat.log2 num + 1) := Nat.lt_log2_self
    exact_mod_cast this
  have hd : (2 : ℚ) ^ (Nat.log2 den : ℤ) ≤ den := by
    rw [zpow_natCast]
    exact_mod_cast Nat.log2_self_le hden.ne'
  have hd' : (den : ℚ) < 2 ^ ((Nat.log2 den : ℤ) + 1) := by
    have : den < 2 ^ (Nat.log2 den + 1) := Nat.lt_log2_self
    exact_mod_cast this
  have hdpos : (0 : ℚ) < den := by exact_mod_cast hden
  set e : ℤ := 52 - ((Nat.log2 num : ℤ) - (Nat.log2 den : ℤ)) with he
  have hlow : (2 : ℚ) ^ 51 ≤ num / den * 2 ^ e := by
    rw [div_mul_eq_mul_div, le_div_iff₀ hdpos]
    calc (2 : ℚ) ^ 51 * den ≤ 2 ^ 51 * 2 ^ ((Nat.log2 den : ℤ) + 1) := by gcongr
      _ = 2 ^ (Nat.log2 num : ℤ) * 2 ^ e := by
        rw [← zpow_natCast, ← zpow_add₀ two_ne_zero, ← zpow_add₀ two_ne_zero]
        congr 1
        push_cast
        omega
      _ ≤ num * 2 ^ e := by gcongr
  have hhigh : (num / den * 2 ^ e : ℚ) < 2 ^ 53 := by
    rw [div_mul_eq_mul_div, div_lt_iff₀ hdpos]
    calc (num : ℚ) * 2 ^ e < 2 ^ ((Nat.log2 num : ℤ) + 1) * 2 ^ e := by gcongr
      _ = 2 ^ 53 * 2 ^ (Nat.log2 den : ℤ) := by
        rw [← zpow_natCast 2 53, ← zpow_add₀ two_ne_zero, ← zpow_add₀ two_ne_zero]
        congr 1
        push_cast
        omega
      _ ≤ 2 ^ 53 * den := by gcongr
  have hfloor : (scaled num den e).1 / (scaled num den e).2 < twoTo 52 ↔
      (num / den * 2 ^ e : ℚ) < 2 ^ 52 := by
    have hb : (0 : ℚ) < (scaled num den e).2 := by exact_mod_cast scaled_pos num hden e
    rw [Nat.div_lt_iff_lt_mul (scaled_pos num hden e), ← scaled_eq, div_lt_iff₀ hb, twoTo_eq]
    exact_mod_cast Iff.rfl
  unfold leadShift
  rw [← he]
  dsimp only
  split_ifs with h
  · rw [hfloor] at h
    rw [zpow_add_one₀ two_ne_zero, ← mul_assoc]
    constructor <;> linarith
  · rw [hfloor, not_lt] at h
    exact ⟨h, hhigh⟩

/-- Powers of two between the same bounds are in order. -/
theorem shift_le {y : ℚ} {s t : Int} (hs : y * 2 ^ s < 2 ^ 53) (ht : 2 ^ 52 ≤ y * 2 ^ t) : s ≤ t := by
  have hlt : y * 2 ^ s < y * 2 ^ (t + 1) := by
    rw [zpow_add_one₀ two_ne_zero, ← mul_assoc]
    linarith
  have hy : 0 < y := by
    have : 0 < y * 2 ^ t := lt_of_lt_of_le (by norm_num) ht
    exact pos_of_mul_pos_left this (by positivity)
  have := (zpow_lt_zpow_iff_right₀ (one_lt_two (α := ℚ))).1 (lt_of_mul_lt_mul_left hlt hy.le)
  omega

/-- The bits of the double nearest to a quotient, from the power of two that makes a mantissa of
it. -/
theorem nearestBits?_eq {s : Int} {a b : Nat} (hnum : 0 < num) (hden : 0 < den) (hs : s ≤ 1074)
    (hlt : (num / den * 2 ^ s : ℚ) < 2 ^ 53) (hle : s = 1074 ∨ (2 : ℚ) ^ 52 ≤ num / den * 2 ^ s)
    (hb : 0 < b) (hab : (a / b : ℚ) = num / den * 2 ^ s) :
    nearestBits? num den =
      if (1074 - s).toNat * twoTo 52 + roundDiv a b < 2047 * twoTo 52 then
        some ((1074 - s).toNat * twoTo 52 + roundDiv a b) else none := by
  obtain ⟨hlead, hlead'⟩ := leadShift_spec hnum hden
  have hshift : (if leadShift num den > 1074 then 1074 else leadShift num den) = s := by
    have hbelow := shift_le hlt hlead
    rcases hle with rfl | hle
    · split_ifs <;> omega
    · have := shift_le hlead' hle
      split_ifs <;> omega
  have hround : roundDiv (scaled num den s).1 (scaled num den s).2 = roundDiv a b := by
    refine roundDiv_congr (scaled_pos num hden s) hb ?_
    have heq := scaled_eq num den s
    rw [← hab, div_eq_div_iff] at heq
    · exact_mod_cast heq
    · exact_mod_cast (scaled_pos num hden s).ne'
    · exact_mod_cast hb.ne'
  rw [nearestBits?_unfold, if_neg hnum.ne', hshift]
  dsimp only
  rw [hround]

variable {m : Nat} {q : Int}

/-- A quotient is rounded to a double if it is closer to it than to the middle between it and the
next one on either side. -/
theorem nearestBits?_of_near (h : IsParts m q) (hnum : 0 < num) (hden : 0 < den)
    (hlow : (m : ℚ) - 1 / 2 < num / den * 2 ^ (-q)) (hhigh : (num / den * 2 ^ (-q) : ℚ) < m + 1 / 2)
    (hlead : m = 2 ^ 52 → (m : ℚ) - 1 / 4 < num / den * 2 ^ (-q)) :
    nearestBits? num den = some (bitsOf m q) := by
  have hm : (m : ℚ) ≤ 2 ^ 53 - 1 := by
    have : m + 1 ≤ 2 ^ 53 := h.lt
    have : (m + 1 : ℚ) ≤ 2 ^ 53 := by exact_mod_cast this
    linarith
  have hbits := h.bitsOf_lt
  have hq := h.low
  by_cases hcase : q = -1074 ∨ (2 : ℚ) ^ 52 ≤ num / den * 2 ^ (-q)
  · have heq := scaled_eq num den (-q)
    have hb := scaled_pos num hden (-q)
    rw [nearestBits?_eq hnum hden (by omega) (by linarith) (hcase.imp_left (by omega)) hb heq,
      roundDiv_of_near hb (heq ▸ hlow) (heq ▸ hhigh)]
    have hsum : (1074 - -q).toNat * twoTo 52 + m = bitsOf m q := by
      rw [bitsOf, Int.sub_neg, Int.add_comm]
    rw [hsum, if_pos hbits]
  · -- The quotient lies just below a power of two, which is the double nearest to it.
    obtain ⟨hne, hbelow⟩ := not_or.1 hcase
    rw [not_le] at hbelow
    have hlead' : 2 ^ 52 ≤ m := h.lead.resolve_left hne
    obtain rfl : m = 2 ^ 52 := by
      have : (m : ℚ) < 2 ^ 52 + 1 := by linarith
      have : m < 2 ^ 52 + 1 := by exact_mod_cast this
      omega
    have hnear := hlead rfl
    have hs : (num / den * 2 ^ (-q + 1) : ℚ) = 2 * (num / den * 2 ^ (-q)) := by
      rw [zpow_add_one₀ two_ne_zero]
      ring
    have heq := scaled_eq num den (-q + 1)
    have hb := scaled_pos num hden (-q + 1)
    push_cast at hnear
    rw [nearestBits?_eq hnum hden (by omega) (by linarith) (.inr (by linarith)) hb heq,
      roundDiv_of_near (m := 2 ^ 53) hb (by rw [heq]; push_cast; linarith)
        (by rw [heq]; push_cast; linarith)]
    have hsum : (1074 - (-q + 1)).toNat * twoTo 52 + 2 ^ 53 = bitsOf (2 ^ 52) q := by
      rw [bitsOf, twoTo_eq]
      omega
    rw [hsum, if_pos hbits]

/-- A double is the one nearest to its own value. -/
theorem nearestBits?_self (h : IsParts m q) (hnum : 0 < num) (hden : 0 < den)
    (heq : (num / den : ℚ) = m * 2 ^ q) : nearestBits? num den = some (bitsOf m q) := by
  have hself : (num / den * 2 ^ (-q) : ℚ) = m := by
    rw [heq, mul_assoc, ← zpow_add₀ two_ne_zero, add_neg_cancel, zpow_zero, mul_one]
  exact nearestBits?_of_near h hnum hden (by linarith) (by linarith) fun _ => by linarith

/-- Equal quotients have the same nearest double. -/
theorem nearestBits?_congr {num' den' : Nat} (hnum : 0 < num) (hden : 0 < den) (hnum' : 0 < num')
    (hden' : 0 < den') (h : (num / den : ℚ) = num' / den') :
    nearestBits? num den = nearestBits? num' den' := by
  obtain ⟨hlead, hlead'⟩ := leadShift_spec hnum hden
  obtain ⟨s, hs, hlt, hle⟩ : ∃ s : Int, s ≤ 1074 ∧
      (num / den * 2 ^ s : ℚ) < 2 ^ 53 ∧ (s = 1074 ∨ (2 : ℚ) ^ 52 ≤ num / den * 2 ^ s) := by
    rcases le_or_gt (leadShift num den) 1074 with hsmall | hlarge
    · exact ⟨leadShift num den, hsmall, hlead', .inr hlead⟩
    · have hpos : (0 : ℚ) < num / den := div_pos (by exact_mod_cast hnum) (by exact_mod_cast hden)
      refine ⟨1074, le_rfl, lt_of_le_of_lt ?_ hlead', .inl rfl⟩
      exact mul_le_mul_of_nonneg_left (zpow_le_zpow_right₀ one_le_two hlarge.le) hpos.le
  have hab := scaled_eq num den s
  have hb := scaled_pos num hden s
  rw [nearestBits?_eq hnum hden hs hlt hle hb hab,
    nearestBits?_eq hnum' hden' hs (h ▸ hlt) (h ▸ hle) hb (hab.trans (by rw [h]))]

/-! ## Doubles nearest to natural numbers -/

/-- A number of at most 53 binary digits times a power of two is a double. -/
theorem exists_parts {r : Nat} {e : Int} (hpos : 0 < r) (hr : r < 2 ^ 53) (hlow : -1074 ≤ e)
    (hhigh : e ≤ 971) : ∃ m q, IsParts m q ∧ (m * 2 ^ q : ℚ) = r * 2 ^ e := by
  have hlog : 2 ^ Nat.log2 r ≤ r := Nat.log2_self_le hpos.ne'
  have hlog' : r < 2 ^ (Nat.log2 r + 1) := Nat.lt_log2_self
  have hl : Nat.log2 r ≤ 52 := by
    by_contra hlarge
    have := Nat.pow_le_pow_right Nat.two_pos (show 53 ≤ Nat.log2 r by omega)
    omega
  have hvalue (t : Nat) : ((r * 2 ^ t : Nat) * 2 ^ (e - t) : ℚ) = r * 2 ^ e := by
    push_cast
    rw [mul_assoc, ← zpow_natCast, ← zpow_add₀ two_ne_zero, add_sub_cancel]
  have hbelow (t : Nat) (ht : t ≤ 52 - Nat.log2 r) : r * 2 ^ t < 2 ^ 53 := by
    calc r * 2 ^ t < 2 ^ (Nat.log2 r + 1) * 2 ^ t :=
          Nat.mul_lt_mul_of_pos_right hlog' (Nat.two_pow_pos t)
      _ = 2 ^ (Nat.log2 r + 1 + t) := (pow_add ..).symm
      _ ≤ 2 ^ 53 := Nat.pow_le_pow_right Nat.two_pos (by omega)
  have hmul (t : Nat) : 0 < r * 2 ^ t := Nat.mul_pos hpos (Nat.two_pow_pos t)
  rcases le_or_gt (52 - Nat.log2 r : ℤ) (e + 1074) with hroom | hroom
  · refine ⟨r * 2 ^ (52 - Nat.log2 r), e - (52 - Nat.log2 r : Nat),
      ⟨hmul _, hbelow _ le_rfl, by omega, by omega, .inr ?_⟩, hvalue _⟩
    calc 2 ^ 52 = 2 ^ Nat.log2 r * 2 ^ (52 - Nat.log2 r) := by
          rw [← pow_add, Nat.add_sub_of_le hl]
      _ ≤ _ := Nat.mul_le_mul_right _ hlog
  · obtain ⟨t, ht⟩ := Int.eq_ofNat_of_zero_le (show 0 ≤ e + 1074 by omega)
    exact ⟨r * 2 ^ t, e - t, ⟨hmul _, hbelow _ (by omega), by omega, by omega, .inl (by omega)⟩,
      hvalue _⟩

/-- The least natural number that is too large for a double: it lies in the middle between the
greatest double and the next power of two, 2^1024. -/
def limit : Nat := (2 ^ 54 - 1) * twoTo 970

section

variable {n l : Nat} (hlow : 2 ^ l ≤ n) (hhigh : n < 2 ^ (l + 1))
include hlow hhigh

/-- The shift that makes a mantissa of a natural number, from its leading power of two. -/
theorem shift_natural :
    (2 : ℚ) ^ 52 ≤ n * 2 ^ (52 - l : ℤ) ∧ (n * 2 ^ (52 - l : ℤ) : ℚ) < 2 ^ 53 := by
  have hlow' : (2 : ℚ) ^ (l : ℤ) ≤ n := by
    rw [zpow_natCast]
    exact_mod_cast hlow
  have hhigh' : (n : ℚ) < 2 ^ ((l : ℤ) + 1) := by exact_mod_cast hhigh
  constructor
  · calc (2 : ℚ) ^ 52 = 2 ^ (l : ℤ) * 2 ^ (52 - l : ℤ) := by
          rw [← zpow_add₀ two_ne_zero, add_sub_cancel]
          norm_num
      _ ≤ _ := by gcongr
  · calc (n * 2 ^ (52 - l : ℤ) : ℚ) < 2 ^ ((l : ℤ) + 1) * 2 ^ (52 - l : ℤ) := by gcongr
      _ = 2 ^ 53 := by
        rw [← zpow_add₀ two_ne_zero, ← zpow_natCast]
        congr 1
        push_cast
        omega

/-- The mantissa that a natural number of more than 53 binary digits is rounded to. -/
theorem roundDiv_bounds (hl : 52 < l) :
    2 ^ 52 ≤ roundDiv n (2 ^ (l - 52)) ∧ roundDiv n (2 ^ (l - 52)) ≤ 2 ^ 53 := by
  have hsum : 2 ^ (l - 52) * 2 ^ 52 = 2 ^ l := by rw [← pow_add, Nat.sub_add_cancel hl.le]
  have hb : 0 < 2 ^ (l - 52) := Nat.two_pow_pos _
  refine ⟨le_roundDiv hb (hsum ▸ hlow), roundDiv_le hb ?_⟩
  rw [pow_succ, ← Nat.mul_assoc, hsum, ← pow_succ]
  exact hhigh

theorem nearestBits?_large (hl : 52 < l) : nearestBits? n 1 =
    if (1022 + l) * 2 ^ 52 + roundDiv n (2 ^ (l - 52)) < 2047 * 2 ^ 52 then
      some ((1022 + l) * 2 ^ 52 + roundDiv n (2 ^ (l - 52))) else none := by
  have hpos : 0 < n := (Nat.two_pow_pos l).trans_le hlow
  obtain ⟨hlead, hlead'⟩ := shift_natural hlow hhigh
  have hone : (n / (1 : Nat) : ℚ) = n := by rw [Nat.cast_one, div_one]
  have hab : (n / (2 ^ (l - 52) : Nat) : ℚ) = n / (1 : Nat) * 2 ^ (52 - l : ℤ) := by
    have hneg : (52 - l : ℤ) = -((l - 52 : Nat) : ℤ) := by omega
    rw [hneg, zpow_neg, zpow_natCast, hone]
    push_cast
    rfl
  rw [← hone] at hlead hlead'
  rw [nearestBits?_eq hpos Nat.one_pos (by omega) hlead' (.inr hlead) (Nat.two_pow_pos _) hab,
    twoTo_eq, show (1074 - (52 - l : ℤ)).toNat = 1022 + l by omega]

/-- The bits of a rounded number are those of a double if it is not too large. -/
theorem bits_lt_iff (hl : 52 < l) :
    (1022 + l) * 2 ^ 52 + roundDiv n (2 ^ (l - 52)) < 2047 * 2 ^ 52 ↔ n < limit := by
  obtain ⟨hround, hround'⟩ := roundDiv_bounds hlow hhigh hl
  have hpow {i j : Nat} (h : i ≤ j) : 2 ^ i ≤ 2 ^ j := Nat.pow_le_pow_right Nat.two_pos h
  have htop (k : Nat) : 2 ^ (k + 970) = 2 ^ k * twoTo 970 := by rw [pow_add, twoTo_eq]
  unfold limit
  rcases lt_trichotomy l 1023 with h | h | h
  · have hsmall : 2 ^ (l + 1) ≤ 2 ^ 53 * twoTo 970 := htop 53 ▸ hpow h
    generalize twoTo 970 = top at *
    omega
  · have hmiddle := roundDiv_lt_iff (a := n) (c := 2 ^ 53) (Nat.two_pow_pos (l - 52)) (by decide)
    have hstep : 2 ^ (l - 52) = 2 ^ 1 * twoTo 970 := by
      rw [← htop, h]
    rw [hstep] at hmiddle hround hround' ⊢
    generalize twoTo 970 = top at *
    omega
  · have hlarge : 2 ^ 54 * twoTo 970 ≤ 2 ^ l := htop 54 ▸ hpow h
    generalize twoTo 970 = top at *
    omega

end

/-- A natural number has a nearest double, a natural number at most twice as great, unless it is too
large. -/
theorem nearestBits?_natural {n : Nat} (hpos : 0 < n) :
    (n < limit ∧ ∃ m q, IsParts m q ∧ nearestBits? n 1 = some (bitsOf m q) ∧
      ∃ k : Nat, (m * 2 ^ q : ℚ) = k ∧ k ≤ 2 * n) ∨
    (¬ n < limit ∧ nearestBits? n 1 = none) := by
  have hlow : 2 ^ Nat.log2 n ≤ n := Nat.log2_self_le hpos.ne'
  have hhigh : n < 2 ^ (Nat.log2 n + 1) := Nat.lt_log2_self
  generalize Nat.log2 n = l at hlow hhigh
  rcases le_or_gt l 52 with hl | hl
  · have hsmall := hhigh.trans_le (Nat.pow_le_pow_right Nat.two_pos (Nat.succ_le_succ hl))
    have hlimit : n < limit := by
      have htop := twoTo_pos 970
      unfold limit
      generalize twoTo 970 = top at *
      omega
    obtain ⟨m, q, hparts, hvalue⟩ := exists_parts (e := 0) hpos hsmall (by decide) (by decide)
    rw [zpow_zero, mul_one] at hvalue
    refine .inl ⟨hlimit, m, q, hparts, ?_, n, hvalue, by omega⟩
    exact nearestBits?_self hparts hpos Nat.one_pos (by rw [hvalue, Nat.cast_one, div_one])
  · have hbits := nearestBits?_large hlow hhigh hl
    obtain ⟨hround, hround'⟩ := roundDiv_bounds hlow hhigh hl
    have hfits := bits_lt_iff hlow hhigh hl
    generalize roundDiv n (2 ^ (l - 52)) = k at *
    by_cases hlt : (1022 + l) * 2 ^ 52 + k < 2047 * 2 ^ 52
    · rw [if_pos hlt] at hbits
      refine .inl ⟨hfits.1 hlt, ?_⟩
      have hvalue (m p : Nat) (hm : m * 2 ^ p ≤ 2 ^ (l + 1)) :
          ∃ k : Nat, (m * 2 ^ (p : ℤ) : ℚ) = k ∧ k ≤ 2 * n := by
        refine ⟨m * 2 ^ p, ?_, ?_⟩
        · push_cast
          rw [zpow_natCast]
        · rw [pow_succ] at hm
          omega
      -- A mantissa of 54 digits is a power of two and is written with one digit less.
      rcases hround'.lt_or_eq with hk | rfl
      · have hparts : IsParts k (l - 52 : Nat) :=
          ⟨by omega, hk, by omega, by omega, .inr hround⟩
        refine ⟨k, (l - 52 : Nat), hparts, hbits.trans ?_, hvalue k _ ?_⟩
        · rw [bitsOf, twoTo_eq, show (((l - 52 : Nat) : ℤ) + 1074).toNat = 1022 + l by omega]
        · rw [show l + 1 = 53 + (l - 52) by omega, pow_add]
          exact Nat.mul_le_mul_right _ hk.le
      · have hparts : IsParts (2 ^ 52) (l - 51 : Nat) :=
          ⟨by decide, by decide, by omega, by omega, .inr le_rfl⟩
        refine ⟨2 ^ 52, (l - 51 : Nat), hparts, hbits.trans ?_, hvalue _ _ ?_⟩
        · rw [bitsOf, twoTo_eq, show (((l - 51 : Nat) : ℤ) + 1074).toNat = 1023 + l by omega]
          exact congrArg some (by omega)
        · rw [show l + 1 = 52 + (l - 51) by omega, pow_add]
    · rw [if_neg hlt] at hbits
      exact .inr ⟨fun h => hlt (hfits.2 h), hbits⟩

/-- The double nearest to a natural number is a natural number, and at most twice as great. -/
theorem exists_natural_of_nearest (h : IsParts m q) (hnum : 0 < num) (hden : 0 < den) {n : Nat}
    (heq : (num / den : ℚ) = n) (hbits : nearestBits? num den = some (bitsOf m q)) :
    ∃ k : Nat, (m * 2 ^ q : ℚ) = k ∧ k ≤ 2 * n := by
  have hn : 0 < n := by
    have hpos : (0 : ℚ) < num / den := div_pos (by exact_mod_cast hnum) (by exact_mod_cast hden)
    rw [heq] at hpos
    exact_mod_cast hpos
  have hone : (n / (1 : Nat) : ℚ) = n := by rw [Nat.cast_one, div_one]
  rw [nearestBits?_congr hnum hden hn Nat.one_pos (heq.trans hone.symm)] at hbits
  rcases nearestBits?_natural hn with ⟨-, m', q', hparts, hnear, hk⟩ | ⟨-, hnone⟩
  · rw [hnear, Option.some.injEq] at hbits
    obtain ⟨rfl, rfl⟩ := hparts.injective h hbits
    exact hk
  · rw [hnone] at hbits
    cases hbits

end Double

end GuardedText
