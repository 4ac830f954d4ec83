import Mathlib
import GuardedText.Number.Double

/-
  The bits of doubles. A positive finite double is m · 2^q for one mantissa and one exponent only
  (`IsParts`), and its bits below the sign are these two put together (`bitsOf`); taking a double
  apart finds them (`decode_eq`). A double that is made of bits has their exponent and mantissa
  (`toBits_ofBits`).
-/

namespace GuardedText

theorem twoTo_eq (k : Nat) : twoTo k = 2 ^ k := rfl

theorem twoTo_pos (k : Nat) : 0 < twoTo k := Nat.two_pow_pos k

theorem tenTo_eq (k : Nat) : tenTo k = 10 ^ k := rfl

namespace Double

open Float.Model

/-! ## Mantissas and exponents -/

/-- The mantissas and exponents of positive doubles. -/
structure IsParts (m : Nat) (q : Int) : Prop where
  pos : 0 < m
  lt : m < 2 ^ 53
  low : -1074 ≤ q
  high : q ≤ 971
  lead : q = -1074 ∨ 2 ^ 52 ≤ m

/-- The bits below the sign of the double `m` · 2^`q`. -/
def bitsOf (m : Nat) (q : Int) : Nat := (q + 1074).toNat * twoTo 52 + m

section

variable {m : Nat} {q : Int}

theorem IsParts.bitsOf_lt (h : IsParts m q) : bitsOf m q < 2047 * twoTo 52 := by
  have := h.lt
  have := h.low
  have := h.high
  rw [bitsOf, twoTo_eq]
  omega

theorem IsParts.bitsOf_pos (h : IsParts m q) : 0 < bitsOf m q :=
  Nat.lt_of_lt_of_le h.pos (Nat.le_add_left _ _)

theorem IsParts.injective {m' : Nat} {q' : Int} (h : IsParts m q) (h' : IsParts m' q')
    (heq : bitsOf m q = bitsOf m' q') : m = m' ∧ q = q' := by
  have := h.lt
  have := h.low
  have := h'.lt
  have := h'.low
  have := h.lead
  have := h'.lead
  simp only [bitsOf, twoTo_eq] at heq
  omega

end

/-- The parts of a finite double are zero or those of a positive double, and give its bits. -/
theorem decode_eq {x : Float} {negative : Bool} {m : Nat} {q : Int}
    (h : decode x = .finite negative m q) :
    (m = 0 ∨ IsParts m q) ∧
      bitsOf m q = x.toBits.toNat / 2 ^ 52 % 2 ^ 11 * 2 ^ 52 + x.toBits.toNat % 2 ^ 52 := by
  unfold decode at h
  dsimp only at h
  split at h
  · split at h <;> cases h
  · split at h
    · rename_i he
      rw [twoTo_eq, twoTo_eq] at he
      cases h
      have := Nat.mod_lt x.toBits.toNat (Nat.two_pow_pos 52)
      rw [he, bitsOf, twoTo_eq]
      exact ⟨(Nat.eq_zero_or_pos _).imp_right fun hpos =>
        ⟨hpos, by omega, le_rfl, by omega, .inl rfl⟩, rfl⟩
    · rename_i hinf he
      rw [twoTo_eq, twoTo_eq] at hinf he
      cases h
      have := Nat.mod_lt (x.toBits.toNat / 2 ^ 52) (Nat.two_pow_pos 11)
      have := Nat.mod_lt x.toBits.toNat (Nat.two_pow_pos 52)
      simp only [twoTo_eq]
      refine ⟨.inr ⟨by omega, by omega, by omega, by omega, .inr (by omega)⟩, ?_⟩
      rw [bitsOf, twoTo_eq]
      omega

theorem exists_decode {x : Float} (h : x.toBits.toNat / 2 ^ 52 % 2 ^ 11 ≠ 2047) :
    ∃ m q, decode x = .finite (x.toBits.toNat / 2 ^ 63 == 1) m q := by
  unfold decode
  dsimp only
  rw [← twoTo_eq, ← twoTo_eq] at h
  rw [if_neg h]
  split_ifs
  · exact ⟨_, _, rfl⟩
  · exact ⟨_, _, rfl⟩

theorem decode_zero {x : Float} {negative : Bool} {q : Int}
    (h : decode x = .finite negative 0 q) : q = -1074 := by
  unfold decode at h
  dsimp only at h
  split_ifs at h
  · injection h with _ _ hq
    exact hq.symm
  · injection h with _ hm _
    rw [twoTo_eq] at hm
    omega

/-! ## The value of a double -/

theorem fraction_pos (m : Nat) (q : Int) : 0 < (fraction m q).2 := by
  cases q with
  | ofNat k => exact Nat.one_pos
  | negSucc k => exact Nat.pow_pos Nat.two_pos

theorem fraction_eq (m : Nat) (q : Int) :
    ((fraction m q).1 / (fraction m q).2 : ℚ) = m * 2 ^ q := by
  cases q with
  | ofNat k => simp [fraction, twoTo_eq]
  | negSucc k => simp [fraction, twoTo_eq, zpow_negSucc, div_eq_mul_inv]

theorem fraction_of_natural {m k : Nat} {q : Int} (h : (m * 2 ^ q : ℚ) = k) :
    (fraction m q).1 = k * (fraction m q).2 := by
  have hpos : ((fraction m q).2 : ℚ) ≠ 0 := by exact_mod_cast (fraction_pos m q).ne'
  rw [← fraction_eq, div_eq_iff hpos] at h
  exact_mod_cast h

section

variable {x : Float} {negative : Bool} {m : Nat} {q : Int} (h : decode x = .finite negative m q)
include h

theorem isInteger_iff : isInteger x = true ↔ ∃ k : Nat, (m * 2 ^ q : ℚ) = k := by
  have hpos : ((fraction m q).2 : ℚ) ≠ 0 := by exact_mod_cast (fraction_pos m q).ne'
  simp only [isInteger, h, beq_iff_eq]
  constructor
  · intro hmod
    obtain ⟨k, hk⟩ := Nat.dvd_of_mod_eq_zero hmod
    refine ⟨k, ?_⟩
    rw [← fraction_eq, hk]
    push_cast
    rw [mul_div_cancel_left₀ _ hpos]
  · rintro ⟨k, hk⟩
    rw [fraction_of_natural hk, Nat.mul_mod_left]

theorem truncate?_of_natural {k : Nat} (hk : (m * 2 ^ q : ℚ) = k) :
    truncate? x = some (if negative then -(k : Int) else k) := by
  simp only [truncate?, h, fraction_of_natural hk, Nat.mul_div_cancel k (fraction_pos m q)]

end

/-! ## Doubles made of bits -/

/-- A double made of bits that are no infinity and not not-a-number has these bits. -/
theorem toBits_ofBits {a : UInt64} (h : a.toNat / 2 ^ 52 % 2 ^ 11 ≠ 2047) :
    (Float.ofBits a).toBits = a := by
  have hpack := @UnpackedFloat.pack_unpack Format.binary64 a.toBitVec (by decide)
  refine UInt64.toBitVec_inj.1 (hpack.trans (if_neg fun hnan => ?_))
  have hexp := congrArg BitVec.toNat (of_decide_eq_true hnan).1
  rw [UnpackedFloat.unpackExponent_def, BitVec.extractLsb'_toNat, Nat.shiftRight_eq_div_pow] at hexp
  exact h hexp

/-- The parts of a double made of a sign and bits below it. -/
theorem exists_decode_withSign {bits : Nat} (h : bits < 2047 * twoTo 52) (negative : Bool) :
    ∃ m q, decode (withSign negative bits) = .finite negative m q ∧ bitsOf m q = bits ∧
      (m = 0 ∨ IsParts m q) := by
  rw [twoTo_eq] at h
  have hbits : (UInt64.ofNat (if negative then twoTo 63 + bits else bits)).toNat =
      (if negative then 2 ^ 63 else 0) + bits := by
    rw [UInt64.toNat_ofNat', twoTo_eq]
    cases negative
    · rw [if_neg Bool.false_ne_true, if_neg Bool.false_ne_true]
      omega
    · rw [if_pos rfl, if_pos rfl]
      omega
  have hexp : ((if negative then 2 ^ 63 else 0) + bits) / 2 ^ 52 % 2 ^ 11 = bits / 2 ^ 52 := by
    cases negative <;> simp <;> omega
  have hman : ((if negative then 2 ^ 63 else 0) + bits) % 2 ^ 52 = bits % 2 ^ 52 := by
    cases negative
    · simp
    · simp only [if_pos]
      omega
  have hsame : (withSign negative bits).toBits.toNat =
      (if negative then 2 ^ 63 else 0) + bits := by
    rw [withSign, toBits_ofBits (by rw [hbits, hexp]; omega), hbits]
  have hsign : ((withSign negative bits).toBits.toNat / 2 ^ 63 == 1) = negative := by
    rw [hsame]
    cases negative
    · exact beq_eq_false_iff_ne.2 (by simp; omega)
    · exact beq_iff_eq.2 (by simp; omega)
  obtain ⟨m, q, hdecode⟩ := exists_decode (x := withSign negative bits)
    (by rw [hsame, hexp]; omega)
  rw [hsign] at hdecode
  obtain ⟨hparts, hsum⟩ := decode_eq hdecode
  refine ⟨m, q, hdecode, ?_, hparts⟩
  rw [hsum, hsame, hexp, hman]
  omega

/-- The double made of a sign and a mantissa with its exponent. -/
theorem IsParts.decode_withSign {m : Nat} {q : Int} (h : IsParts m q) (negative : Bool) :
    decode (withSign negative (bitsOf m q)) = .finite negative m q := by
  obtain ⟨m', q', hdecode, hbits, hparts⟩ := exists_decode_withSign h.bitsOf_lt negative
  rcases hparts with rfl | hparts
  · rw [decode_zero hdecode] at hbits
    exact absurd hbits h.bitsOf_pos.ne
  · obtain ⟨rfl, rfl⟩ := hparts.injective h hbits
    exact hdecode

end Double

end GuardedText
