import Mathlib
import GuardedText.Number.Word

/-
  Words and bit vectors. To combine the bits of two integers is to combine the bit vectors of any
  width that they stand for (`Bits.ofInt_and`, `Bits.ofInt_or`, `Bits.ofInt_xor`), and the words of
  an integer are its bit vector of 32 bits read with a sign or without one (`Word.signed_eq`,
  `Word.unsigned_eq`). A word stays one when it is combined with another or shifted to the right;
  after every other operation it has to be cut off again.
-/

namespace GuardedText

namespace Bits

/-! ## Bit vectors of any width -/

section

variable {w : Nat}

theorem ofNat_without (m n : Nat) :
    BitVec.ofNat w (without m n) = BitVec.ofNat w m &&& ~~~BitVec.ofNat w n := by
  rw [without, BitVec.ofNat_xor, BitVec.ofNat_and]
  ext i hi
  simp only [BitVec.getElem_xor, BitVec.getElem_and, BitVec.getElem_not]
  generalize (BitVec.ofNat w m)[i] = x, (BitVec.ofNat w n)[i] = y
  cases x <;> cases y <;> rfl

theorem ofInt_and (m n : Int) :
    BitVec.ofInt w (Bits.and m n) = BitVec.ofInt w m &&& BitVec.ofInt w n := by
  cases m with
  | ofNat m =>
    cases n with
    | ofNat n => exact BitVec.ofNat_and
    | negSucc n =>
      rw [BitVec.ofInt_negSucc_eq_not_ofNat]
      exact ofNat_without m n
  | negSucc m =>
    cases n with
    | ofNat n =>
      rw [BitVec.ofInt_negSucc_eq_not_ofNat, BitVec.and_comm]
      exact ofNat_without n m
    | negSucc n =>
      rw [Bits.and]
      simp only [BitVec.ofInt_negSucc_eq_not_ofNat, BitVec.ofNat_or, BitVec.not_or]

theorem ofInt_or (m n : Int) :
    BitVec.ofInt w (Bits.or m n) = BitVec.ofInt w m ||| BitVec.ofInt w n := by
  cases m with
  | ofNat m =>
    cases n with
    | ofNat n => exact BitVec.ofNat_or
    | negSucc n =>
      rw [Bits.or]
      simp only [BitVec.ofInt_negSucc_eq_not_ofNat, ofNat_without, BitVec.not_and, BitVec.not_not]
      rw [BitVec.or_comm]
      rfl
  | negSucc m =>
    cases n with
    | ofNat n =>
      rw [Bits.or]
      simp only [BitVec.ofInt_negSucc_eq_not_ofNat, ofNat_without, BitVec.not_and, BitVec.not_not]
      rfl
    | negSucc n =>
      rw [Bits.or]
      simp only [BitVec.ofInt_negSucc_eq_not_ofNat, BitVec.ofNat_and, BitVec.not_and]

theorem ofInt_xor (m n : Int) :
    BitVec.ofInt w (Bits.xor m n) = BitVec.ofInt w m ^^^ BitVec.ofInt w n := by
  cases m with
  | ofNat m =>
    cases n with
    | ofNat n => exact BitVec.ofNat_xor
    | negSucc n =>
      rw [Bits.xor]
      simp only [BitVec.ofInt_negSucc_eq_not_ofNat, BitVec.ofNat_xor, BitVec.not_xor_right]
      rfl
  | negSucc m =>
    cases n with
    | ofNat n =>
      rw [Bits.xor]
      simp only [BitVec.ofInt_negSucc_eq_not_ofNat, BitVec.ofNat_xor, BitVec.not_xor_left]
      rfl
    | negSucc n =>
      rw [Bits.xor, BitVec.ofInt_negSucc_eq_not_ofNat, BitVec.ofInt_negSucc_eq_not_ofNat,
        ← BitVec.not_xor_left, ← BitVec.not_xor_right, BitVec.not_not]
      exact BitVec.ofNat_xor

theorem ofInt_not (m : Int) : BitVec.ofInt w (~~~m) = ~~~BitVec.ofInt w m := by
  cases m with
  | ofNat m => exact BitVec.ofInt_negSucc_eq_not_ofNat
  | negSucc m =>
    rw [BitVec.ofInt_negSucc_eq_not_ofNat, BitVec.not_not]
    rfl

theorem ofInt_two_pow (k : Nat) : BitVec.ofInt w (2 ^ k) = BitVec.twoPow w k := by
  refine BitVec.eq_of_toNat_eq ?_
  rw [BitVec.toNat_ofInt, BitVec.toNat_twoPow]
  exact_mod_cast Int.toNat_natCast (2 ^ k % 2 ^ w)

theorem ofInt_shiftLeft (m : Int) (k : Nat) :
    BitVec.ofInt w (m <<< k) = BitVec.ofInt w m <<< k := by
  rw [Int.shiftLeft_eq, BitVec.ofInt_mul, BitVec.shiftLeft_eq_mul_twoPow, ofInt_two_pow]

end

/-! ## Sizes -/

/-- The lowest bits of an integer are its remainder by a power of two. -/
theorem and_mask (n : Int) (k : Nat) : Bits.and n ((2 ^ k - 1 : Nat) : Int) = n % 2 ^ k := by
  have hpos := Nat.two_pow_pos k
  cases n with
  | ofNat m =>
    change ((m &&& (2 ^ k - 1) : Nat) : Int) = (m : Int) % 2 ^ k
    rw [Nat.and_two_pow_sub_one_eq_mod]
    push_cast
    rfl
  | negSucc m =>
    have hlt : without (2 ^ k - 1) m < 2 ^ k :=
      Nat.xor_lt_two_pow (by omega) (Nat.lt_of_le_of_lt Nat.and_le_left (by omega))
    have hbits : without (2 ^ k - 1) m = 2 ^ k - 1 - m % 2 ^ k := by
      have hones : BitVec.ofNat k (2 ^ k - 1) = BitVec.allOnes k :=
        BitVec.eq_of_toNat_eq (by simp [Nat.mod_eq_of_lt (show 2 ^ k - 1 < 2 ^ k by omega)])
      have hnat := congrArg BitVec.toNat (ofNat_without (w := k) (2 ^ k - 1) m)
      rw [hones, BitVec.allOnes_and, BitVec.toNat_ofNat, BitVec.toNat_not, BitVec.toNat_ofNat,
        Nat.mod_eq_of_lt hlt] at hnat
      exact hnat
    have hmod := Nat.mod_lt m hpos
    rw [Int.negSucc_emod m (by exact_mod_cast hpos)]
    change ((without (2 ^ k - 1) m : Nat) : Int) = _
    rw [hbits]
    push_cast [show m % 2 ^ k ≤ 2 ^ k - 1 by omega, show 1 ≤ 2 ^ k by omega]
    rfl

theorem not_bounds {m : Int} {k : Nat} (h : -2 ^ k ≤ m ∧ m < 2 ^ k) :
    -2 ^ k ≤ ~~~m ∧ ~~~m < 2 ^ k := by
  have hnot : ~~~m = -m - 1 := by
    cases m with
    | ofNat m =>
      change Int.negSucc m = -(m : Int) - 1
      omega
    | negSucc m =>
      rw [Int.negSucc_eq]
      change (m : Int) = _
      omega
  omega

/-- What two words have in common is a word. -/
theorem and_bounds {m n : Int} {k : Nat} (hm : -2 ^ k ≤ m ∧ m < 2 ^ k)
    (hn : -2 ^ k ≤ n ∧ n < 2 ^ k) : -2 ^ k ≤ Bits.and m n ∧ Bits.and m n < 2 ^ k := by
  have hcast : ((2 ^ k : Nat) : Int) = 2 ^ k := by push_cast; rfl
  rw [← hcast] at hm hn ⊢
  have hwithout (a b : Nat) (ha : a < 2 ^ k) : without a b < 2 ^ k :=
    Nat.xor_lt_two_pow ha (Nat.lt_of_le_of_lt Nat.and_le_left ha)
  cases m with
  | ofNat m =>
    have hm' : m < 2 ^ k := Int.ofNat_lt.1 hm.2
    cases n with
    | ofNat n =>
      have := Nat.lt_of_le_of_lt (Nat.and_le_left (n := m) (m := n)) hm'
      simp only [Bits.and, Int.ofNat_eq_natCast]
      omega
    | negSucc n =>
      have := hwithout m n hm'
      simp only [Bits.and, Int.ofNat_eq_natCast]
      omega
  | negSucc m =>
    cases n with
    | ofNat n =>
      have := hwithout n m (Int.ofNat_lt.1 hn.2)
      simp only [Bits.and, Int.ofNat_eq_natCast]
      omega
    | negSucc n =>
      have := Nat.or_lt_two_pow (x := m) (y := n) (n := k) (by omega) (by omega)
      simp only [Bits.and]
      omega

end Bits

namespace Word

/-! ## Words of 32 bits -/

theorem low_eq (n : Int) : Bits.and n 0xFFFFFFFF = n % 2 ^ 32 := Bits.and_mask n 32

/-- The signed word of an integer is its bit vector read with a sign. -/
theorem signed_eq (n : Int) : signed n = (BitVec.ofInt 32 n).toInt := by
  rw [BitVec.toInt_ofInt, Int.bmod_def, signed, low_eq]
  split_ifs <;> omega

/-- The unsigned word of an integer is its bit vector read without a sign. -/
theorem unsigned_eq (n : Int) : unsigned n = (BitVec.ofInt 32 n).toNat := by
  rw [unsigned, low_eq, BitVec.toNat_ofInt, signed_eq, BitVec.toInt_ofInt, Int.bmod_def]
  split_ifs <;> omega

theorem ofInt_signed (n : Int) : BitVec.ofInt 32 (signed n) = BitVec.ofInt 32 n := by
  rw [signed_eq, BitVec.ofInt_toInt]

/-- A word is what is read off its own bits. -/
theorem eq_toInt {z : Int} (h : -2 ^ 31 ≤ z ∧ z < 2 ^ 31) : z = (BitVec.ofInt 32 z).toInt :=
  (BitVec.toInt_ofInt_eq_self (by decide) h.1 h.2).symm

theorem signed_bounds (n : Int) : -2 ^ 31 ≤ signed n ∧ signed n < 2 ^ 31 := by
  rw [signed_eq]
  exact ⟨BitVec.le_toInt _, BitVec.toInt_lt⟩

variable (m n : Int)

theorem and_signed :
    Bits.and (signed m) (signed n) = (BitVec.ofInt 32 m &&& BitVec.ofInt 32 n).toInt := by
  rw [eq_toInt (Bits.and_bounds (signed_bounds m) (signed_bounds n)), Bits.ofInt_and, ofInt_signed,
    ofInt_signed]

theorem or_signed :
    signed (Bits.or (signed m) (signed n)) = (BitVec.ofInt 32 m ||| BitVec.ofInt 32 n).toInt := by
  rw [signed_eq, Bits.ofInt_or, ofInt_signed, ofInt_signed]

theorem xor_signed :
    signed (Bits.xor (signed m) (signed n)) = (BitVec.ofInt 32 m ^^^ BitVec.ofInt 32 n).toInt := by
  rw [signed_eq, Bits.ofInt_xor, ofInt_signed, ofInt_signed]

theorem not_signed : ~~~signed m = (~~~BitVec.ofInt 32 m).toInt := by
  rw [eq_toInt (Bits.not_bounds (signed_bounds m)), Bits.ofInt_not, ofInt_signed]

theorem shiftLeft_signed (k : Nat) :
    signed (signed m <<< k) = (BitVec.ofInt 32 m <<< k).toInt := by
  rw [signed_eq, Bits.ofInt_shiftLeft, ofInt_signed]

theorem shiftRight_signed (k : Nat) :
    signed m >>> k = ((BitVec.ofInt 32 m).sshiftRight k).toInt := by
  rw [signed_eq, BitVec.toInt_sshiftRight]

theorem shiftRight_unsigned (k : Nat) :
    unsigned m >>> k = ((BitVec.ofInt 32 m >>> k).toNat : Int) := by
  rw [unsigned_eq, BitVec.toNat_ushiftRight, Int.natCast_shiftRight]

/-- The number of places to shift by is read off the lowest five bits. -/
theorem count_eq : (Bits.and (unsigned n) 31).toNat = (BitVec.ofInt 32 n).toNat % 32 := by
  have hlow : Bits.and (unsigned n) 31 = unsigned n % 2 ^ 5 := Bits.and_mask (unsigned n) 5
  rw [hlow, unsigned_eq]
  omega

end Word

end GuardedText
