import GuardedText.Proofs.Number.Decimal
import GuardedText.Proofs.Number.Remainder
import GuardedText.Proofs.Text.Numeral

/-
  The numerals of numbers and the indices that numbers denote. A number is written as a natural
  number below 10^21 if and only if it is that natural number (`Num.toText_eq_ofNat_iff`), because
  the shortest decimal of a double reads back as it; so the text of a number tells which index it
  denotes (`Store.index?_num`).
-/

namespace GuardedText

namespace Double

/-! ## Written decimals -/

theorem plain_write (d : Decimal) : Style.plain.write d =
    (let ds := Nat.toDigits 10 d.digits
    let lead : Int := d.exponent + ds.length - 1
    if -4 ≤ lead ∧ lead < 16 then
      match d.exponent with
      | .ofNat k => ds ++ List.replicate k '0' ++ []
      | .negSucc k =>
        if lead < 0 then '0' :: '.' :: (List.replicate (lead + 1).natAbs '0' ++ ds)
        else ds.take (ds.length - (k + 1)) ++ '.' :: ds.drop (ds.length - (k + 1))
    else
      ds.take 1 ++ (if (ds.drop 1).isEmpty then [] else '.' :: ds.drop 1) ++
        ('e' :: (if lead < 0 then '-' else '+') :: padded 1 lead.natAbs)) := rfl

/-- A decimal that is written with nothing but digits is a natural number. -/
theorem exponent_of_write {d : Decimal}
    (h : ∀ c ∈ Style.plain.write d, (CodePoint.ofChar c).isAsciiDigit = true) :
    ∃ k : Nat, d.exponent = k ∧ d.digits * 10 ^ k < 10 ^ 16 := by
  have hpoint : (CodePoint.ofChar '.').isAsciiDigit ≠ true := by decide
  have hletter : (CodePoint.ofChar 'e').isAsciiDigit ≠ true := by decide
  rw [plain_write] at h
  dsimp only at h
  by_cases hlead : -4 ≤ d.exponent + (Nat.toDigits 10 d.digits).length - 1 ∧
      d.exponent + (Nat.toDigits 10 d.digits).length - 1 < 16
  · rw [if_pos hlead] at h
    cases hexp : d.exponent with
    | ofNat k =>
      refine ⟨k, rfl, ?_⟩
      rw [hexp, Int.ofNat_eq_natCast] at hlead
      have hdigits : d.digits < 10 ^ (Nat.toDigits 10 d.digits).length :=
        (Nat.length_toDigits_le_iff (by omega) Nat.length_toDigits_pos).1 le_rfl
      calc d.digits * 10 ^ k < 10 ^ (Nat.toDigits 10 d.digits).length * 10 ^ k :=
            Nat.mul_lt_mul_of_pos_right hdigits (Nat.pow_pos (by omega))
        _ = 10 ^ (k + (Nat.toDigits 10 d.digits).length) := by rw [← pow_add, Nat.add_comm]
        _ ≤ 10 ^ 16 := Nat.pow_le_pow_right (by omega) (by omega)
    | negSucc k =>
      rw [hexp] at h
      dsimp only at h
      exact absurd (h '.' (by split <;> simp)) hpoint
  · rw [if_neg hlead] at h
    exact absurd (h 'e' (by simp)) hletter

/-- A positive double whose shortest decimal is written with nothing but digits is a natural
number. -/
theorem natural_of_write {m : Nat} {q : Int} (h : IsParts m q)
    (hdigits : ∀ c ∈ Style.plain.write (shortest m q), (CodePoint.ofChar c).isAsciiDigit = true) :
    ∃ k : Nat, (m * 2 ^ q : ℚ) = k ∧ k < tenTo 21 := by
  have hread := readsBack_shortest h
  generalize shortest m q = d at hread hdigits
  obtain ⟨k, hk, hlt⟩ := exponent_of_write hdigits
  have hpos := value_pos_of_readsBack h.bitsOf_pos.ne' hread
  have hvalue : (d.fraction.1 / d.fraction.2 : ℚ) = (d.digits * 10 ^ k : Nat) := by
    rw [d.fraction_eq, Decimal.value, hk, zpow_natCast]
    push_cast
    rfl
  obtain ⟨n, hn, hle⟩ := exists_natural_of_nearest h (Decimal.fraction_num_pos hpos)
    d.fraction_pos hvalue (readsBack_iff.1 hread)
  refine ⟨n, hn, ?_⟩
  rw [tenTo_eq]
  omega

/-- A written decimal starts with a digit or a point. -/
theorem head_write {d : Decimal} {c : Char} (h : (Style.plain.write d).head? = some c) :
    c.isDigit = true ∨ c = '.' := by
  obtain ⟨c₀, rest, hds⟩ := List.exists_cons_of_ne_nil (Nat.toDigits_ne_nil (n := d.digits) (b := 10))
  have hdigit : c₀.isDigit = true :=
    Nat.isDigit_of_mem_toDigits (n := d.digits) (by omega) le_rfl (hds ▸ List.mem_cons_self)
  rw [plain_write, hds] at h
  dsimp only at h
  by_cases hlead : -4 ≤ d.exponent + (c₀ :: rest).length - 1 ∧
      d.exponent + (c₀ :: rest).length - 1 < 16
  · rw [if_pos hlead] at h
    cases hexp : d.exponent with
    | ofNat k =>
      rw [hexp] at h
      obtain rfl : c₀ = c := Option.some.inj h
      exact .inl hdigit
    | negSucc k =>
      rw [hexp] at h
      dsimp only at h
      split_ifs at h
      · obtain rfl : '0' = c := Option.some.inj h
        exact .inl rfl
      · cases hn : (c₀ :: rest).length - (k + 1) with
        | zero =>
          rw [hn] at h
          exact .inr (Option.some.inj h).symm
        | succ n =>
          rw [hn] at h
          obtain rfl : c₀ = c := Option.some.inj h
          exact .inl hdigit
  · rw [if_neg hlead] at h
    obtain rfl : c₀ = c := Option.some.inj h
    exact .inl hdigit

theorem head_render {x : Float} {c : Char} (h : (render .plain [] [] x).head? = some c) :
    c.isDigit = true ∨ c = '.' ∨ c = '-' := by
  have hpoint : Style.plain.keepsPoint = false := rfl
  unfold render at h
  cases hx : decode x with
  | nan => rw [hx] at h; cases h
  | infinite negative =>
    rw [hx] at h
    cases negative with
    | true => exact .inr (.inr (Option.some.inj h).symm)
    | false => cases h
  | finite negative m q =>
    rw [hx] at h
    cases negative with
    | true => exact .inr (.inr (Option.some.inj h).symm)
    | false =>
      simp only [hpoint, Bool.false_eq_true, if_false] at h
      split_ifs at h
      · obtain rfl : '0' = c := Option.some.inj h
        exact .inl rfl
      · exact (head_write h).imp_right .inl

/-! ## Naturals among the doubles -/

/-- The double nearest to an integer is an integer. -/
theorem isInteger_of_ofInt? {n : Int} {x : Float} (h : ofInt? n = some x) : isInteger x = true := by
  rcases ofInt?_cases n with ⟨-, y, k, hy, ⟨m, q, hdecode, hvalue⟩, -⟩ | ⟨-, hnone⟩
  · cases h.symm.trans hy
    exact (isInteger_iff hdecode).2 ⟨k, hvalue⟩
  · rw [hnone] at h
    cases h

end Double

namespace Num

open Double

/-- What it is for a number to be a natural number. -/
def IsNatural (i : Nat) : Num → Prop
  | .int n => n = i
  | .float x => Double.isInteger x = true ∧ Double.truncate? x = some (i : Int)

theorem exists_decode_of_isInteger {x : Float} (h : Double.isInteger x = true) :
    ∃ negative m q, decode x = .finite negative m q := by
  unfold Double.isInteger at h
  split at h
  · exact ⟨_, _, _, ‹_›⟩
  · cases h

theorem exists_decode_of_truncate? {x : Float} {n : Int} (h : Double.truncate? x = some n) :
    ∃ negative m q, decode x = .finite negative m q := by
  unfold Double.truncate? at h
  split at h
  · exact ⟨_, _, _, ‹_›⟩
  · cases h

theorem float_toText (x : Float) : (Num.float x).toText =
    match Double.truncate? x with
    | some n =>
      if Double.isInteger x && decide (n.natAbs < tenTo 21) then Text.ofInt n
      else (Double.render .plain [] [] x).map CodePoint.ofChar
    | none =>
      if Double.isNaN x then "NaN" else if Double.isNegative x then "-Infinity" else "Infinity" :=
  rfl

/-- A numeral is written for a number only if it is that natural number. -/
theorem natural_of_toText {n : Num} {i : Nat} (h : n.toText = Text.ofNat i) : n.IsNatural i := by
  have hdigit {c : CodePoint} (hc : c ∈ n.toText) : c.isAsciiDigit = true :=
    Text.isAsciiDigit_of_mem_ofNat (h ▸ hc)
  cases n with
  | int n => exact Text.ofInt_eq_ofNat_iff.1 h
  | float x =>
    rw [float_toText] at h hdigit
    cases hx : Double.truncate? x with
    | none =>
      rw [hx] at hdigit
      dsimp only at hdigit
      split_ifs at hdigit
      · exact absurd (hdigit (c := 'N') (by decide)) (by decide)
      · exact absurd (hdigit (c := '-') (by decide)) (by decide)
      · exact absurd (hdigit (c := 'I') (by decide)) (by decide)
    | some n =>
      rw [hx] at h hdigit
      dsimp only at h hdigit
      by_cases hsmall : (Double.isInteger x && decide (n.natAbs < tenTo 21)) = true
      · rw [if_pos hsmall] at h
        exact ⟨(Bool.and_eq_true_iff.1 hsmall).1, hx.trans (by rw [Text.ofInt_eq_ofNat_iff.1 h])⟩
      · -- Such a double is never written with nothing but digits.
        rw [if_neg hsmall] at hdigit
        obtain ⟨negative, m, q, hdecode⟩ := exists_decode_of_truncate? hx
        refine absurd ?_ hsmall
        obtain ⟨k, hk, hlt⟩ : ∃ k : Nat, (m * 2 ^ q : ℚ) = k ∧ k < tenTo 21 := by
          rcases (decode_eq hdecode).1 with rfl | hparts
          · exact ⟨0, by simp, by decide⟩
          · refine natural_of_write hparts fun c hc => hdigit (List.mem_map_of_mem ?_)
            rw [Double.render, hdecode]
            cases negative <;> simp [hparts.pos.ne', hc]
        rw [truncate?_of_natural hdecode hk, Option.some.injEq] at hx
        have hint := (isInteger_iff hdecode).2 ⟨k, hk⟩
        rw [hint, Bool.true_and, decide_eq_true_eq, ← hx]
        split_ifs <;> omega

/-- A number is written as a natural number below 10^21 if and only if it is that number. -/
theorem toText_eq_ofNat_iff {n : Num} {i : Nat} (hi : i < tenTo 21) :
    n.toText = Text.ofNat i ↔ n.IsNatural i := by
  refine ⟨natural_of_toText, fun h => ?_⟩
  cases n with
  | int n => exact Text.ofInt_eq_ofNat_iff.2 h
  | float x =>
    obtain ⟨hint, htrunc⟩ := h
    simp [toText, htrunc, hint, hi, Text.ofInt]

/-- The text of a number never starts with a small letter. -/
theorem not_startsSmall_toText (n : Num) : n.toText.startsSmall = false := by
  have hint (i : Int) : (Text.ofInt i).startsSmall = false := by
    cases i with
    | ofNat n => exact Text.not_startsSmall_ofNat n
    | negSucc n => exact (by decide : CodePoint.between 'a' 'z' '-' = false)
  cases n with
  | int n => exact hint n
  | float x =>
    rw [float_toText]
    split
    · split_ifs
      · exact hint _
      · rw [Text.startsSmall, List.head?_map]
        cases hhead : (Double.render .plain [] [] x).head? with
        | none => rfl
        | some c =>
          rcases head_render hhead with hc | rfl | rfl
          · exact CodePoint.not_small_of_isDigit
              (CodePoint.isDigit_of_isAsciiDigit (CodePoint.isAsciiDigit_ofChar hc))
          · decide
          · decide
    · split_ifs <;> decide

end Num

/-! ## Indices -/

namespace Num

open Double

theorem int_below_zero (n : Int) : (Num.int n).below (.int 0) = decide (n < 0) := by
  simp [below, compare?, Bool.beq_eq_decide_eq, Int.compare_eq_lt]

/-- The natural numbers with a sign that are below zero are those that are not zero. -/
theorem float_below_zero {x : Float} {negative : Bool} {m k : Nat} {q : Int}
    (h : Double.decode x = .finite negative m q) (hk : (m * 2 ^ q : ℚ) = k) :
    (Num.float x).below (.int 0) = (negative && decide (k ≠ 0)) := by
  have hpos : (0 : Int) < (fraction m q).2 := by exact_mod_cast fraction_pos m q
  have hcompare : compareInt? 0 x = some (compare (0 : Int)
      (if negative then -(k * (fraction m q).2 : Int) else k * (fraction m q).2)) := by
    rw [compareInt?, h]
    dsimp only
    rw [Int.zero_mul, fraction_of_natural hk]
    push_cast
    rfl
  rw [below, compare?, hcompare]
  rcases Nat.eq_zero_or_pos k with rfl | hnonzero
  · cases negative <;> simp
  · have hmul : (0 : Int) < k * (fraction m q).2 := Int.mul_pos (by omega) hpos
    cases negative with
    | true =>
      have hgt : compare (0 : Int) (-(k * (fraction m q).2)) = .gt := by
        rw [Int.compare_eq_gt]
        omega
      simp [hgt, hnonzero.ne']
    | false =>
      have hlt : compare (0 : Int) (k * (fraction m q).2) = .lt := Int.compare_eq_lt.2 hmul
      simp [hlt]

end Num

namespace Store

theorem index?_num {n : Num} {x : Float} (h : n.toFloat = .ok x) : index? (.num n) =
    .ok (if Double.isInteger x && !n.below (.int 0) then n.truncate?.map Int.toNat else none) := by
  rw [index?, h]
  show (if _ then _ else _) = _
  split_ifs <;> rfl

/-- The index that a number denotes is the natural number that it is. -/
theorem index?_num_iff {n : Num} {x : Float} (h : n.toFloat = .ok x) (i : Nat) :
    index? (.num n) = .ok (some i) ↔ n.IsNatural i := by
  rw [index?_num h, Except.ok.injEq]
  cases n with
  | int n =>
    have hint : Double.ofInt? n = some x := by
      rw [Num.toFloat] at h
      cases hx : Double.ofInt? n <;> rw [hx] at h <;> cases h
      rfl
    simp only [Double.isInteger_of_ofInt? hint, Num.int_below_zero, Num.truncate?, Num.IsNatural]
    split_ifs with hneg
    · simp at hneg ⊢
      omega
    · simp at hneg ⊢
      omega
  | float y =>
    obtain rfl : y = x := by simpa [Num.toFloat] using h
    rw [Num.IsNatural, Num.truncate?]
    cases hinteger : Double.isInteger y with
    | false => simp
    | true =>
      obtain ⟨negative, m, q, hdecode⟩ := Num.exists_decode_of_isInteger hinteger
      obtain ⟨k, hk⟩ := (Double.isInteger_iff hdecode).1 hinteger
      rw [Double.truncate?_of_natural hdecode hk, Num.float_below_zero hdecode hk]
      cases negative <;> by_cases hzero : k = 0 <;> simp [hzero] <;> omega

end Store

end GuardedText
