import Mathlib.Data.List.Basic
import Mathlib.Tactic.IntervalCases
import GuardedText.Value.Property
import GuardedText.Proofs.Number.Limit

/-
  Decimal numerals as texts. The digits of a numeral write its number (`ofDigits_ofNat`), so reading
  them gives the number back (`numeral?_ofNat`), different numbers have different numerals
  (`ofNat_injective`), and the index that a numeral denotes is its number
  (`Store.index?_ofNat_iff`).
-/

namespace GuardedText

namespace CodePoint

theorem isAsciiDigit_ofChar {c : Char} (h : c.isDigit = true) :
    (ofChar c).isAsciiDigit = true := by
  obtain ⟨hlow, hhigh⟩ : 48 ≤ c.toNat ∧ c.toNat ≤ 57 := by
    simpa [Char.isDigit, UInt32.le_iff_toNat_le] using h
  have hval : (ofChar c).val = c.toNat := Nat.mod_eq_of_lt (by omega)
  simp [isAsciiDigit, between, hval, hlow, hhigh]

theorem val_lt_of_isAsciiDigit {c : CodePoint} (h : c.isAsciiDigit = true) : c.val < 0x80 := by
  simp only [isAsciiDigit, between, Bool.and_eq_true, decide_eq_true_eq] at h
  exact Nat.lt_of_le_of_lt h.2 (by decide)

theorem decimalValue?_of_isAsciiDigit {c : CodePoint} (h : c.isAsciiDigit = true) :
    c.decimalValue? = some (c.val - 0x30) := by
  rw [decimalValue?, if_pos (val_lt_of_isAsciiDigit h), if_pos h]

theorem digitValue?_of_isAsciiDigit {c : CodePoint} (h : c.isAsciiDigit = true) :
    c.digitValue? = some (c.val - 0x30) := by
  rw [digitValue?, if_pos h]

theorem isDecimal_of_isAsciiDigit {c : CodePoint} (h : c.isAsciiDigit = true) :
    c.isDecimal = true := by
  rw [isDecimal, decimalValue?_of_isAsciiDigit h, Option.isSome_some]

theorem isDigit_of_isAsciiDigit {c : CodePoint} (h : c.isAsciiDigit = true) :
    c.isDigit = true := by
  rw [isDigit, isDecimal_of_isAsciiDigit h, Bool.true_or]

/-- No small letter is a digit. -/
theorem not_small_of_isDigit {c : CodePoint} (h : c.isDigit = true) :
    between 'a' 'z' c = false := by
  by_contra hletter
  obtain ⟨hlow, hhigh⟩ : 97 ≤ c.val ∧ c.val ≤ 122 := by
    simpa [between] using hletter
  rw [isDigit, Bool.or_eq_true] at h
  rcases h with h | h
  · have hascii : c.isAsciiDigit = true := by
      simpa [isDecimal, decimalValue?, show c.val < 128 by omega, Option.isSome_ite] using h
    have : c.val ≤ 57 := by
      simp only [isAsciiDigit, between, Bool.and_eq_true, decide_eq_true_eq] at hascii
      exact hascii.2
    omega
  · obtain ⟨range, hmem, hrange⟩ := List.any_eq_true.1 h
    have hfirst : ∀ range ∈ Text.lonelyDigitRanges, 0xB2 ≤ range.1 := by decide
    have := hfirst range hmem
    simp only [Bool.and_eq_true, decide_eq_true_eq] at hrange
    omega

end CodePoint

namespace Text

/-- Whether a text starts with a small letter, as the names of lengths and functions do. -/
def startsSmall (t : Text) : Bool := t.head?.any (CodePoint.between 'a' 'z')

/-- The number that a text of decimal digits writes. -/
def numeral? (t : Text) : Option Nat :=
  (t.mapM CodePoint.decimalValue?).map (Numeral.ofDigits 10)

theorem ofNat_of_lt {n : Nat} (h : n < 10) : ofNat n = [CodePoint.ofChar n.digitChar] := by
  rw [ofNat, Nat.toDigits_of_lt_base h]
  rfl

theorem ofNat_of_le {n : Nat} (h : 10 ≤ n) :
    ofNat n = ofNat (n / 10) ++ [CodePoint.ofChar (n % 10).digitChar] := by
  rw [ofNat, Nat.toDigits_of_base_le (by omega) h, List.map_append]
  rfl

/-- The digits of a numeral write its number. -/
theorem ofDigits_ofNat (n : Nat) :
    Numeral.ofDigits 10 ((ofNat n).map fun c => c.val - 0x30) = n := by
  have hdigit {m : Nat} (h : m < 10) : (CodePoint.ofChar m.digitChar).val - 0x30 = m := by
    interval_cases m <;> rfl
  induction n using Nat.strongRecOn with
  | ind n ih =>
    rcases Nat.lt_or_ge n 10 with hlt | hle
    · simp [ofNat_of_lt hlt, Numeral.ofDigits, hdigit hlt]
    · rw [ofNat_of_le hle, List.map_append, Numeral.ofDigits, List.foldl_append,
        ← Numeral.ofDigits, ih (n / 10) (Nat.div_lt_self (by omega) (by omega))]
      simp only [List.map_cons, List.map_nil, List.foldl_cons, List.foldl_nil,
        hdigit (Nat.mod_lt n (show 0 < 10 by omega))]
      omega

theorem isAsciiDigit_of_mem_ofNat {n : Nat} {c : CodePoint} (h : c ∈ ofNat n) :
    c.isAsciiDigit = true := by
  obtain ⟨d, hd, rfl⟩ := List.mem_map.1 h
  exact CodePoint.isAsciiDigit_ofChar (Nat.isDigit_of_mem_toDigits (by omega) le_rfl hd)

theorem ofNat_ne_nil (n : Nat) : ofNat n ≠ [] := by
  simp [ofNat, Nat.toDigits_ne_nil]

theorem exists_ofNat_cons (n : Nat) : ∃ c w, ofNat n = c :: w ∧ c.isAsciiDigit = true := by
  obtain ⟨c, w, hw⟩ := List.exists_cons_of_ne_nil (ofNat_ne_nil n)
  exact ⟨c, w, hw, isAsciiDigit_of_mem_ofNat (hw ▸ List.mem_cons_self)⟩

/-- The values of digits, given what each digit is read as. -/
theorem mapM_digits {f : CodePoint → Option Nat} {w : Text}
    (h : ∀ c ∈ w, f c = some (c.val - 0x30)) : w.mapM f = some (w.map fun c => c.val - 0x30) := by
  induction w with
  | nil => rfl
  | cons c w ih =>
    rw [List.mapM_cons, h c List.mem_cons_self, ih fun d hd => h d (List.mem_cons_of_mem _ hd)]
    rfl

theorem mapM_ofNat (n : Nat) :
    (ofNat n).mapM CodePoint.decimalValue? = some ((ofNat n).map fun c => c.val - 0x30) :=
  mapM_digits fun _ hc => CodePoint.decimalValue?_of_isAsciiDigit (isAsciiDigit_of_mem_ofNat hc)

/-- The digits of a numeral read back as its number. -/
theorem numeral?_ofNat (n : Nat) : numeral? (ofNat n) = some n := by
  rw [numeral?, mapM_ofNat, Option.map_some, ofDigits_ofNat]

theorem ofNat_injective {m n : Nat} (h : ofNat m = ofNat n) : m = n := by
  have := numeral?_ofNat n
  rwa [← h, numeral?_ofNat, Option.some.injEq] at this

@[simp] theorem ofNat_inj {m n : Nat} : ofNat m = ofNat n ↔ m = n :=
  ⟨ofNat_injective, fun h => h ▸ rfl⟩

theorem not_startsSmall_of_digits {t : Text} (h : t.all CodePoint.isDigit = true) :
    t.startsSmall = false := by
  cases t with
  | nil => rfl
  | cons c t => exact CodePoint.not_small_of_isDigit (List.all_eq_true.1 h c List.mem_cons_self)

theorem isDigit_ofNat (n : Nat) : (ofNat n).all CodePoint.isDigit = true :=
  List.all_eq_true.2 fun _ hc => CodePoint.isDigit_of_isAsciiDigit (isAsciiDigit_of_mem_ofNat hc)

theorem not_startsSmall_ofNat (n : Nat) : (ofNat n).startsSmall = false :=
  not_startsSmall_of_digits (isDigit_ofNat n)

/-- An integer is written as a natural number if and only if it is that number. -/
theorem ofInt_eq_ofNat_iff {i : Int} {n : Nat} : ofInt i = ofNat n ↔ i = n := by
  cases i with
  | ofNat m => simp [ofInt]
  | negSucc m =>
    refine iff_of_false (fun h => ?_) (by omega)
    have := isAsciiDigit_of_mem_ofNat (h ▸ List.mem_cons_self : CodePoint.ofChar '-' ∈ ofNat n)
    revert this
    decide

end Text

/-- The digits of a numeral are read if its number is within the limit. -/
theorem Numeral.read_ofNat_iff {n m : Nat} :
    read 10 ((Text.ofNat n).map fun c => c.val - 0x30) = .ok m ↔ n < 10 ^ maxDigits ∧ n = m := by
  rw [read_eq_ok_iff, isReadable_ten, List.length_map, Text.length_ofNat_le_iff (by decide),
    Text.ofDigits_ofNat]

namespace Store

/-- The index that a numeral denotes is its number, if the numeral is read. -/
theorem index?_ofNat_iff {n i : Nat} :
    index? (.text (Text.ofNat n)) = .ok (some i) ↔ n < 10 ^ Numeral.maxDigits ∧ i = n := by
  have hempty : (Text.ofNat n).isEmpty = false := by
    simpa [List.isEmpty_eq_false_iff] using Text.ofNat_ne_nil n
  rw [index?, hempty, Text.isDigit_ofNat, Text.mapM_ofNat, eq_comm (a := i), ← Numeral.read_ofNat_iff]
  change (Numeral.read 10 _ >>= fun m => Except.ok (some m)) = _ ↔ _
  simp [Except.bind_eq_ok]

theorem index?_ofNat {n : Nat} (h : n < 10 ^ Numeral.maxDigits) :
    index? (.text (Text.ofNat n)) = .ok (some n) :=
  index?_ofNat_iff.2 ⟨h, rfl⟩

end Store

end GuardedText
