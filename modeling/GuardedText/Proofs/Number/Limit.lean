import Mathlib.Data.Nat.Digits.Defs
import GuardedText.Number.Reader
import GuardedText.Value.Basic
import GuardedText.Proofs.Result

/-
  The limit on numerals. An integer is written if and only if it is below 10^4300 in size
  (`Num.isWritable_int`), and a numeral is read if and only if it has at most 4300 digits or its
  radix is a power of two (`Numeral.read_eq_ok_iff`); otherwise both fail and change nothing.
-/

namespace GuardedText

/-- A numeral has at most so many digits if and only if its number is below that power of ten. -/
theorem Text.length_ofNat_le_iff {n k : Nat} (hk : 0 < k) :
    (Text.ofNat n).length ≤ k ↔ n < 10 ^ k := by
  rw [Text.ofNat, List.length_map]
  exact Nat.length_toDigits_le_iff (by omega) hk

namespace Numeral

theorem isReadable_of_le {radix count : Nat} (h : count ≤ maxDigits) :
    isReadable radix count = true := by
  simp [isReadable, h]

/-- In radix ten, digits are counted. -/
@[simp]
theorem isReadable_ten {count : Nat} : isReadable 10 count = true ↔ count ≤ maxDigits := by
  simp [isReadable]

theorem read_of_isReadable {radix : Nat} {ds : List Nat} (h : isReadable radix ds.length = true) :
    read radix ds = .ok (ofDigits radix ds) :=
  if_pos h

theorem read_of_not {radix : Nat} {ds : List Nat} (h : ¬ isReadable radix ds.length = true) :
    read radix ds = .error .badValue :=
  if_neg h

theorem isSome_read (radix : Nat) (ds : List Nat) :
    (read radix ds).toOption.isSome = isReadable radix ds.length := by
  by_cases h : isReadable radix ds.length = true
  · rw [read_of_isReadable h, h]
    rfl
  · rw [read_of_not h, Bool.eq_false_iff.2 h]
    rfl

/-- Digits are read as the number they write, if there are not too many. -/
theorem read_eq_ok_iff {radix n : Nat} {ds : List Nat} :
    read radix ds = .ok n ↔ isReadable radix ds.length = true ∧ ofDigits radix ds = n := by
  by_cases h : isReadable radix ds.length = true
  · simp [read_of_isReadable h, h]
  · simp [read_of_not h, h]

/-- How many decimal digits a text starts with, a sign aside. -/
def digitCount (t : Text) : Nat := (decimals (sign t).2).1.length

theorem accept_int_of_le {t : Text} (h : digitCount t ≤ maxDigits) (n : Int) :
    accept t (.int n) = .ok (.int n) :=
  if_pos (isReadable_of_le h)

theorem accept_of_le {t : Text} (h : digitCount t ≤ maxDigits) (n : Num) : accept t n = .ok n := by
  cases n with
  | int n => exact accept_int_of_le h n
  | float x => rfl

/-- A number at the start of a text is taken as it is, or refused as too long. -/
theorem accept_eq (t : Text) (n : Num) :
    accept t n = .ok n ∨
      accept t n = .error .badValue ∧ maxDigits < digitCount t ∧ ∃ k, n = .int k := by
  cases n with
  | int n =>
    by_cases h : digitCount t ≤ maxDigits
    · exact .inl (accept_int_of_le h n)
    · exact .inr ⟨if_neg fun hten => h (isReadable_ten.1 hten), not_le.1 h, n, rfl⟩
  | float x => exact .inl rfl

end Numeral

namespace Num

/-- An integer is written if and only if it has at most as many digits as the limit says. -/
theorem isWritable_int {n : Int} :
    (Num.int n).isWritable = true ↔ n.natAbs < 10 ^ Numeral.maxDigits := by
  rw [isWritable, decide_eq_true_iff]
  exact Text.length_ofNat_le_iff (by decide)

theorem write_of_isWritable {n : Num} (h : n.isWritable = true) : n.write = .ok n.toText := if_pos h

theorem write_of_not {n : Num} (h : ¬ n.isWritable = true) : n.write = .error .badValue := if_neg h

@[simp]
theorem write_float (x : Float) : (Num.float x).write = .ok (Num.float x).toText := rfl

/-- A number is written as its numeral, if it is written. -/
theorem write_eq_ok_iff {n : Num} {t : Text} :
    n.write = .ok t ↔ n.isWritable = true ∧ n.toText = t := by
  by_cases h : n.isWritable = true
  · simp [write_of_isWritable h, h]
  · simp [write_of_not h, h]

theorem write_eq_error_iff {n : Num} {e : Fault} :
    n.write = .error e ↔ ¬ n.isWritable = true ∧ e = .badValue := by
  by_cases h : n.isWritable = true
  · simp [write_of_isWritable h, h]
  · simp [write_of_not h, h, eq_comm]

end Num

namespace Key

/-- Whether the name of a key is written out: that of an integer may have only so many digits. -/
def IsWritable : Key → Prop
  | .name _ => True
  | .number n => n.natAbs < 10 ^ Numeral.maxDigits

theorem write_of_isWritable {k : Key} (h : k.IsWritable) : k.write = .ok k.toText := by
  cases k with
  | name => rfl
  | number n => exact Num.write_of_isWritable (Num.isWritable_int.2 h)

theorem write_eq_ok_iff {k : Key} {t : Text} :
    k.write = .ok t ↔ k.IsWritable ∧ k.toText = t := by
  cases k with
  | name n => simp [write, IsWritable, toText]
  | number n => rw [write, Num.write_eq_ok_iff, Num.isWritable_int]; rfl

end Key

/-- The entries of a mapping have names if and only if all their keys are written out. -/
theorem namedEntries_eq_ok_iff {entries : Entries} {named : List (Text × Value)} :
    namedEntries entries = .ok named ↔
      (∀ entry ∈ entries, entry.1.IsWritable) ∧ entries.map (fun (k, v) => (k.toText, v)) = named := by
  induction entries generalizing named with
  | nil => simp [namedEntries, Except.pure_eq_ok]
  | cons entry entries ih =>
    obtain ⟨k, v⟩ := entry
    rw [namedEntries, List.mapM_cons, ← namedEntries, List.forall_mem_cons]
    simp only [Except.bind_eq_ok, Except.pure_eq_ok, Key.write_eq_ok_iff, ih]
    constructor
    · rintro ⟨_, ⟨_, ⟨hk, rfl⟩, rfl⟩, _, ⟨hrest, rfl⟩, rfl⟩
      exact ⟨⟨hk, hrest⟩, rfl⟩
    · rintro ⟨⟨hk, hrest⟩, rfl⟩
      exact ⟨_, ⟨_, ⟨hk, rfl⟩, rfl⟩, _, ⟨hrest, rfl⟩, rfl⟩

end GuardedText
