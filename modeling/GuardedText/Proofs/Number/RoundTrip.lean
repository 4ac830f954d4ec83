import GuardedText.Proofs.Guard.Numeral
import GuardedText.Proofs.Number.Integer
import GuardedText.Proofs.Value.Arithmetic

/-
  Integers from their numerals. The numeral of an integer is read by conversion to a number
  (`Store.textToNumber_ofInt`), by the search for an integer at the start of a text
  (`Store.parseInt_ofInt`), by loose equality (`Store.looseEquals_ofInt`) and, unless it has a sign,
  by the grammar of guards, and each of them finds the integer again (`Num.toText_reads_back`).
-/

namespace GuardedText

namespace Text

theorem not_isBlank_ofInt {n : Int} {c : CodePoint} (hc : c ∈ ofInt n) : c.isBlank = false := by
  cases n with
  | ofNat k => exact Numeral.not_isBlank_ofNat hc
  | negSucc k =>
    rcases List.mem_cons.1 hc with rfl | hc
    · decide
    · exact Numeral.not_isBlank_ofNat hc

theorem strip_ofInt (n : Int) : (ofInt n).strip = ofInt n :=
  Numeral.strip_eq fun _ => not_isBlank_ofInt

theorem ofInt_ne_nil (n : Int) : ofInt n ≠ [] := by
  cases n with
  | ofNat k => exact ofNat_ne_nil k
  | negSucc k => exact List.cons_ne_nil _ _

end Text

namespace Numeral

/-! ## Signs and digits -/

theorem sign_ofInt (n : Int) : sign (Text.ofInt n) = (decide (n < 0), Text.ofNat n.natAbs) := by
  cases n with
  | ofNat k =>
    refine (sign_of_decimals (List.all_eq_true.2 fun c hc => ?_)).trans ?_
    · exact CodePoint.isDecimal_of_isAsciiDigit (Text.isAsciiDigit_of_mem_ofNat hc)
    · simp [Text.ofInt]
  | negSucc k => simp [Text.ofInt, sign]

/-- The sign and the digits of an integer make it. -/
theorem ite_natAbs (n : Int) :
    (if decide (n < 0) = true then -(n.natAbs : Int) else n.natAbs) = n := by
  split_ifs with h
  · have := of_decide_eq_true h
    omega
  · have := of_decide_eq_false (Bool.eq_false_iff.2 h)
    omega

theorem decimals_digits {w : Text} (h : ∀ c ∈ w, c.isAsciiDigit = true) :
    decimals w = (w.map fun c => c.val - 0x30, []) := by
  induction w with
  | nil => rfl
  | cons c w ih =>
    rw [decimals, CodePoint.decimalValue?_of_isAsciiDigit (h c List.mem_cons_self),
      ih fun d hd => h d (List.mem_cons_of_mem c hd)]
    rfl

theorem leadingDigits_digits {w : Text} (h : ∀ c ∈ w, c.isAsciiDigit = true) :
    leadingDigits 10 w = w.map fun c => c.val - 0x30 := by
  induction w with
  | nil => rfl
  | cons c w ih =>
    have hc := h c List.mem_cons_self
    rw [leadingDigits_of_digit (CodePoint.digitValue?_of_isAsciiDigit hc)
      (decimalValue?_lt (CodePoint.decimalValue?_of_isAsciiDigit hc)),
      ih fun d hd => h d (List.mem_cons_of_mem c hd), List.map_cons]

/-! ## The numeral as a whole -/

/-- Digits are read with the sign that stands in front of them. -/
theorem unsigned?_ofNat (negative : Bool) (k : Nat) :
    unsigned? negative (Text.ofNat k) = some (.int (if negative then -(k : Int) else k), []) := by
  have hvalues := decimals_digits fun c => Text.isAsciiDigit_of_mem_ofNat (n := k) (c := c)
  have hne : ((Text.ofNat k).map fun c => c.val - 0x30).isEmpty = false := by
    simpa using Text.ofNat_ne_nil k
  have hvalue := Text.ofDigits_ofNat k
  rw [unsigned?, hvalues]
  simp [hne, exponent, hvalue]

theorem signed?_ofInt (n : Int) : signed? (Text.ofInt n) = some (.int n, []) := by
  have hinfinity : Text.after? "Infinity" (Text.ofNat n.natAbs) = none := by
    obtain ⟨c, w, hw, hdigit⟩ := Text.exists_ofNat_cons n.natAbs
    have hletter : CodePoint.ofChar 'I' ≠ c := by
      rintro rfl
      cases hdigit
    rw [hw]
    exact if_neg hletter
  rw [signed?, sign_ofInt]
  dsimp only
  rw [hinfinity]
  dsimp only
  rw [unsigned?_ofNat, ite_natAbs]

theorem radixed?_ofInt (n : Int) : radixed? (Text.ofInt n) = none := by
  cases n with
  | negSucc k =>
    obtain ⟨c, w, hw⟩ := List.exists_cons_of_ne_nil (Text.ofNat_ne_nil (k + 1))
    rw [Text.ofInt, hw]
    rfl
  | ofNat k =>
    rw [Text.ofInt]
    unfold radixed?
    split
    · rename_i c d t h
      have hradix := Token.announcedRadix?_ofNat (k := k) (r := []) rfl (by rw [List.append_nil, h])
      rw [hradix, Option.bind_none, ite_self]
    · rfl

theorem ofText?_ofInt (n : Int) : ofText? (Text.ofInt n) = some (.int n) := by
  rw [ofText?, radixed?_ofInt, signed?_ofInt]

/-- Nothing stands behind the digits of a number. -/
theorem keptAfter_ofNat (k : Nat) :
    KeptAfter (announced 10 (Text.ofNat k)).1.toNat (announced 10 (Text.ofNat k)).2 := by
  have hall : (Text.ofNat k).dropWhile (CodePoint.isDigitIn 10) = [] := by
    rw [List.dropWhile_eq_nil_iff]
    intro c hc
    have hc := Text.isAsciiDigit_of_mem_ofNat hc
    simp [CodePoint.isDigitIn, CodePoint.digitValue?_of_isAsciiDigit hc,
      decimalValue?_lt (CodePoint.decimalValue?_of_isAsciiDigit hc)]
  have hannounced : announced 10 (Text.ofNat k) = (10, Text.ofNat k) := rfl
  intro c hc
  rw [hannounced] at hc
  change (List.dropWhile (CodePoint.isDigitIn 10) _).head? = some c at hc
  rw [hall] at hc
  cases hc

/-- The digits of a number are its magnitude in radix ten. -/
theorem magnitude?_ofNat (k : Nat) : magnitude? 10 (Text.ofNat k).lower = some k := by
  have hdigits := leadingDigits_digits fun c => Text.isAsciiDigit_of_mem_ofNat (n := k) (c := c)
  have hreading : reading? 10 (Text.ofNat k) = some k := by
    obtain ⟨c, w, hw⟩ := List.exists_cons_of_ne_nil (Text.ofNat_ne_nil k)
    have hvalue := Text.ofDigits_ofNat k
    rw [ofDigits_eq] at hvalue
    rw [reading?, hdigits]
    rw [hw, List.map_cons] at hvalue ⊢
    exact congrArg some hvalue
  rw [magnitude?_lower (keptAfter_ofNat k)]
  exact hreading

end Numeral

namespace Store

open Numeral

/-! ## Reading an integer -/

theorem textToNumber_ofInt {n : Int} (hn : n.natAbs < 10 ^ maxDigits) :
    textToNumber (Text.ofInt n) = .ok (.int n) := by
  have hempty : (Text.ofInt n).isEmpty = false := by simpa using Text.ofInt_ne_nil n
  have hcount : digitCount (Text.ofInt n) ≤ maxDigits := by
    rw [digitCount, sign_ofInt, decimals_digits fun c => Text.isAsciiDigit_of_mem_ofNat, List.length_map]
    exact (Text.length_ofNat_le_iff (by decide)).2 hn
  rw [textToNumber, Text.strip_ofInt]
  simp [hempty, ofText?_ofInt, accept_of_le hcount]

/-- The digits of a number within the limit are few enough to be read. -/
theorem isRead_ofNat {k : Nat} (hk : k < 10 ^ maxDigits) : isRead 10 (Text.ofNat k).lower = true := by
  have hlength : (leadingDigits 10 (Text.ofNat k)).length ≤ maxDigits := by
    rw [leadingDigits_digits fun c => Text.isAsciiDigit_of_mem_ofNat, List.length_map]
    exact (Text.length_ofNat_le_iff (by decide)).2 hk
  rw [isRead_lower (keptAfter_ofNat k)]
  exact isReadable_ten.2 hlength

theorem parseInt_ofInt (s : Store) {n : Int} (hn : n.natAbs < 10 ^ maxDigits) :
    s.parseInt (.text (Text.ofInt n)) .undefined = .ok (.int n) := by
  have hdrop : (Text.ofInt n).dropWhile CodePoint.isSign = Text.ofNat n.natAbs := by
    rw [dropWhile_isSign, sign_ofInt]
    rw [sign_ofInt]
    intro c hc
    simpa using CodePoint.of_isAsciiDigit (Text.isAsciiDigit_of_mem_ofNat (List.mem_of_head? hc))
      (!CodePoint.isSign ·) (by decide)
  have hread := parseInt_text s (Text.ofInt n) none
  rw [Text.strip_ofInt, hdrop, sign_ofInt] at hread
  have hmagnitude : magnitude? ((none : Option Num).elim 10 Num.toInt32)
      (Text.lower (Text.ofNat n.natAbs)) = some n.natAbs := magnitude?_ofNat _
  dsimp only at hread
  rw [hmagnitude, withSign, Option.elim_some, ite_natAbs] at hread
  exact hread.trans (if_pos (isRead_ofNat hn))

theorem looseEquals_ofInt (s : Store) {n : Int} (hn : n.natAbs < 10 ^ maxDigits) :
    s.looseEquals (.text (Text.ofInt n)) (.num (.int n)) = .ok true ∧
      s.looseEquals (.num (.int n)) (.text (Text.ofInt n)) = .ok true := by
  have hequal : (Num.int n).equal (.int n) = true := by rw [Num.equal_int, decide_eq_true rfl]
  constructor
  · rw [looseEquals]
    simp [isNothing, typeName, textToNumber_ofInt hn, hequal]
  · rw [looseEquals]
    simp [isNothing, typeName, textToNumber_ofInt hn, hequal]

end Store

namespace Num

open Token

/-- Every reader of numbers finds an integer within the limit again in its text. Conversion to a
number does, the function for integers does, and the text is loosely equal to the integer. The text
of a natural number is a guard, a literal with the number. An entry of an object that starts with it
has it as its key and as nothing else, and the name of the property is that text again. -/
theorem toText_reads_back {n : Int} (hlimit : n.natAbs < 10 ^ Numeral.maxDigits) (s : Store)
    (w : World) :
    s.toText (.num (.int n)) = .ok (Num.int n).toText ∧
      s.toNumber (.text (Num.int n).toText) = .ok (.int n) ∧
      (Eval.callBuiltin .toText [.num (.int n)] >>= fun t => Eval.callBuiltin .parseInt [t]) w =
        .ok (.num (.int n)) w ∧
      s.looseEquals (.text (Num.int n).toText) (.num (.int n)) = .ok true ∧
      s.looseEquals (.num (.int n)) (.text (Num.int n).toText) = .ok true ∧
      (0 ≤ n →
        Guard.compile (Num.int n).toText =
          .ok ⟨(Num.int n).toText, .literal (.number (.int n))⟩ ∧
        (∀ full entry r u, nextIs goesOn r = false →
          (Derives full .entry ((Num.int n).toText ++ r) entry u ↔
            ∃ v value, Reads full (symbol? ":") r v ∧ Derives full .assignment v value u ∧
              entry = .number (Num.int n).toText value)) ∧
        (∀ value entries, buildEntries (.number (Num.int n).toText value :: entries) = (do
          let e ← value.build
          return .named (Num.int n).toText e :: (← buildEntries entries))) ∧
        ∀ t g, Guard.compile t = .ok g → Plain g.code →
          Guard.compile (Guard.keyed (Num.int n).toText g.code) =
            .ok ⟨Guard.keyed (Num.int n).toText g.code,
              .object [.named (Num.int n).toText g.expr.parenthesized]⟩) := by
  obtain ⟨hequal, hequal'⟩ := s.looseEquals_ofInt hlimit
  have hwrite : (Num.int n).write = .ok (Num.int n).toText :=
    write_of_isWritable (isWritable_int.2 hlimit)
  have hparse : Eval.callBuiltin .parseInt [.text (Text.ofInt n)] w = .ok (.num (.int n)) w := by
    show (Eval.read (·.parseInt (.text (Text.ofInt n)) .undefined) >>= _) w = _
    rw [Eval.read_bind_apply, Store.parseInt_ofInt w.store hlimit]
    rfl
  have htext : Eval.callBuiltin .toText [.num (.int n)] w = .ok (.text (Text.ofInt n)) w := by
    show (Eval.read (·.toText (.num (.int n))) >>= _) w = _
    rw [Eval.read_bind_apply, show w.store.toText (.num (.int n)) = _ from hwrite]
    rfl
  have hcalls : (Eval.callBuiltin .toText [.num (.int n)] >>= fun t =>
      Eval.callBuiltin .parseInt [t]) w = .ok (.num (.int n)) w := by
    show EStateM.bind _ _ w = _
    rw [EStateM.bind, htext]
    exact hparse
  refine ⟨hwrite, Store.textToNumber_ofInt hlimit, hcalls, hequal, hequal', fun hn => ?_⟩
  obtain ⟨k, rfl⟩ := Int.eq_ofNat_of_zero_le hn
  exact ⟨Guard.compile_ofNat hlimit, fun full entry r u hr => derives_entry_ofNat hr,
    buildEntries_ofNat hlimit, fun t g hg hplain => Guard.compile_keyed hlimit hg hplain⟩

/-- A numeral compiled alone and as a key. -/
theorem toText_reads_back_key :
    (42 : Int).natAbs < 10 ^ Numeral.maxDigits ∧ (0 : Int) ≤ 42 ∧ (Num.int 42).toText = "42" ∧
      Guard.compile "a" = .ok ⟨"a", .name "a"⟩ ∧
      Plain "a" ∧ Guard.compile "42" = .ok ⟨"42", .literal (.number (.int 42))⟩ ∧
      Guard.compile "(\x7b42:(a )\x7d)" =
        .ok ⟨"(\x7b42:(a )\x7d)", .object [.named "42" (.name "a")]⟩ := by
  have hlimit : (42 : Int).natAbs < 10 ^ Numeral.maxDigits := isWritable_int.1 (by decide)
  obtain ⟨-, -, -, -, -, hnatural⟩ := toText_reads_back hlimit {} {}
  have hn : (0 : Int) ≤ 42 := by decide
  have htext : (Num.int 42).toText = "42" := by decide
  have ha : Guard.compile "a" = .ok ⟨"a", .name "a"⟩ := rfl
  have hplain : Plain "a" := by decide +kernel
  obtain ⟨hcompile, -, -, hkeyed⟩ := hnatural hn
  rw [htext] at hcompile hkeyed
  have hkey := hkeyed "a" _ ha hplain
  have hcode : Guard.keyed "42" "a" = "(\x7b42:(a )\x7d)" := by decide +kernel
  rw [hcode] at hkey
  exact ⟨hlimit, hn, htext, ha, hplain, hcompile, hkey⟩

end Num

end GuardedText
