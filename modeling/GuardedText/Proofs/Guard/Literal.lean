import Mathlib.Algebra.Group.Nat.Defs
import GuardedText.Guard.Spelling
import GuardedText.Proofs.Guard.Token
import GuardedText.Proofs.Number.Limit
import GuardedText.Proofs.Text.Case

/-
  Literals and their values. A numeral that is read as a token has a value unless it is an integer of
  too many digits (`number?_value_iff`): it is a radix letter with digits of that radix, or digits
  with perhaps a fraction and an exponent (`IsDecimal`). A string has a value unless a braced escape in it names no code point
  (`string_isOk_iff`).
-/

namespace GuardedText

open Token

/-! ## The shape of numerals -/

/-- A point and digits, or nothing. -/
inductive IsFraction : Text → Prop where
  | none : IsFraction []
  | some {f : Text} : f.all CodePoint.isDecimal = true → IsFraction (CodePoint.ofChar '.' :: f)

/-- An exponent mark with perhaps a sign and at least one digit, or nothing. -/
inductive IsExponent : Text → Prop where
  | none : IsExponent []
  | some {e : CodePoint} {sign ds : Text} : (e == 'e' || e == 'E') = true →
      sign ∈ [[], Text.ofString "+", Text.ofString "-"] → ds ≠ [] →
      ds.all CodePoint.isDecimal = true → IsExponent (e :: (sign ++ ds))

/-- Digits, a fraction and an exponent, with at least one digit before the exponent. -/
inductive IsDecimal : Text → Prop where
  | mk {w p x : Text} : w.all CodePoint.isDecimal = true → IsFraction p → IsExponent x →
      w ≠ [] ∨ 2 ≤ p.length → IsDecimal (w ++ (p ++ x))

/-- Too many decimal digits and nothing else. -/
def Spelling.Long (k : Text) : Prop :=
  k.all CodePoint.isDecimal = true ∧ Numeral.maxDigits < k.length

theorem take_runLength (p : CodePoint → Bool) (s : Text) : s.take (runLength p s) = s.takeWhile p :=
  (List.prefix_iff_eq_take.1 (List.takeWhile_prefix p)).symm

theorem all_takeWhile (p : CodePoint → Bool) (s : Text) : (s.takeWhile p).all p = true :=
  List.all_takeWhile

theorem takeWhile_ne_nil {p : CodePoint → Bool} {s : Text} (h : runLength p s ≠ 0) :
    s.takeWhile p ≠ [] := by
  intro hnil
  rw [runLength, hnil] at h
  exact h rfl

theorem isExponent_of_sign {c : CodePoint} {t : Text} {n : Nat} (hc : (c == 'e' || c == 'E') = true)
    (hsign : t.take n ∈ [[], Text.ofString "+", Text.ofString "-"])
    (hdigits : runLength CodePoint.isDecimal (t.drop n) ≠ 0) :
    IsExponent ((c :: t).take (runLength CodePoint.isDecimal (t.drop n) + n + 1)) := by
  rw [List.take_succ_cons, Nat.add_comm _ n, List.take_add, take_runLength]
  exact .some hc hsign (takeWhile_ne_nil hdigits) (all_takeWhile _ _)

theorem isExponent_take (s : Text) : IsExponent (s.take (exponentLength s)) := by
  unfold exponentLength
  split
  · rename_i c t
    split
    · rename_i hc
      by_cases hsign : nextIs (oneOf "+-") t = true
      · simp only [hsign, if_true]
        split
        · exact .none
        · rename_i hdigits
          refine isExponent_of_sign hc ?_ (by simpa using hdigits)
          cases t with
          | nil => cases hsign
          | cons d r =>
            have hd : d ∈ Text.ofString "+-" :=
              List.contains_iff_mem.1 (by simpa [nextIs, oneOf] using hsign)
            have : d = CodePoint.ofChar '+' ∨ d = CodePoint.ofChar '-' := by
              simpa [Text.ofString] using hd
            rcases this with rfl | rfl
            · exact List.mem_cons_of_mem _ List.mem_cons_self
            · exact List.mem_cons_of_mem _ (List.mem_cons_of_mem _ List.mem_cons_self)
      · simp only [hsign, if_false, Bool.false_eq_true]
        split
        · exact .none
        · rename_i hdigits
          exact isExponent_of_sign (n := 0) hc List.mem_cons_self (by simpa using hdigits)
    · exact .none
  · exact .none

theorem isFraction_take {t : Text} (h : nextIs (oneOf ".") t = true) :
    IsFraction (t.take (1 + runLength CodePoint.isDecimal (t.drop 1))) ∧
      (t.take (1 + runLength CodePoint.isDecimal (t.drop 1))).length =
        1 + runLength CodePoint.isDecimal (t.drop 1) := by
  cases t with
  | nil => cases h
  | cons c r =>
    obtain rfl : c = CodePoint.ofChar '.' := by simpa [nextIs, oneOf, Text.ofString] using h
    simp only [List.drop_succ_cons, List.drop_zero]
    rw [Nat.add_comm, List.take_succ_cons, take_runLength]
    exact ⟨.some (all_takeWhile _ _), by simp [runLength]⟩

theorem isDecimal_withExponent {s w p : Text} {n m : Nat} (hs : s.take n = w ++ p)
    (hw : w.all CodePoint.isDecimal = true) (hp : IsFraction p) (hne : w ≠ [] ∨ 2 ≤ p.length)
    (hm : m ∈ [n + exponentLength (s.drop n), n]) : IsDecimal (s.take m) := by
  simp only [List.mem_cons, List.not_mem_nil, or_false] at hm
  rcases hm with rfl | rfl
  · rw [List.take_add, hs, List.append_assoc]
    exact .mk hw hp (isExponent_take _) hne
  · rw [hs, ← List.append_nil p]
    exact .mk hw hp .none hne

theorem isDecimal_take {s : Text} {n : Nat} (h : n ∈ decimalLengths s) : IsDecimal (s.take n) := by
  have hdigits := all_takeWhile CodePoint.isDecimal s
  unfold decimalLengths at h
  simp only at h
  split at h
  · rename_i hwhole
    rw [beq_iff_eq] at hwhole
    rw [hwhole, List.drop_zero] at h
    split at h
    · rename_i hpoint
      rw [Bool.and_eq_true, bne_iff_ne] at hpoint
      obtain ⟨hfraction, hlength⟩ := isFraction_take hpoint.1
      exact isDecimal_withExponent (List.nil_append _).symm rfl hfraction (by omega) h
    · cases h
  · rename_i hwhole
    have hne := takeWhile_ne_nil (by simpa using hwhole)
    rw [List.mem_append] at h
    rcases h with h | h
    · split at h
      · rename_i hpoint
        refine isDecimal_withExponent ?_ hdigits (isFraction_take hpoint).1 (Or.inl hne) h
        rw [Nat.add_assoc, List.take_add, take_runLength]
      · cases h
    · refine isDecimal_withExponent ?_ hdigits .none (Or.inl hne) h
      rw [List.append_nil, take_runLength]

/-! ## The values of numerals -/

namespace Numeral

theorem decimals_append {w r : Text} (hw : w.all CodePoint.isDecimal = true)
    (hr : nextIs CodePoint.isDecimal r = false) :
    ∃ ds, decimals (w ++ r) = (ds, r) ∧ ds.isEmpty = w.isEmpty := by
  induction w with
  | nil =>
    refine ⟨[], ?_, rfl⟩
    cases r with
    | nil => rfl
    | cons c r =>
      have hc : c.decimalValue? = none := by
        simpa [nextIs, CodePoint.isDecimal] using hr
      simp [decimals, hc]
  | cons c w ih =>
    rw [List.all_cons, Bool.and_eq_true] at hw
    obtain ⟨ds, hds, -⟩ := ih hw.2
    obtain ⟨v, hv⟩ := Option.isSome_iff_exists.1 hw.1
    exact ⟨v :: ds, by simp [decimals, hv, hds], rfl⟩

theorem ne_of_isDecimal {c : CodePoint} (h : c.isDecimal = true) {d : CodePoint}
    (hd : d.isDecimal = false) : c ≠ d := by
  rintro rfl
  rw [h] at hd
  cases hd

theorem sign_of_ne {c : CodePoint} {s : Text} (hminus : c ≠ CodePoint.ofChar '-')
    (hplus : c ≠ CodePoint.ofChar '+') : sign (c :: s) = (false, c :: s) := by
  simp [sign, hminus, hplus]

theorem sign_of_decimals {ds : Text} (h : ds.all CodePoint.isDecimal = true) :
    sign ds = (false, ds) := by
  cases ds with
  | nil => rfl
  | cons d ds =>
    rw [List.all_cons, Bool.and_eq_true] at h
    exact sign_of_ne (ne_of_isDecimal h.1 (by decide)) (ne_of_isDecimal h.1 (by decide))

theorem exponent_of_isExponent {x : Text} (h : IsExponent x) : ∃ power, exponent x = (power, []) := by
  cases h with
  | none => exact ⟨none, rfl⟩
  | @some e sg ds he hsign hne hds =>
    obtain ⟨vs, hvs, hempty⟩ := decimals_append hds (r := []) rfl
    have hvalues : vs.isEmpty = false := by simpa [hempty] using hne
    rw [List.append_nil] at hvs
    have hsigned : ∃ negative, sign (sg ++ ds) = (negative, ds) := by
      simp only [List.mem_cons, List.not_mem_nil, or_false] at hsign
      rcases hsign with rfl | rfl | rfl
      · exact ⟨false, sign_of_decimals hds⟩
      · exact ⟨false, rfl⟩
      · exact ⟨true, rfl⟩
    obtain ⟨negative, hnegative⟩ := hsigned
    simp [exponent, he, hnegative, hvs, hvalues]

theorem nextIs_of_isExponent {x : Text} (h : IsExponent x) {p : CodePoint → Bool}
    (he : p (CodePoint.ofChar 'e') = false) (hE : p (CodePoint.ofChar 'E') = false) :
    nextIs p x = false := by
  cases h with
  | none => rfl
  | @some e sg ds hmark =>
    rw [Bool.or_eq_true, beq_iff_eq, beq_iff_eq] at hmark
    rcases hmark with rfl | rfl
    · exact he
    · exact hE

theorem unsigned?_of_isDecimal {k : Text} (h : IsDecimal k) :
    ∃ value, unsigned? false k = some (value, []) := by
  cases h with
  | @mk w p x hw hp hx hne =>
    obtain ⟨power, hpower⟩ := exponent_of_isExponent hx
    have hdigit : nextIs CodePoint.isDecimal x = false :=
      nextIs_of_isExponent hx (by decide) (by decide)
    have hpoint : nextIs (fun c => c == '.') x = false :=
      nextIs_of_isExponent hx (by decide) (by decide)
    cases hp with
    | none =>
      obtain ⟨whole, hwhole, hempty⟩ := decimals_append hw hdigit
      have hvalues : whole.isEmpty = false := by simpa [hempty] using hne
      rw [List.nil_append, unsigned?, hwhole]
      cases x with
      | nil =>
        simp only [hvalues, hpower, Bool.false_and, if_false, Bool.false_eq_true]
        split_ifs <;> exact ⟨_, rfl⟩
      | cons c t =>
        have hc : (c == CodePoint.ofChar '.') = false := by simpa [nextIs] using hpoint
        simp only [hvalues, hpower, hc, Bool.false_and, if_false, Bool.false_eq_true]
        split_ifs <;> exact ⟨_, rfl⟩
    | @some f hf =>
      have hstop : nextIs CodePoint.isDecimal (CodePoint.ofChar '.' :: f ++ x) = false := rfl
      obtain ⟨whole, hwhole, hempty⟩ := decimals_append hw hstop
      obtain ⟨fraction, hfraction, hfempty⟩ := decimals_append hf hdigit
      have hvalues : (whole.isEmpty && fraction.isEmpty) = false := by
        rw [hempty, hfempty]
        cases w <;> cases f <;> simp at hne ⊢
      rw [unsigned?, hwhole]
      simp only [List.cons_append, hfraction, hpower, hvalues, if_true, if_false, Bool.true_or,
        beq_self_eq_true, Bool.false_eq_true]
      exact ⟨_, rfl⟩

theorem ungrouped?_eq_some {p : CodePoint → Bool} {before : Bool} {s : Text}
    (h : CodePoint.ofChar '_' ∉ s) : ungrouped? p before s = some s := by
  induction s generalizing before with
  | nil => rfl
  | cons c s ih =>
    rw [List.mem_cons, not_or] at h
    have hc : (c == CodePoint.ofChar '_') = false := beq_eq_false_iff_ne.2 (Ne.symm h.1)
    rw [ungrouped?.eq_def]
    simp [hc, ih h.2]

/-- Digits are a natural number if there are not too many of them. -/
theorem natural?_isSome {radix : Nat} {s : Text} (hne : s ≠ []) (hgroup : CodePoint.ofChar '_' ∉ s)
    (hdigits : ∀ c ∈ s, ((c.decimalValue?.or c.digitValue?).filter (· < radix)).isSome = true) :
    (natural? radix s).isSome = isReadable radix s.length := by
  have hvalues : ∃ vs, s.mapM (fun c => (c.decimalValue?.or c.digitValue?).filter (· < radix)) =
      some vs ∧ vs.length = s.length := by
    clear hne hgroup
    induction s with
    | nil => exact ⟨[], rfl, rfl⟩
    | cons c s ih =>
      obtain ⟨v, hv⟩ := Option.isSome_iff_exists.1 (hdigits c List.mem_cons_self)
      obtain ⟨vs, hvs, hlength⟩ := ih fun c hc => hdigits c (List.mem_cons_of_mem _ hc)
      refine ⟨v :: vs, ?_, by simp [hlength]⟩
      rw [List.mapM_cons, hv, hvs]
      rfl
  obtain ⟨vs, hvs, hlength⟩ := hvalues
  simp only [natural?, ungrouped?_eq_some hgroup, Option.bind_some, hvs]
  cases vs with
  | nil => exact absurd (List.length_eq_zero_iff.1 hlength.symm) hne
  | cons v vs => exact hlength ▸ isSome_read radix (v :: vs)

/-! ### Decimals -/

theorem decimalValue?_lt {c : CodePoint} {v : Nat} (h : c.decimalValue? = some v) : v < 10 := by
  unfold CodePoint.decimalValue? at h
  split_ifs at h with hascii hdigit
  · cases h
    simp only [CodePoint.isAsciiDigit, CodePoint.between, Bool.and_eq_true, decide_eq_true_eq] at hdigit
    have : ('9' : Char).toNat = 0x39 := rfl
    omega
  · obtain ⟨z, hz, rfl⟩ := Option.map_eq_some_iff.1 h
    have := List.find?_some hz
    simp only [Bool.and_eq_true, decide_eq_true_eq] at this
    omega

/-- The characters of a decimal. -/
theorem mem_isDecimal {k : Text} (h : IsDecimal k) {c : CodePoint} (hc : c ∈ k) :
    c.isDecimal = true ∨ oneOf ".eE+-" c = true := by
  cases h with
  | @mk w p x hw hp hx hne =>
    rw [List.mem_append, List.mem_append] at hc
    rcases hc with hc | hc | hc
    · exact Or.inl (List.all_eq_true.1 hw c hc)
    · cases hp with
      | none => cases hc
      | some hf =>
        rcases List.mem_cons.1 hc with rfl | hc
        · exact Or.inr (by decide)
        · exact Or.inl (List.all_eq_true.1 hf c hc)
    · cases hx with
      | none => cases hc
      | @some e sg ds hmark hsign _ hds =>
        rw [List.mem_cons, List.mem_append] at hc
        rcases hc with rfl | hc | hc
        · rw [Bool.or_eq_true, beq_iff_eq, beq_iff_eq] at hmark
          rcases hmark with rfl | rfl <;> exact Or.inr (by decide)
        · refine Or.inr ?_
          simp only [List.mem_cons, List.not_mem_nil, or_false] at hsign
          rcases hsign with rfl | rfl | rfl
          · cases hc
          · rw [List.mem_singleton.1 hc]
            decide
          · rw [List.mem_singleton.1 hc]
            decide
        · exact Or.inl (List.all_eq_true.1 hds c hc)

theorem not_isBlank_of_isDecimal {c : CodePoint} (h : c.isDecimal = true) : c.isBlank = false := by
  rw [Bool.eq_false_iff]
  intro hblank
  have hspace : isSpace c = true := by simp [isSpace, hblank]
  have := of_isSpace hspace (fun c => !c.isDecimal) (by decide)
  simp [h] at this

theorem strip_eq {s : Text} (h : ∀ c ∈ s, c.isBlank = false) : s.strip = s := by
  have drop {t : Text} (ht : ∀ c ∈ t, c.isBlank = false) : t.dropWhile CodePoint.isBlank = t := by
    cases t with
    | nil => rfl
    | cons c t => simp [ht c List.mem_cons_self]
  rw [Text.strip, Text.trimBoth, drop h, Text.dropEndWhile, drop, List.reverse_reverse]
  intro c hc
  exact h c (List.mem_reverse.1 hc)

theorem head_isDecimal {k : Text} (h : IsDecimal k) :
    ∃ c r, k = c :: r ∧ (c.isDecimal = true ∨ oneOf "." c = true) := by
  cases h with
  | @mk w p x hw hp hx hne =>
    cases w with
    | cons c w =>
      rw [List.all_cons, Bool.and_eq_true] at hw
      exact ⟨c, w ++ (p ++ x), rfl, Or.inl hw.1⟩
    | nil =>
      cases hp with
      | none => simp at hne
      | some _ => exact ⟨_, _, rfl, Or.inr (by decide)⟩

theorem mem_notBlank {k : Text} (h : IsDecimal k) {c : CodePoint} (hc : c ∈ k) :
    c.isBlank = false := by
  rcases mem_isDecimal h hc with hc | hc
  · exact not_isBlank_of_isDecimal hc
  · simpa using of_oneOf hc (fun c => !c.isBlank) (by decide)

theorem not_mem_underscore {k : Text} (h : IsDecimal k) : CodePoint.ofChar '_' ∉ k := by
  intro hc
  rcases mem_isDecimal h hc with hc | hc
  · exact absurd hc (by decide)
  · exact absurd hc (by decide)

theorem sign_strip {k : Text} (h : IsDecimal k) : sign k.strip = (false, k) := by
  rw [strip_eq fun _ hc => mem_notBlank h hc]
  obtain ⟨c, r, rfl, hc⟩ := head_isDecimal h
  rcases hc with hc | hc
  · exact sign_of_ne (ne_of_isDecimal hc (by decide)) (ne_of_isDecimal hc (by decide))
  · have := of_oneOf hc (fun c => c != CodePoint.ofChar '-' && c != CodePoint.ofChar '+') (by decide)
    rw [Bool.and_eq_true, bne_iff_ne, bne_iff_ne] at this
    exact sign_of_ne this.1 this.2

theorem toAsciiLower_of_isDecimal {c : CodePoint} (h : c.isDecimal = true) : c.toAsciiLower = c := by
  unfold CodePoint.toAsciiLower
  split_ifs with hcapital
  · simp only [CodePoint.between, Bool.and_eq_true, decide_eq_true_eq] at hcapital
    have hlow : ('A' : Char).toNat = 0x41 := rfl
    have hhigh : ('Z' : Char).toNat = 0x5A := rfl
    unfold CodePoint.isDecimal CodePoint.decimalValue? CodePoint.isAsciiDigit CodePoint.between at h
    have hnine : ('9' : Char).toNat = 0x39 := rfl
    have hascii : c.val < 0x80 := by omega
    simp only [hascii, if_true] at h
    have hdigit : (decide (('0' : Char).toNat ≤ c.val) && decide (c.val ≤ ('9' : Char).toNat)) =
        false := by
      simp only [Bool.and_eq_false_iff, decide_eq_false_iff_not]
      omega
    rw [hdigit] at h
    cases h
  · rfl

/-- No decimal is one of the words for doubles. -/
theorem lower_ne {k : Text} (h : IsDecimal k) {w : String}
    (hw : (Text.ofString w).head?.any fun c => !c.isDecimal && !oneOf "." c) :
    k.map CodePoint.toAsciiLower ≠ Text.ofString w := by
  obtain ⟨c, r, rfl, hc⟩ := head_isDecimal h
  intro heq
  rw [List.map_cons] at heq
  rw [← heq, List.head?_cons, Option.any_some, Bool.and_eq_true, Bool.not_eq_true',
    Bool.not_eq_true'] at hw
  rcases hc with hc | hc
  · rw [toAsciiLower_of_isDecimal hc, hc] at hw
    cases hw.1
  · have := of_oneOf hc (fun c => oneOf "." c.toAsciiLower) (by decide)
    rw [this] at hw
    cases hw.2

theorem double?_isSome {k : Text} (h : IsDecimal k) : (double? k).isSome = true := by
  obtain ⟨value, hvalue⟩ := unsigned?_of_isDecimal h
  have hnames : ¬ (k.map CodePoint.toAsciiLower = Text.ofString "inf" ∨
      k.map CodePoint.toAsciiLower = Text.ofString "infinity") := by
    rintro (heq | heq)
    · exact lower_ne h (by decide) heq
    · exact lower_ne h (by decide) heq
  have hnan : k.map CodePoint.toAsciiLower ≠ Text.ofString "nan" := lower_ne h (by decide)
  simp only [double?, sign_strip h, if_neg hnames, if_neg hnan,
    ungrouped?_eq_some (not_mem_underscore h), Option.bind_some, hvalue]
  cases value <;> rfl

theorem integer?_isSome {k : Text} (h : IsDecimal k) (hdigits : k.all CodePoint.isDecimal = true) :
    (integer? 10 k).isSome = isReadable 10 k.length := by
  obtain ⟨c, r, hk, -⟩ := head_isDecimal h
  have hnatural : (natural? 10 k).isSome = isReadable 10 k.length := by
    refine natural?_isSome (by simp [hk]) (not_mem_underscore h) fun d hd => ?_
    obtain ⟨v, hv⟩ := Option.isSome_iff_exists.1 (List.all_eq_true.1 hdigits d hd)
    simp [hv, decimalValue?_lt hv]
  rw [← hnatural]
  simp only [integer?, sign_strip h]
  cases natural? 10 k <;> rfl

/-- A decimal without point and exponent mark holds digits alone. -/
theorem all_isDecimal {k : Text} (h : IsDecimal k)
    (hmarks : ∀ c ∈ k, ¬ (c == '.' || c == 'e' || c == 'E') = true) :
    k.all CodePoint.isDecimal = true := by
  cases h with
  | @mk w p x hw hp hx hne =>
    cases hp with
    | some hf => exact absurd (by decide) (hmarks (CodePoint.ofChar '.') (by simp))
    | none =>
      cases hx with
      | @some e sg ds he _ _ _ =>
        refine absurd ?_ (hmarks e (by simp))
        rw [Bool.or_assoc, he, Bool.or_true]
      | none => simpa using hw

/-- A decimal has a value unless it is an integer of too many digits. -/
theorem decimal_isOk_iff {k : Text} (h : IsDecimal k) :
    (∃ n, Spelling.decimal k = .ok n) ↔ ¬ Spelling.Long k := by
  unfold Spelling.decimal
  split_ifs with hany
  · obtain ⟨x, hx⟩ := Option.isSome_iff_exists.1 (double?_isSome h)
    refine iff_of_true ⟨.float x, by simp [hx]⟩ fun hlong => ?_
    obtain ⟨c, hc, hmark⟩ := List.any_eq_true.1 hany
    simp only [Bool.or_eq_true, beq_iff_eq] at hmark
    have hdigit := List.all_eq_true.1 hlong.1 c hc
    rcases hmark with (rfl | rfl) | rfl <;> exact absurd hdigit (by decide)
  · have hdigits := all_isDecimal h fun c hc hmark => hany (List.any_eq_true.2 ⟨c, hc, hmark⟩)
    have hsome := integer?_isSome h hdigits
    rw [Spelling.Long, hdigits, eq_self_iff_true, true_and, Nat.not_lt, ← isReadable_ten, ← hsome]
    cases integer? 10 k <;> simp

/-! ### Numerals with a radix letter -/

/-- The digits of a radix: they have values, and none is white space or a grouping mark. -/
def isDigitOf (radix : Nat) (c : CodePoint) : Bool :=
  ((c.decimalValue?.or c.digitValue?).filter (· < radix)).isSome && !c.isBlank &&
    c != CodePoint.ofChar '_'

theorem natural?_of_digits {radix : Nat} {s : Text} (hne : s ≠ [])
    (h : s.all (isDigitOf radix) = true) :
    (natural? radix (Text.dropEndWhile CodePoint.isBlank
      (if s.head? == some (CodePoint.ofChar '_') then s.drop 1 else s))).isSome =
        isReadable radix s.length := by
  have hdigit {c : CodePoint} (hc : c ∈ s) := List.all_eq_true.1 h c hc
  simp only [isDigitOf, Bool.and_eq_true, Bool.not_eq_true', bne_iff_ne] at hdigit
  have hgroup : CodePoint.ofChar '_' ∉ s := fun hc => (hdigit hc).2 rfl
  have hhead : (s.head? == some (CodePoint.ofChar '_')) = false := by
    rw [beq_eq_false_iff_ne]
    exact fun hc => hgroup (List.mem_of_head? hc)
  have hblank : Text.dropEndWhile CodePoint.isBlank s = s := by
    rw [Text.dropEndWhile]
    cases hr : s.reverse with
    | nil => simp [List.reverse_eq_nil_iff.1 hr]
    | cons c r =>
      have hc : c ∈ s := List.mem_reverse.1 (by simp [hr])
      rw [List.dropWhile_cons_of_neg (by simp [(hdigit hc).1.2]), ← hr, List.reverse_reverse]
  rw [hhead, if_neg Bool.false_ne_true, hblank]
  exact natural?_isSome hne hgroup fun c hc => (hdigit hc).1.1

theorem isReadable_of_announcedRadix? {d : CodePoint} {radix : Nat}
    (h : announcedRadix? d = some radix) (count : Nat) : isReadable radix count = true := by
  unfold announcedRadix? at h
  split_ifs at h <;> cases h <;> rfl

theorem isDecimal_of_announcedRadix? {d : CodePoint} {radix : Nat}
    (h : announcedRadix? d = some radix) : d.isDecimal = false := by
  unfold announcedRadix? at h
  simp only [Bool.or_eq_true, beq_iff_eq] at h
  split_ifs at h with hx ho hb
  · rcases hx with rfl | rfl <;> decide
  · rcases ho with rfl | rfl <;> decide
  · rcases hb with rfl | rfl <;> decide

/-- A numeral with a radix letter has a value, however long it is. -/
theorem number_of_announced {d : CodePoint} {t : Text} {radix : Nat} {p : CodePoint → Bool}
    (hd : announcedRadix? d = some radix) (hp : ∀ c, p c = true → isDigitOf radix c = true)
    (hne : runLength p t ≠ 0) :
    let k := (CodePoint.ofChar '0' :: d :: t).take (runLength p t + 2)
    (∃ value, Spelling.number k = .ok value) ∧ ¬ Spelling.Long k := by
  have hdigits : (t.takeWhile p).all (isDigitOf radix) = true :=
    List.all_eq_true.2 fun c hc => hp c (List.all_eq_true.1 (all_takeWhile p t) c hc)
  have hsome := natural?_of_digits (takeWhile_ne_nil hne) hdigits
  rw [isReadable_of_announcedRadix? hd] at hsome
  obtain ⟨n, hn⟩ := Option.isSome_iff_exists.1 hsome
  simp only [List.take_succ_cons, take_runLength]
  refine ⟨⟨.int n, ?_⟩, fun hlong => ?_⟩
  · simp only [Spelling.number, beq_self_eq_true, if_true, hd, hn]
    rfl
  · have := hlong.1
    simp [isDecimal_of_announcedRadix? hd] at this

theorem isDigitOf_hex {c : CodePoint} (h : c.isHex = true) : isDigitOf 16 c = true := by
  have hascii : c.val < 128 := by
    refine ascii_of_digitValue? ?_
    obtain ⟨v, hv⟩ := Option.isSome_iff_exists.1 h
    rw [(Option.filter_eq_some_iff.1 hv).1]
    rfl
  have := of_ascii hascii (fun c => !c.isHex || isDigitOf 16 c) (by decide +kernel)
  simpa [h] using this

theorem isDigitOf_between {c : CodePoint} {hi : Char} {radix : Nat} (hhi : hi.toNat < 128)
    (hall : ((List.range 128).all fun n => !CodePoint.between '0' hi (Fin.ofNat 0x110000 n) ||
      isDigitOf radix (Fin.ofNat 0x110000 n)) = true)
    (h : CodePoint.between '0' hi c = true) : isDigitOf radix c = true := by
  have hascii : c.val < 128 := by
    simp only [CodePoint.between, Bool.and_eq_true, decide_eq_true_eq] at h
    omega
  have := of_ascii hascii (fun c => !CodePoint.between '0' hi c || isDigitOf radix c) hall
  simpa [h] using this

theorem number_of_radix {s : Text} {n : Nat} (h : radixLength? s = some n) :
    (∃ value, Spelling.number (s.take n) = .ok value) ∧ ¬ Spelling.Long (s.take n) := by
  unfold radixLength? at h
  split at h
  · rename_i c d t
    simp only at h
    split_ifs at h with hc hx hn ho hn hb hn
    all_goals
      rw [beq_iff_eq] at hc
      subst hc
      cases h
    · have hradix : announcedRadix? d = some 16 := by simp [announcedRadix?, hx]
      exact number_of_announced hradix (fun _ => isDigitOf_hex) (by simpa using hn)
    · have hradix : announcedRadix? d = some 8 := by simp [announcedRadix?, hx, ho]
      exact number_of_announced hradix
        (fun _ => isDigitOf_between (by decide) (by decide +kernel)) (by simpa using hn)
    · have hradix : announcedRadix? d = some 2 := by simp [announcedRadix?, hx, ho, hb]
      exact number_of_announced hradix
        (fun _ => isDigitOf_between (by decide) (by decide +kernel)) (by simpa using hn)
  · cases h

theorem number_of_isDecimal {k : Text} (h : IsDecimal k) :
    (∃ value, Spelling.number k = .ok value) ↔ ¬ Spelling.Long k := by
  unfold Spelling.number
  split
  · rename_i c d r
    have hradix : announcedRadix? d = none := by
      rcases mem_isDecimal h (List.mem_cons_of_mem _ List.mem_cons_self) with hd | hd
      · have hne {e : CodePoint} (he : e.isDecimal = false) : (d == e) = false :=
          beq_eq_false_iff_ne.2 (ne_of_isDecimal hd he)
        simp [announcedRadix?, hne (by decide : CodePoint.isDecimal (CodePoint.ofChar 'x') = false),
          hne (by decide : CodePoint.isDecimal (CodePoint.ofChar 'X') = false),
          hne (by decide : CodePoint.isDecimal (CodePoint.ofChar 'o') = false),
          hne (by decide : CodePoint.isDecimal (CodePoint.ofChar 'O') = false),
          hne (by decide : CodePoint.isDecimal (CodePoint.ofChar 'b') = false),
          hne (by decide : CodePoint.isDecimal (CodePoint.ofChar 'B') = false)]
      · simpa using of_oneOf hd (fun d => (announcedRadix? d).isNone) (by decide)
    rw [hradix, ite_self]
    exact decimal_isOk_iff h
  · exact decimal_isOk_iff h

end Numeral

/-- A numeral that is read has a value unless it is an integer of too many decimal digits. -/
theorem number?_value_iff {s k u : Text} (h : number? s = some (k, u)) :
    (∃ value, Spelling.number k = .ok value) ↔ ¬ Spelling.Long k := by
  obtain ⟨n, hn, hfound⟩ := List.exists_of_findSome?_eq_some h
  split_ifs at hfound
  cases hfound
  rcases List.mem_append.1 hn with hn | hn
  · obtain ⟨hvalue, hshort⟩ := Numeral.number_of_radix (Option.mem_toList.1 hn)
    exact iff_of_true hvalue hshort
  · exact Numeral.number_of_isDecimal (isDecimal_take hn)

/-! ## Escapes in strings -/

namespace Spelling

/-- `Braced s n`: some escape in the body of a string spells the number `n` in braces. -/
inductive Braced : Text → Nat → Prop where
  | here {s rest n} : bracedHex? s = some (n, rest) →
      Braced (CodePoint.ofChar '\\' :: CodePoint.ofChar 'u' :: s) n
  | plain {c s n} : c ≠ CodePoint.ofChar '\\' → Braced s n → Braced (c :: s) n
  | escaped {c s n} : Braced s n → Braced (CodePoint.ofChar '\\' :: c :: s) n

theorem braced_cons {c : CodePoint} (hc : c ≠ CodePoint.ofChar '\\') {s : Text} {n : Nat} :
    Braced (c :: s) n ↔ Braced s n := by
  refine ⟨fun h => ?_, .plain hc⟩
  cases h with
  | here => exact absurd rfl hc
  | plain _ h => exact h
  | escaped => exact absurd rfl hc

theorem braced_append {w s : Text} (hw : CodePoint.ofChar '\\' ∉ w) {n : Nat} :
    Braced (w ++ s) n ↔ Braced s n := by
  induction w with
  | nil => rfl
  | cons c w ih =>
    rw [List.mem_cons, not_or] at hw
    rw [List.cons_append, braced_cons (Ne.symm hw.1), ih hw.2]

theorem braced_escape {c : CodePoint} {s : Text} {n : Nat} :
    Braced (CodePoint.ofChar '\\' :: c :: s) n ↔
      (c = CodePoint.ofChar 'u' ∧ ∃ rest, bracedHex? s = some (n, rest)) ∨ Braced s n := by
  refine ⟨fun h => ?_, ?_⟩
  · cases h with
    | here h => exact Or.inl ⟨rfl, _, h⟩
    | plain hne => exact absurd rfl hne
    | escaped h => exact Or.inr h
  · rintro (⟨rfl, rest, h⟩ | h)
    · exact .here h
    · exact .escaped h

theorem digits_append (radix : Nat) (s : Text) :
    ∃ w, s = w ++ (Numeral.digits radix s).2 ∧ CodePoint.ofChar '\\' ∉ w := by
  induction s with
  | nil => exact ⟨[], rfl, List.not_mem_nil⟩
  | cons c s ih =>
    obtain ⟨w, hs, hw⟩ := ih
    rw [Numeral.digits]
    cases hv : c.digitValue? with
    | none => exact ⟨[], rfl, List.not_mem_nil⟩
    | some v =>
      simp only
      split_ifs
      · refine ⟨c :: w, by rw [List.cons_append, ← hs], ?_⟩
        rw [List.mem_cons, not_or]
        refine ⟨?_, hw⟩
        rintro rfl
        cases hv
      · exact ⟨[], rfl, List.not_mem_nil⟩

theorem bracedHex?_append {s rest : Text} {n : Nat} (h : bracedHex? s = some (n, rest)) :
    ∃ w, s = w ++ rest ∧ CodePoint.ofChar '\\' ∉ w := by
  unfold bracedHex? at h
  split at h
  · cases h
  · rename_i c t
    split_ifs at h with hc
    obtain ⟨w, ht, hw⟩ := digits_append 16 t
    simp only at h
    split at h
    · rename_i d u hrest
      split_ifs at h with hd
      cases h
      rw [hrest] at ht
      refine ⟨c :: (w ++ [d]), by simp [ht], ?_⟩
      rw [Bool.and_eq_true, beq_iff_eq] at hd
      rw [beq_iff_eq] at hc
      simp only [List.mem_cons, List.mem_append, List.not_mem_nil, or_false, not_or]
      refine ⟨?_, hw, ?_⟩
      · rintro rfl
        exact absurd hc (by decide)
      · rintro rfl
        exact absurd hd.1 (by decide)
    · cases h

theorem hexDigits?_append {count n m : Nat} {s rest : Text}
    (h : hexDigits? count n s = some (m, rest)) :
    (∃ w, s = w ++ rest ∧ CodePoint.ofChar '\\' ∉ w) ∧ m < (n + 1) * 16 ^ count := by
  induction count generalizing n s with
  | zero =>
    cases h
    exact ⟨⟨[], rfl, List.not_mem_nil⟩, by simp⟩
  | succ count ih =>
    cases s with
    | nil => cases h
    | cons c s =>
      obtain ⟨d, hd, h⟩ := Option.bind_eq_some_iff.1 h
      obtain ⟨⟨w, rfl, hw⟩, hm⟩ := ih h
      obtain ⟨hdigit, hlt⟩ := Option.filter_eq_some_iff.1 hd
      refine ⟨⟨c :: w, rfl, ?_⟩, ?_⟩
      · rw [List.mem_cons, not_or]
        refine ⟨?_, hw⟩
        rintro rfl
        cases hdigit
      · have hlt : d < 16 := by simpa using hlt
        calc m < (n * 16 + d + 1) * 16 ^ count := hm
          _ ≤ ((n + 1) * 16) * 16 ^ count := Nat.mul_le_mul_right _ (by omega)
          _ = (n + 1) * 16 ^ (count + 1) := by rw [Nat.pow_succ', Nat.mul_assoc]

/-- What an escape by number spells: a number in braces, or a small one. -/
theorem spelled?_eq_some {s rest : Text} {n : Nat} (h : spelled? s = some (n, rest)) :
    ∃ c t, s = c :: t ∧ (∃ w, t = w ++ rest ∧ CodePoint.ofChar '\\' ∉ w) ∧
      ((c = CodePoint.ofChar 'u' ∧ bracedHex? t = some (n, rest)) ∨
        ((c = CodePoint.ofChar 'u' → bracedHex? t = none) ∧ n < 0x110000)) := by
  unfold spelled? at h
  split at h
  · cases h
  · rename_i c t
    refine ⟨c, t, rfl, ?_⟩
    split_ifs at h with hu hx
    · rw [beq_iff_eq] at hu
      cases hb : bracedHex? t with
      | some x =>
        rw [hb] at h
        cases h
        exact ⟨bracedHex?_append hb, Or.inl ⟨hu, rfl⟩⟩
      | none =>
        rw [hb, Option.none_or] at h
        obtain ⟨hw, hn⟩ := hexDigits?_append h
        exact ⟨hw, Or.inr ⟨fun _ => rfl, by omega⟩⟩
    · obtain ⟨hw, hn⟩ := hexDigits?_append h
      refine ⟨hw, Or.inr ⟨fun hc => ?_, by omega⟩⟩
      rw [hc] at hu
      exact absurd (beq_self_eq_true _) hu

theorem codePoint_isOk_iff {n : Nat} : (∃ c, codePoint n = .ok c) ↔ n < 0x110000 := by
  unfold codePoint
  split_ifs <;> simp_all

/-- An escape by number, and what follows it. -/
theorem braced_of_spelled? {s rest : Text} {n : Nat} (h : spelled? s = some (n, rest)) :
    (∀ m, Braced (CodePoint.ofChar '\\' :: s) m → m < 0x110000) ↔
      n < 0x110000 ∧ ∀ m, Braced rest m → m < 0x110000 := by
  obtain ⟨c, t, rfl, ⟨w, ht, hw⟩, hspelled⟩ := spelled?_eq_some h
  simp only [braced_escape]
  have hrest {m : Nat} : Braced t m ↔ Braced rest m := by
    rw [ht]
    exact braced_append hw
  simp only [hrest]
  rcases hspelled with ⟨hc, hbraced⟩ | ⟨hnone, hn⟩
  · refine ⟨fun hall => ⟨hall n (Or.inl ⟨hc, rest, hbraced⟩), fun m hm => hall m (Or.inr hm)⟩, ?_⟩
    rintro ⟨hn, hall⟩ m (⟨-, rest', hm⟩ | hm)
    · rw [hbraced] at hm
      cases hm
      exact hn
    · exact hall m hm
  · refine ⟨fun hall => ⟨hn, fun m hm => hall m (Or.inr hm)⟩, ?_⟩
    rintro ⟨-, hall⟩ m (⟨hc, rest', hm⟩ | hm)
    · rw [hnone hc] at hm
      cases hm
    · exact hall m hm

/-- An escape of one character, and what follows it. -/
theorem braced_of_not_spelled? {c : CodePoint} {s : Text} (h : spelled? (c :: s) = none) {n : Nat} :
    Braced (CodePoint.ofChar '\\' :: c :: s) n ↔ Braced s n := by
  rw [braced_escape]
  refine ⟨?_, Or.inr⟩
  rintro (⟨rfl, rest, hn⟩ | hn)
  · simp [spelled?, hn] at h
  · exact hn

theorem unescape_isOk_iff {fuel : Nat} {s : Text} (h : s.length ≤ fuel) :
    (∃ t, unescape fuel s = .ok t) ↔ ∀ n, Braced s n → n < 0x110000 := by
  have ends {n : Nat} : ¬ Braced [] n := by
    intro hn
    cases hn
  induction fuel generalizing s with
  | zero =>
    obtain rfl : s = [] := List.length_eq_zero_iff.1 (Nat.le_zero.1 h)
    exact ⟨fun _ n hn => (ends hn).elim, fun _ => ⟨[], rfl⟩⟩
  | succ fuel ih =>
    cases s with
    | nil => exact ⟨fun _ n hn => (ends hn).elim, fun _ => ⟨[], rfl⟩⟩
    | cons c s =>
      rw [List.length_cons] at h
      by_cases hc : c = CodePoint.ofChar '\\'
      · subst hc
        have hslash : (CodePoint.ofChar '\\').val = 0x5C := by decide
        cases hspelled : spelled? s with
        | some x =>
          obtain ⟨n, rest⟩ := x
          obtain ⟨d, t, rfl, ⟨w, ht, -⟩, -⟩ := spelled?_eq_some hspelled
          have hrest : rest.length ≤ fuel := by
            rw [List.length_cons, ht, List.length_append] at h
            omega
          refine Iff.trans ?_ (braced_of_spelled? hspelled).symm
          refine Iff.trans ?_ (and_congr codePoint_isOk_iff (ih hrest))
          simp only [unescape, hslash, beq_self_eq_true, if_true, hspelled, Except.exists_bind_ok,
            Except.exists_pure_ok, and_true, exists_and_right]
        | none =>
          simp only [unescape, hslash, beq_self_eq_true, if_true, hspelled]
          cases s with
          | nil =>
            refine ⟨fun _ n hn => ?_, fun _ => ⟨_, rfl⟩⟩
            cases hn with
            | plain hne => exact absurd rfl hne
          | cons d s =>
            simp only [braced_of_not_spelled? hspelled]
            rw [List.length_cons] at h
            cases s with
            | nil => exact ⟨fun _ n hn => (ends hn).elim, fun _ => ⟨_, rfl⟩⟩
            | cons e rest =>
              rw [List.length_cons] at h
              simp only
              split_ifs with hpair
              · rw [Bool.and_eq_true, beq_iff_eq, beq_iff_eq] at hpair
                have he : e ≠ CodePoint.ofChar '\\' := by
                  rintro rfl
                  exact absurd hpair.2 (by decide)
                simp only [braced_cons he]
                exact ih (by omega)
              · refine Iff.trans ?_ (ih (s := e :: rest) (by simp only [List.length_cons]; omega))
                simp only [Except.exists_bind_ok, Except.exists_pure_ok, and_true]
      · have hslash : (c.val == 0x5C) = false := by
          rw [beq_eq_false_iff_ne]
          intro hval
          exact hc (Fin.ext hval)
        simp only [braced_cons hc]
        refine Iff.trans ?_ (ih (by omega))
        simp only [unescape, hslash, if_false, Bool.false_eq_true, Except.exists_bind_ok,
          Except.exists_pure_ok, and_true]

/-- A string has a value unless a number in braces is too large. -/
theorem string_isOk_iff {k : Text} :
    (∃ t, Spelling.string k = .ok t) ↔ ∀ n, Braced (k.drop 1).dropLast n → n < 0x110000 :=
  unescape_isOk_iff (Nat.le_refl _)

end Spelling

end GuardedText
