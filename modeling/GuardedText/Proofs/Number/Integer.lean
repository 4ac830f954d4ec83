import Mathlib.Data.Nat.Digits.Defs
import GuardedText.Proofs.Number.Limit
import GuardedText.Proofs.Property.Found
import GuardedText.Proofs.Text.Case

/-
  Integers at the start of texts. By the rule of JavaScript white space is passed over, then one
  sign, then a `0x` if the radix allows it, and the digits up to the first code point that is none
  are read (`Numeral.leading`). Here more signs are passed over, a `0x` has to be asked for, and what
  stands behind the signs is put in lower case first (`Store.parseInt_text`). A text in which these
  make no difference and that has not too many digits is plain (`Numeral.Plain`), and from plain
  texts the integers of the rule are read (`Eval.parseInt_leading`).
-/

namespace GuardedText

namespace CodePoint

/-- White space of a script. -/
def isScriptBlank (c : CodePoint) : Bool := isHorizontal c || isLineEnd c

/-- A sign of a numeral. -/
def isSign (c : CodePoint) : Bool := c == '+' || c == '-'

/-- An ASCII digit of a radix. -/
def isDigitIn (radix : Nat) (c : CodePoint) : Bool := c.digitValue?.any (· < radix)

end CodePoint

namespace Numeral

open CodePoint

/-! ## The rule -/

/-- The values of the digits of a radix at the start of a text. -/
def leadingDigits (radix : Nat) (s : Text) : List Nat :=
  (s.takeWhile (isDigitIn radix)).filterMap digitValue?

/-- The number that the digits of a radix at the start of a text write. -/
def reading? (radix : Nat) (s : Text) : Option Nat :=
  match leadingDigits radix s with
  | [] => none
  | ds => some (Nat.ofDigits radix ds.reverse)

/-- Whether a text starts with `0x` or `0X`. -/
def isHexMarked : Text → Bool
  | zero :: x :: _ => zero == '0' && (x == 'x' || x == 'X')
  | _ => false

/-- The radix of a numeral without a sign, and where its digits start; without a radix it is ten or
announced. -/
def announced (radix : Int) (s : Text) : Int × Text :=
  if (radix = 0 ∨ radix = 16) ∧ isHexMarked s then (16, s.drop 2)
  else (if radix = 0 then 10 else radix, s)

/-- The number at the start of a text without a sign. -/
def magnitude? (radix : Int) (s : Text) : Option Nat :=
  let base := (announced radix s).1
  if base < 2 ∨ 36 < base then none else reading? base.toNat (announced radix s).2

/-- Whether the digits at the start of a text without a sign are few enough to be read. -/
def isRead (radix : Int) (s : Text) : Bool :=
  let base := (announced radix s).1
  base < 2 || 36 < base ||
    isReadable base.toNat (leadingDigits base.toNat (announced radix s).2).length

/-- A number with its sign; not-a-number if there is none. -/
def withSign (negative : Bool) (n : Option Nat) : Num :=
  n.elim .nan fun n => .int (if negative then -n else n)

/-- What follows the white space and the sign of a numeral. -/
def afterSign (t : Text) : Text := (sign (t.dropWhile isScriptBlank)).2

/-- The integer at the start of a text. -/
def leading (radix : Int) (t : Text) : Num :=
  withSign (sign (t.dropWhile isScriptBlank)).1 (magnitude? radix (afterSign t))

/-! ## Digits -/

section

variable {radix : Nat} {c : CodePoint} {s : Text}

theorem leadingDigits_of_not_digit (h : isDigitIn radix c = false) (s : Text) :
    leadingDigits radix (c :: s) = [] := by
  rw [leadingDigits, List.takeWhile_cons_of_neg (by simp [h])]
  rfl

theorem leadingDigits_of_digit {d : Nat} (hd : c.digitValue? = some d) (hlt : d < radix)
    (s : Text) : leadingDigits radix (c :: s) = d :: leadingDigits radix s := by
  have hdigit : isDigitIn radix c = true := by simp [isDigitIn, hd, hlt]
  rw [leadingDigits, List.takeWhile_cons_of_pos hdigit, List.filterMap_cons_some hd]
  rfl

theorem exists_of_isDigitIn (h : isDigitIn radix c = true) :
    ∃ d, c.digitValue? = some d ∧ d < radix := by
  simpa [isDigitIn, Option.any_eq_true] using h

theorem digits_fst (radix : Nat) (s : Text) : (digits radix s).1 = leadingDigits radix s := by
  induction s with
  | nil => rfl
  | cons c s ih =>
    rw [digits]
    cases hd : c.digitValue? with
    | none => exact (leadingDigits_of_not_digit (by simp [isDigitIn, hd]) s).symm
    | some d =>
      dsimp only
      split_ifs with hlt
      · rw [leadingDigits_of_digit hd hlt, ← ih]
      · exact (leadingDigits_of_not_digit (by simp [isDigitIn, hd, hlt]) s).symm

theorem ofDigits_eq (radix : Nat) (ds : List Nat) :
    ofDigits radix ds = Nat.ofDigits radix ds.reverse := by
  rw [Nat.ofDigits_eq_foldr, List.foldr_reverse, ofDigits]
  congr 1
  funext n d
  rw [Nat.add_comm, Nat.mul_comm]
  rfl

theorem leadingDigits_append_congr {x y : Text} (h : leadingDigits radix x = leadingDigits radix y)
    (u : Text) : leadingDigits radix (u ++ x) = leadingDigits radix (u ++ y) := by
  induction u with
  | nil => exact h
  | cons c u ih =>
    rw [List.cons_append, List.cons_append]
    cases hc : isDigitIn radix c with
    | false => rw [leadingDigits_of_not_digit hc, leadingDigits_of_not_digit hc]
    | true =>
      obtain ⟨d, hd, hlt⟩ := exists_of_isDigitIn hc
      rw [leadingDigits_of_digit hd hlt, leadingDigits_of_digit hd hlt, ih]

/-- Digits end before a code point that is none. -/
theorem leadingDigits_append {b : Text} (hb : ∀ c ∈ b, isDigitIn radix c = false) (u : Text) :
    leadingDigits radix (u ++ b) = leadingDigits radix u := by
  have hnone : leadingDigits radix b = leadingDigits radix [] := by
    cases b with
    | nil => rfl
    | cons c b => exact leadingDigits_of_not_digit (hb c List.mem_cons_self) b
  rw [leadingDigits_append_congr hnone, List.append_nil]

/-! ### Small letters -/

theorem digitValue?_toAsciiLower (c : CodePoint) : c.toAsciiLower.digitValue? = c.digitValue? := by
  rcases Nat.lt_or_ge c.val 128 with hc | hc
  · exact beq_iff_eq.1 (of_ascii hc (fun c => c.toAsciiLower.digitValue? == c.digitValue?)
      (by decide +kernel))
  · rw [toAsciiLower, if_neg]
    simp only [between, Bool.and_eq_true, decide_eq_true_eq, not_and, Nat.not_le]
    exact fun _ => Nat.lt_of_lt_of_le (by decide) hc

theorem isDigitIn_of_beyond (hc : 0x80 ≤ c.val) : isDigitIn radix c = false := by
  cases hd : c.digitValue? with
  | none => simp [isDigitIn, hd]
  | some d => exact absurd (ascii_of_digitValue? (by simp [hd])) (Nat.not_lt.2 hc)

/-- A code point that does not become a digit of a radix if it is none: the Kelvin sign becomes the
digit twenty and a capital I with a dot the digit eighteen. -/
structure Kept (radix : Nat) (c : CodePoint) : Prop where
  kelvin : c.val = 0x212A → radix ≤ 20
  dotted : c.val = 0x130 → radix ≤ 18

/-- What stands behind the digits of a radix at the start of a text does not become one. -/
def KeptAfter (radix : Nat) (s : Text) : Prop :=
  ∀ c, (s.dropWhile (isDigitIn radix)).head? = some c → Kept radix c

theorem leadingDigits_smallOf {image : Text} (h : Text.SmallOf c image) (hkept : Kept radix c)
    (hc : isDigitIn radix c = false) (rest : Text) : leadingDigits radix (image ++ rest) = [] := by
  cases h with
  | ascii =>
    refine leadingDigits_of_not_digit ?_ rest
    rwa [isDigitIn, digitValue?_toAsciiLower]
  | beyond _ hd => exact leadingDigits_of_not_digit (isDigitIn_of_beyond hd) _
  | kelvin hc =>
    refine leadingDigits_of_not_digit ?_ rest
    simpa [isDigitIn, show (ofChar 'k').digitValue? = some 20 from rfl] using hkept.kelvin hc
  | dotted hc =>
    refine leadingDigits_of_not_digit ?_ _
    simpa [isDigitIn, show (ofChar 'i').digitValue? = some 18 from rfl] using hkept.dotted hc

/-- Digits of a text in lower case are its digits. -/
theorem leadingDigits_lowerAfter (before : Text) (h : KeptAfter radix s) :
    leadingDigits radix (Text.lowerAfter before s) = leadingDigits radix s := by
  induction s generalizing before with
  | nil => rfl
  | cons c s ih =>
    obtain ⟨image, himage, hsmall, -⟩ := Text.lowerAfter_cons before c s
    rw [himage]
    -- Up to the first code point that is no digit all is ASCII; `h` is about that one.
    cases hc : isDigitIn radix c with
    | false =>
      rw [KeptAfter, List.dropWhile_cons_of_neg (by simp [hc])] at h
      rw [leadingDigits_smallOf hsmall (h c rfl) hc, leadingDigits_of_not_digit hc]
    | true =>
      rw [KeptAfter, List.dropWhile_cons_of_pos hc] at h
      obtain ⟨d, hd, hlt⟩ := exists_of_isDigitIn hc
      have hascii : c.val < 0x80 := ascii_of_digitValue? (by simp [hd])
      cases hsmall with
      | ascii =>
        rw [List.singleton_append, leadingDigits_of_digit (by rwa [digitValue?_toAsciiLower]) hlt,
          leadingDigits_of_digit hd hlt, ih _ h]
      | beyond hc | kelvin hc | dotted hc => omega

/-- What stands before a text makes no difference for the digits of its lower-case form. -/
theorem leadingDigits_lowerAfter_congr (before before' s : Text) :
    leadingDigits radix (Text.lowerAfter before s) =
      leadingDigits radix (Text.lowerAfter before' s) := by
  induction s generalizing before before' with
  | nil => rfl
  | cons c s ih =>
    obtain ⟨image, himage, hsmall, hof⟩ := Text.lowerAfter_cons before c s
    obtain ⟨image', himage', hsmall', hof'⟩ := Text.lowerAfter_cons before' c s
    rw [himage, himage']
    -- Only a capital sigma looks around, and neither of its forms is a digit.
    by_cases hsigma : c.val = 0x3A3
    · have hkept : Kept radix c := ⟨by omega, by omega⟩
      have hc : isDigitIn radix c = false := isDigitIn_of_beyond (by omega)
      rw [leadingDigits_smallOf hsmall hkept hc, leadingDigits_smallOf hsmall' hkept hc]
    · rw [hof hsigma, hof' hsigma]
      exact leadingDigits_append_congr (ih _ _) _

end

/-! ## The mark of a radix -/

/-- A class of ASCII that makes no difference between cases and has neither `k` nor `i` holds the
first code point of a lower-case form if it holds what has that form. -/
theorem head_smallOf {p : CodePoint → Bool} {c : CodePoint} {image : Text}
    (hascii : ((List.range 128).all fun n =>
      p (toAsciiLower (Fin.ofNat 0x110000 n)) == p (Fin.ofNat 0x110000 n)) = true)
    (hbeyond : ∀ c : CodePoint, 0x80 ≤ c.val → p c = false) (hk : p (ofChar 'k') = false)
    (hi : p (ofChar 'i') = false) (h : Text.SmallOf c image) :
    ∃ d rest, image = d :: rest ∧ p d = p c := by
  cases h with
  | ascii hc =>
    exact ⟨_, _, rfl, beq_iff_eq.1 (of_ascii hc (fun c => p c.toAsciiLower == p c) hascii)⟩
  | beyond hc hd => exact ⟨_, _, rfl, by rw [hbeyond _ hd, hbeyond _ hc]⟩
  | kelvin hc => exact ⟨_, _, rfl, by rw [hk, hbeyond _ (by omega)]⟩
  | dotted hc => exact ⟨_, _, rfl, by rw [hi, hbeyond _ (by omega)]⟩

theorem beq_ofChar_of_beyond {c : CodePoint} (hc : 0x80 ≤ c.val) {a : Char} (ha : a.toNat < 0x80) :
    (c == ofChar a) = false := by
  rw [beq_eq_false_iff_ne]
  rintro rfl
  have : (ofChar a).val = a.toNat := Nat.mod_eq_of_lt (by omega)
  omega

theorem isHexMarked_cons (c : CodePoint) (s : Text) :
    isHexMarked (c :: s) =
      (c == '0' && s.head?.any fun (x : CodePoint) => x == 'x' || x == 'X') := by
  cases s with
  | nil => exact (Bool.and_false _).symm
  | cons => rfl

theorem exists_of_isHexMarked {s : Text} (h : isHexMarked s = true) :
    ∃ x rest, s = ofChar '0' :: x :: rest ∧ (x = ofChar 'x' ∨ x = ofChar 'X') := by
  match s with
  | zero :: x :: rest =>
    simp only [isHexMarked, Bool.and_eq_true, Bool.or_eq_true, beq_iff_eq] at h
    exact ⟨x, rest, by rw [h.1], h.2⟩
  | [_] | [] => cases h

/-- A text in lower case starts with `0x` if the text does in some case. -/
theorem isHexMarked_lowerAfter (before s : Text) :
    isHexMarked (Text.lowerAfter before s) = isHexMarked s := by
  cases s with
  | nil => rfl
  | cons c s =>
    obtain ⟨image, himage, hsmall, hof⟩ := Text.lowerAfter_cons before c s
    rw [himage, isHexMarked_cons c]
    cases hc : c == ofChar '0' with
    | false =>
      obtain ⟨d, rest, rfl, hd⟩ := head_smallOf (p := (· == ofChar '0')) (by decide +kernel)
        (fun c hc => beq_ofChar_of_beyond hc (by decide)) rfl rfl hsmall
      rw [List.cons_append, isHexMarked_cons, hd, hc]
      rfl
    | true =>
      obtain rfl := beq_iff_eq.1 hc
      rw [hof (by decide), show Text.lowerOf (ofChar '0') = [ofChar '0'] from rfl,
        List.singleton_append, isHexMarked_cons]
      cases s with
      | nil => rfl
      | cons x s =>
        obtain ⟨image', himage', hsmall', -⟩ := Text.lowerAfter_cons (ofChar '0' :: before) x s
        obtain ⟨d, rest, rfl, hd⟩ :=
          head_smallOf (p := fun x => x == ofChar 'x' || x == ofChar 'X') (by decide +kernel)
            (fun c hc => by
              rw [beq_ofChar_of_beyond hc (by decide), beq_ofChar_of_beyond hc (by decide)]
              rfl) rfl rfl hsmall'
        rw [himage']
        exact congrArg (_ && ·) hd

theorem lower_take_two (s : Text) :
    (Text.lower (s.take 2) == Text.ofString "0x") = isHexMarked s := by
  have htake : isHexMarked (s.take 2) = isHexMarked s := by
    match s with
    | [] | [_] | _ :: _ :: _ => rfl
  rw [Bool.eq_iff_iff, beq_iff_eq]
  constructor
  · intro h
    rw [← htake, ← isHexMarked_lowerAfter [] (s.take 2)]
    show isHexMarked (Text.lower (s.take 2)) = true
    rw [h]
    rfl
  · intro h
    obtain ⟨x, rest, rfl, rfl | rfl⟩ := exists_of_isHexMarked h <;> rfl

/-! ## Plain texts -/

/-- A text whose integer is read by the rule: the white space before it is that of a script, no
second sign follows the sign, its `0x` comes with a radix, behind its digits stands nothing that
becomes one in lower case, and they are few enough to be read. -/
structure Plain (radix : Option Num) (t : Text) : Prop where
  blanks : t.dropWhile isBlank = t.dropWhile isScriptBlank
  signs : ∀ c, (afterSign t).head? = some c → isSign c = false
  mark : radix = none → isHexMarked (afterSign t) = false
  letters : KeptAfter (announced (radix.elim 0 Num.toInt32) (afterSign t)).1.toNat
    (announced (radix.elim 0 Num.toInt32) (afterSign t)).2
  count : isRead (radix.elim 0 Num.toInt32) (afterSign t) = true

theorem exists_dropEndWhile (p : CodePoint → Bool) (s : Text) :
    ∃ b, s = Text.dropEndWhile p s ++ b ∧ ∀ c ∈ b, p c = true := by
  refine ⟨(s.reverse.takeWhile p).reverse, ?_, fun c hc => ?_⟩
  · rw [Text.dropEndWhile, ← List.reverse_append, List.takeWhile_append_dropWhile,
      List.reverse_reverse]
  · exact List.all_eq_true.1 List.all_takeWhile c (List.mem_reverse.1 hc)

/-- A text without the white space before it is the stripped text with white space behind it, and
the text is empty if the stripped one is. -/
theorem exists_strip (t : Text) : ∃ b, t.dropWhile isBlank = t.strip ++ b ∧
    (∀ c ∈ b, isBlank c = true) ∧ (t.strip = [] → b = []) := by
  obtain ⟨b, hb, hblank⟩ := exists_dropEndWhile isBlank (t.dropWhile isBlank)
  refine ⟨b, hb, hblank, fun hempty => ?_⟩
  cases b with
  | nil => rfl
  | cons c b =>
    rw [show Text.dropEndWhile isBlank (t.dropWhile isBlank) = [] from hempty] at hb
    have := List.head?_dropWhile_not isBlank t
    rw [hb] at this
    simp [hblank c List.mem_cons_self] at this

theorem sign_append {y b : Text} (h : y = [] → b = []) :
    sign (y ++ b) = ((sign y).1, (sign y).2 ++ b) := by
  cases y with
  | nil =>
    rw [h rfl]
    rfl
  | cons c y =>
    rw [List.cons_append, sign, sign]
    split_ifs <;> rfl

theorem sign_fst (y : Text) : (sign y).1 = (y.head? == some (ofChar '-')) := by
  cases y with
  | nil => rfl
  | cons c y =>
    rw [sign]
    split_ifs with hminus hplus
    · simpa using hminus
    · rw [beq_iff_eq.1 hplus]
      rfl
    · simpa using hminus

theorem dropWhile_isSign {y : Text} (h : ∀ c, (sign y).2.head? = some c → isSign c = false) :
    y.dropWhile isSign = (sign y).2 := by
  have hnone (s : Text) (hs : ∀ c, s.head? = some c → isSign c = false) :
      s.dropWhile isSign = s := by
    cases s with
    | nil => rfl
    | cons c s => exact List.dropWhile_cons_of_neg (by simp [hs c rfl])
  cases y with
  | nil => rfl
  | cons c y =>
    rw [sign] at h ⊢
    split_ifs at h ⊢ with hminus hplus
    · rw [List.dropWhile_cons_of_pos (by simp [isSign, beq_iff_eq.1 hminus]), hnone y h]
    · rw [List.dropWhile_cons_of_pos (by simp [isSign, beq_iff_eq.1 hplus]), hnone y h]
    · exact hnone (c :: y) h

theorem isDigitIn_of_isBlank {radix : Nat} {c : CodePoint} (hc : isBlank c = true) :
    isDigitIn radix c = false := by
  rcases Nat.lt_or_ge c.val 128 with hascii | hbeyond
  · have := of_ascii hascii (fun c => !c.isBlank || c.digitValue?.isNone) (by decide +kernel)
    simp only [hc, Bool.not_true, Bool.false_or, Option.isNone_iff_eq_none] at this
    simp [isDigitIn, this]
  · exact isDigitIn_of_beyond hbeyond

theorem isHexMarked_append {b : Text} (hb : ∀ c ∈ b, isBlank c = true) (u : Text) :
    isHexMarked (u ++ b) = isHexMarked u := by
  have hhead : (b.head?.any fun (x : CodePoint) => x == 'x' || x == 'X') = false := by
    cases b with
    | nil => rfl
    | cons x b =>
      have hx := hb x List.mem_cons_self
      simp only [List.head?_cons, Option.any_some, Bool.or_eq_false_iff, beq_eq_false_iff_ne]
      constructor <;> rintro rfl <;> cases hx
  cases u with
  | nil =>
    cases b with
    | nil => rfl
    | cons c b =>
      rw [List.nil_append, isHexMarked_cons, beq_eq_false_iff_ne.2]
      · rfl
      · rintro rfl
        cases hb _ List.mem_cons_self
  | cons c u =>
    cases u with
    | nil =>
      rw [List.singleton_append, isHexMarked_cons, hhead, Bool.and_false]
      rfl
    | cons => rfl

theorem announced_append {b : Text} (hb : ∀ c ∈ b, isBlank c = true) (radix : Int) (u : Text) :
    announced radix (u ++ b) = ((announced radix u).1, (announced radix u).2 ++ b) := by
  rw [announced, announced, isHexMarked_append hb]
  by_cases hmarked : (radix = 0 ∨ radix = 16) ∧ isHexMarked u = true
  · obtain ⟨x, rest, rfl, -⟩ := exists_of_isHexMarked hmarked.2
    rw [if_pos hmarked, if_pos hmarked]
    rfl
  · rw [if_neg hmarked, if_neg hmarked]

theorem magnitude?_append {b : Text} (hb : ∀ c ∈ b, isBlank c = true) (radix : Int) (u : Text) :
    magnitude? radix (u ++ b) = magnitude? radix u := by
  rw [magnitude?, magnitude?, announced_append hb]
  simp only [reading?, leadingDigits_append fun c hc => isDigitIn_of_isBlank (hb c hc)]

theorem isRead_append {b : Text} (hb : ∀ c ∈ b, isBlank c = true) (radix : Int) (u : Text) :
    isRead radix (u ++ b) = isRead radix u := by
  rw [isRead, isRead, announced_append hb]
  simp only [leadingDigits_append fun c hc => isDigitIn_of_isBlank (hb c hc)]

theorem KeptAfter.of_append {radix : Nat} {u b : Text} (h : KeptAfter radix (u ++ b)) :
    KeptAfter radix u := by
  intro c hc
  refine h c ?_
  rw [List.dropWhile_append, if_neg, List.head?_append, hc]
  · rfl
  · intro hempty
    rw [List.isEmpty_iff.1 hempty] at hc
    cases hc

/-- A text without a mark is read in radix ten if no radix is given. -/
theorem announced_zero {u : Text} (h : isHexMarked u = false) : announced 0 u = announced 10 u := by
  simp [announced, h]

/-- The mark and the digits of a text in lower case. -/
theorem announced_lower (radix : Int) (u : Text) :
    (announced radix u.lower).1 = (announced radix u).1 ∧
      ∀ base, leadingDigits base (announced radix u.lower).2 =
        leadingDigits base (announced radix u).2.lower := by
  have hmark : isHexMarked u.lower = isHexMarked u := isHexMarked_lowerAfter [] u
  rw [announced, announced, hmark]
  by_cases hmarked : (radix = 0 ∨ radix = 16) ∧ isHexMarked u = true
  · rw [if_pos hmarked, if_pos hmarked]
    obtain ⟨x, rest, rfl, hx⟩ := exists_of_isHexMarked hmarked.2
    have hlower : (Text.lower (ofChar '0' :: x :: rest)).drop 2 =
        Text.lowerAfter [x, ofChar '0'] rest := by
      rcases hx with rfl | rfl <;> rfl
    refine ⟨rfl, fun base => ?_⟩
    dsimp only
    rw [hlower]
    exact leadingDigits_lowerAfter_congr _ _ _
  · rw [if_neg hmarked, if_neg hmarked]
    exact ⟨rfl, fun _ => rfl⟩

/-- The lower-case form of a text starts with the same number. -/
theorem magnitude?_lower {radix : Int} {u : Text}
    (h : KeptAfter (announced radix u).1.toNat (announced radix u).2) :
    magnitude? radix u.lower = magnitude? radix u := by
  obtain ⟨hbase, hdigits⟩ := announced_lower radix u
  simp only [magnitude?, hbase, reading?, hdigits]
  rw [show leadingDigits _ (announced radix u).2.lower = _ from leadingDigits_lowerAfter [] h]

theorem isRead_lower {radix : Int} {u : Text}
    (h : KeptAfter (announced radix u).1.toNat (announced radix u).2) :
    isRead radix u.lower = isRead radix u := by
  obtain ⟨hbase, hdigits⟩ := announced_lower radix u
  simp only [isRead, hbase, hdigits]
  rw [show leadingDigits _ (announced radix u).2.lower = _ from leadingDigits_lowerAfter [] h]

end Numeral

namespace Store

open Numeral

/-- A number is read behind the signs of a text. -/
theorem read_lower (negative : Bool) (radix : Int) (u : Text) :
    (let marked := (radix == 0 || radix == 16) && Text.lower (u.take 2) == Text.ofString "0x"
    let body := if marked then u.drop 2 else u
    let base : Int := if marked then 16 else if radix == 0 then 10 else radix
    if base < 2 || 36 < base then return .nan
    else match (digits base.toNat (Text.lower body)).1 with
      | [] => return .nan
      | ds => do
        let n : Int := (← Numeral.read base.toNat ds : Nat)
        return .int (if negative then -n else n) : Except Fault Num) =
      if isRead radix (Text.lower u) = true then
        .ok (withSign negative (magnitude? radix (Text.lower u)))
      else .error .badValue := by
  extract_lets marked body base
  have hmarked : marked = true ↔ (radix = 0 ∨ radix = 16) ∧ isHexMarked u = true := by
    simp [marked, lower_take_two]
  have hbase : base = (announced radix u).1 := by
    simp only [base, announced, hmarked, beq_iff_eq, apply_ite Prod.fst]
  have hbody : body = (announced radix u).2 := by
    simp only [body, announced, hmarked, apply_ite Prod.snd]
  obtain ⟨hlower, hdigits⟩ := announced_lower radix u
  rw [digits_fst, hbase, hbody, magnitude?, isRead, hlower, reading?, hdigits]
  by_cases hrange : (announced radix u).1 < 2 ∨ 36 < (announced radix u).1
  · rw [if_pos (by simpa using hrange), if_pos hrange, if_pos]
    · rfl
    · rcases hrange with h | h <;> simp [h]
  · have hread (count : Nat) : (decide ((announced radix u).1 < 2) ||
        decide (36 < (announced radix u).1) || isReadable (announced radix u).1.toNat count) =
          isReadable (announced radix u).1.toNat count := by
      rw [(by simpa using hrange : (decide ((announced radix u).1 < 2) ||
        decide (36 < (announced radix u).1)) = false), Bool.false_or]
    rw [if_neg (by simpa using hrange), if_neg hrange]
    simp only [hread]
    cases leadingDigits (announced radix u).1.toNat (Text.lower (announced radix u).2) with
    | nil => exact (if_pos (isReadable_of_le (Nat.zero_le maxDigits))).symm
    | cons d ds =>
      dsimp only
      by_cases hcount : isReadable (announced radix u).1.toNat (d :: ds).length = true
      · rw [read_of_isReadable hcount, if_pos hcount, ofDigits_eq]
        rfl
      · rw [read_of_not hcount, if_neg hcount]
        rfl

/-- The integer that is read at the start of a text is that of the text behind all signs in lower
case, in radix ten if none is given; too many digits are not read. -/
theorem parseInt_text (s : Store) (t : Text) (radix : Option Num) :
    s.parseInt (.text t) (radix.elim .undefined .num) =
      let rest := Text.lower (t.strip.dropWhile CodePoint.isSign)
      if isRead (radix.elim 10 Num.toInt32) rest = true then
        .ok (withSign (sign t.strip).1 (magnitude? (radix.elim 10 Num.toInt32) rest))
      else .error .badValue := by
  rw [sign_fst]
  cases radix with
  | none => exact read_lower _ 10 _
  | some n => exact read_lower _ n.toInt32 _

end Store

namespace Numeral

/-- The number behind the signs of a plain text in lower case is read, and it is the integer of the
text. -/
theorem leading_of_plain {radix : Option Num} {t : Text} (h : Plain radix t) :
    let rest := Text.lower (t.strip.dropWhile CodePoint.isSign)
    isRead (radix.elim 10 Num.toInt32) rest = true ∧
      withSign (sign t.strip).1 (magnitude? (radix.elim 10 Num.toInt32) rest) =
        leading (radix.elim 0 Num.toInt32) t := by
  obtain ⟨b, hstrip, hblank, hempty⟩ := exists_strip t
  have hsign : sign (t.dropWhile CodePoint.isScriptBlank) =
      ((sign t.strip).1, (sign t.strip).2 ++ b) := by
    rw [← h.blanks, hstrip, sign_append hempty]
  have hafter : afterSign t = (sign t.strip).2 ++ b := by rw [afterSign, hsign]
  obtain ⟨-, hsigns, hmark, hletters, hcount⟩ := h
  rw [hafter] at hsigns hmark hletters hcount
  rw [announced_append hblank] at hletters
  have hdrop : t.strip.dropWhile CodePoint.isSign = (sign t.strip).2 :=
    dropWhile_isSign fun c hc => hsigns c (by rw [List.head?_append, hc]; rfl)
  have hradix : announced (radix.elim 10 Num.toInt32) (sign t.strip).2 =
      announced (radix.elim 0 Num.toInt32) (sign t.strip).2 := by
    cases radix with
    | none => exact (announced_zero (isHexMarked_append hblank _ ▸ hmark rfl)).symm
    | some n => rfl
  have hkept : KeptAfter (announced (radix.elim 10 Num.toInt32) (sign t.strip).2).1.toNat
      (announced (radix.elim 10 Num.toInt32) (sign t.strip).2).2 := by
    rw [hradix]
    exact hletters.of_append
  rw [isRead_append hblank] at hcount
  rw [leading, hsign, hafter, magnitude?_append hblank, hdrop]
  dsimp only
  rw [magnitude?_lower hkept, isRead_lower hkept]
  rw [isRead, magnitude?, magnitude?, hradix]
  exact ⟨hcount, rfl⟩

end Numeral

namespace Eval

open Numeral

/-- What is read as the integer at the start of a text, when nothing is because there are too many
digits, and when it is that of the rule. -/
theorem parseInt_leading (t : Text) (radix : Option Num) (w : World) :
    callBuiltin .parseInt [.text t] w = callBuiltin .parseInt [.text t, .undefined] w ∧
      (let rest := Text.lower (t.strip.dropWhile CodePoint.isSign)
      callBuiltin .parseInt [.text t, radix.elim .undefined .num] w =
        if isRead (radix.elim 10 Num.toInt32) rest = true then
          .ok (.num (withSign (sign t.strip).1 (magnitude? (radix.elim 10 Num.toInt32) rest))) w
        else .error .badValue w) ∧
      (Plain radix t → callBuiltin .parseInt [.text t, radix.elim .undefined .num] w =
        .ok (.num (leading (radix.elim 0 Num.toInt32) t)) w) := by
  have hcall : let rest := Text.lower (t.strip.dropWhile CodePoint.isSign)
      callBuiltin .parseInt [.text t, radix.elim .undefined .num] w =
        if isRead (radix.elim 10 Num.toInt32) rest = true then
          .ok (.num (withSign (sign t.strip).1 (magnitude? (radix.elim 10 Num.toInt32) rest))) w
        else .error .badValue w := by
    intro rest
    show (read (·.parseInt (.text t) (radix.elim .undefined .num)) >>= _) w = _
    rw [read_bind_apply, Store.parseInt_text]
    by_cases hread : isRead (radix.elim 10 Num.toInt32) rest = true
    · rw [if_pos hread]
      dsimp only
      rw [if_pos hread]
      rfl
    · rw [if_neg hread]
      dsimp only
      rw [if_neg hread]
  refine ⟨rfl, hcall, fun hplain => ?_⟩
  obtain ⟨hread, hvalue⟩ := leading_of_plain hplain
  rw [hcall, if_pos hread, hvalue]

/-- White space, a sign, a mark and digits that end before a letter. -/
theorem parseInt_leading_hex :
    Plain (some (.int 16)) " -0X1fz" ∧ leading 16 " -0X1fz" = .int (-31) ∧
      callBuiltin .parseInt [.text " -0X1fz", .num (.int 16)] {} = .ok (.num (.int (-31))) {} := by
  have hplain : Plain (some (.int 16)) " -0X1fz" := by
    refine ⟨rfl, ?_, nofun, ?_, rfl⟩
    · rintro c ⟨⟩
      rfl
    · rintro c ⟨⟩
      exact ⟨by decide, by decide⟩
  exact ⟨hplain, rfl, (parseInt_leading " -0X1fz" (some (.int 16)) {}).2.2 hplain⟩

/-- Of two signs the rule reads no integer, a mark it takes without being asked, and the Kelvin sign
is no digit. -/
theorem parseInt_not_leading :
    callBuiltin .parseInt [.text "--5", .undefined] {} = .ok (.num (.int (-5))) {} ∧
      leading 0 "--5" = .nan ∧
      callBuiltin .parseInt [.text "0x1f", .undefined] {} = .ok (.num (.int 0)) {} ∧
      leading 0 "0x1f" = .int 31 ∧
      callBuiltin .parseInt [.text [0x212A], .num (.int 36)] {} = .ok (.num (.int 20)) {} ∧
      leading 36 [0x212A] = .nan := by
  exact ⟨rfl, rfl, rfl, rfl, rfl, rfl⟩

end Eval

end GuardedText
