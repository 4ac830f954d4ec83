import GuardedText.Proofs.Guard.Follow
import GuardedText.Proofs.Guard.Plain

/-
  Tokens at the end of a text and tokens with more behind them. What follows an expression starts
  with white space, a comment or a semicolon, or there is nothing (`Token.Fence`). No token goes on
  past such a place, and no look-ahead tells it from the end of the text, so each kind of token is
  found in a text just when it is found with `t` behind that text (`Token.Cut`).
-/

namespace GuardedText.Token

/-! ## What can follow an expression -/

/-- A code point that ends every token before it. -/
def ends (c : CodePoint) : Bool := isSpace c || oneOf "/;" c

/-- A text that is empty or starts with white space, a slash or a semicolon. -/
def Fence (t : Text) : Prop := ∀ c r, t = c :: r → ends c = true

theorem fence_nil : Fence [] := nofun

theorem fence_cons {c : CodePoint} {r : Text} (h : ends c = true) : Fence (c :: r) := by
  rintro _ _ ⟨⟩
  exact h

/-- What fails on all code points that end tokens fails on each. -/
theorem not_of_ends {c : CodePoint} (hc : ends c = true) (p : CodePoint → Bool)
    (hspaces : (spaces.all fun n => !p (Fin.ofNat 0x110000 n)) = true)
    (hmarks : (Text.ofString "/;").all (fun c => !p c) = true) : p c = false := by
  rw [← Bool.not_eq_true']
  rcases Bool.or_eq_true_iff.1 hc with hc | hc
  · exact of_isSpace hc (fun c => !p c) hspaces
  · exact of_oneOf hc (fun c => !p c) hmarks

theorem Fence.not_nextIs {t : Text} (ht : Fence t) {p : CodePoint → Bool}
    (hp : ∀ c, ends c = true → p c = false) : nextIs p t = false := by
  cases t with
  | nil => rfl
  | cons c r => exact hp c (ht c r rfl)

theorem Fence.nextIs_append {t : Text} (ht : Fence t) {p : CodePoint → Bool}
    (hp : ∀ c, ends c = true → p c = false) (y : Text) : nextIs p (y ++ t) = nextIs p y := by
  cases y with
  | nil => exact ht.not_nextIs hp
  | cons c r => rfl

theorem Fence.takeWhile_append {t : Text} (ht : Fence t) {p : CodePoint → Bool}
    (hp : ∀ c, ends c = true → p c = false) (x : Text) :
    (x ++ t).takeWhile p = x.takeWhile p := by
  induction x with
  | nil =>
    cases t with
    | nil => rfl
    | cons c r => exact List.takeWhile_cons_of_neg (Bool.eq_false_iff.1 (hp c (ht c r rfl)))
  | cons c x ih =>
    rw [List.cons_append, List.takeWhile_cons, List.takeWhile_cons, ih]

theorem Fence.dropWhile_append {t : Text} (ht : Fence t) {p : CodePoint → Bool}
    (hp : ∀ c, ends c = true → p c = false) (x : Text) :
    (x ++ t).dropWhile p = x.dropWhile p ++ t := by
  rw [← List.append_cancel_left_eq (x.takeWhile p)]
  conv_lhs => rw [← ht.takeWhile_append hp x]
  rw [List.takeWhile_append_dropWhile, ← List.append_assoc, List.takeWhile_append_dropWhile]

theorem Fence.runLength_append {t : Text} (ht : Fence t) {p : CodePoint → Bool}
    (hp : ∀ c, ends c = true → p c = false) (x : Text) :
    runLength p (x ++ t) = runLength p x :=
  congrArg List.length (ht.takeWhile_append hp x)

theorem not_isWordOrDollar_of_ends (c : CodePoint) (hc : ends c = true) :
    c.isWordOrDollar = false :=
  not_of_ends hc _ (by decide +kernel) (by decide)

theorem isWordOrDollar_of_isDecimal {c : CodePoint} (h : c.isDecimal = true) :
    c.isWordOrDollar = true := by
  rw [CodePoint.isWordOrDollar, CodePoint.isWord]
  split
  next hlow =>
    rw [CodePoint.isDecimal, CodePoint.decimalValue?, if_pos hlow] at h
    cases hdigit : c.isAsciiDigit <;> simp_all
  next => simp [h]

theorem not_isDecimal_of_ends (c : CodePoint) (hc : ends c = true) : c.isDecimal = false := by
  have hword := not_isWordOrDollar_of_ends c hc
  rw [Bool.eq_false_iff]
  intro hdecimal
  rw [isWordOrDollar_of_isDecimal hdecimal] at hword
  cases hword

/-! ## Gaps -/

theorem afterBlockEnd?_append {x z t : Text} (h : afterBlockEnd? x = some z) :
    afterBlockEnd? (x ++ t) = some (z ++ t) := by
  fun_induction afterBlockEnd? x with
  | case1 => cases h
  | case2 c s hend =>
    cases h
    cases s with
    | nil => simp at hend
    | cons d s => rw [List.cons_append, afterBlockEnd?, if_pos (by simpa using hend)]; rfl
  | case3 c s hend ih =>
    cases s with
    | nil => cases h
    | cons d s => rw [List.cons_append, afterBlockEnd?, if_neg (by simpa using hend), ih h]

theorem length_afterBlockEnd? {s t : Text} (h : afterBlockEnd? s = some t) :
    t.length + 2 ≤ s.length := by
  fun_induction afterBlockEnd? s with
  | case1 => cases h
  | case2 c s hend =>
    cases h
    cases s with
    | nil => simp at hend
    | cons d s => simp
  | case3 c s _ ih => exact Nat.le_succ_of_le (ih h)

theorem afterBlockEnd?_of_append {x z t : Text} (h : afterBlockEnd? (x ++ t) = some (z ++ t)) :
    afterBlockEnd? x = some z := by
  have hlength := length_afterBlockEnd? h
  simp only [List.length_append] at hlength
  fun_induction afterBlockEnd? x with
  | case1 => simp only [List.length_nil] at hlength; omega
  | case2 c s hend =>
    cases s with
    | nil => simp at hend
    | cons d s =>
      rw [List.cons_append, afterBlockEnd?, if_pos (by simpa using hend)] at h
      simpa using h
  | case3 c s hend ih =>
    cases s with
    | nil => simp only [List.length_singleton] at hlength; omega
    | cons d s =>
      rw [List.cons_append, afterBlockEnd?, if_neg (by simpa using hend)] at h
      have hrest := length_afterBlockEnd? h
      rw [List.length_append, List.length_append] at hrest
      exact ih h hrest

theorem dropWhile_of_append {p : CodePoint → Bool} {x z t : Text}
    (h : (x ++ t).dropWhile p = z ++ t) : x.dropWhile p = z := by
  rw [List.dropWhile_append] at h
  split at h
  · rename_i hnil
    have hlength := (List.dropWhile_suffix p (l := t)).length_le
    rw [h, List.length_append] at hlength
    obtain rfl := List.length_eq_zero_iff.1 (show z.length = 0 by omega)
    simpa using hnil
  · exact List.append_cancel_right h

theorem dropWhile_append_of_ne {p : CodePoint → Bool} {x t : Text} (h : x.dropWhile p ≠ []) :
    (x ++ t).dropWhile p = x.dropWhile p ++ t := by
  rw [List.dropWhile_append, if_neg (by simpa using h)]

/-- A gap with something behind it in a text is the same gap with more behind the text. -/
theorem afterGap?_append {x z t : Text} (h : afterGap? x = some z) (hz : z ≠ []) :
    afterGap? (x ++ t) = some (z ++ t) := by
  cases x with
  | nil => cases h
  | cons c r =>
    unfold afterGap? at h ⊢
    dsimp only [List.cons_append] at h ⊢
    split_ifs at h ⊢
    · cases h
      rw [dropWhile_append_of_ne hz]
    · cases r with
      | nil => cases h
      | cons d r =>
        dsimp only [List.cons_append] at h ⊢
        split_ifs at h ⊢
        · exact afterBlockEnd?_append h
        · cases h
          rw [dropWhile_append_of_ne hz]

theorem afterGap?_of_append {x z t : Text} (h : afterGap? (x ++ t) = some (z ++ t)) :
    afterGap? x = some z := by
  have hlength := (rest_afterGap? h).shorter
  simp only [List.length_append] at hlength
  cases x with
  | nil => simp only [List.length_nil] at hlength; omega
  | cons c r =>
    unfold afterGap? at h ⊢
    dsimp only [List.cons_append] at h ⊢
    split_ifs at h ⊢
    · rw [dropWhile_of_append (Option.some.inj h)]
    · cases r with
      | nil =>
        cases t with
        | nil => cases h
        | cons d u =>
          dsimp only [List.nil_append] at h
          split_ifs at h
          · have hrest := length_afterBlockEnd? h
            simp only [List.length_append, List.length_cons] at hrest
            omega
          · have hrest :=
              (List.dropWhile_suffix (fun e => e.val != 0x0A && e.val != 0x0D) (l := u)).length_le
            rw [Option.some.inj h] at hrest
            simp only [List.length_append, List.length_cons] at hrest
            omega
      | cons d r =>
        dsimp only [List.cons_append] at h ⊢
        split_ifs at h ⊢
        · exact afterBlockEnd?_of_append h
        · rw [dropWhile_of_append (Option.some.inj h)]

/-- No gap starts where none does with more behind the text. -/
theorem stuck_of_append_stuck {x t : Text} (h : afterGap? (x ++ t) = none) :
    afterGap? x = none := by
  cases x with
  | nil => rfl
  | cons c r =>
    unfold afterGap? at h ⊢
    dsimp only [List.cons_append] at h ⊢
    split_ifs at h ⊢
    · cases r with
      | nil => rfl
      | cons d r =>
        dsimp only [List.cons_append] at h ⊢
        split_ifs at h ⊢
        · rw [Option.eq_none_iff_forall_ne_some]
          intro z hz
          rw [afterBlockEnd?_append hz] at h
          cases h
        · rfl
    · rfl

theorem exists_append_of_suffix {z s t : Text} (h : z ++ t <:+ s) : ∃ x, s = x ++ t := by
  obtain ⟨w, rfl⟩ := h
  exact ⟨w ++ z, (List.append_assoc w z t).symm⟩

theorem Gap.append {x z t : Text} (h : Gap x z) (hz : z ≠ []) : Gap (x ++ t) (z ++ t) := by
  induction h using Relation.ReflTransGen.head_induction_on with
  | refl => exact .refl
  | @head x y hgap hrest ih =>
    refine .head (afterGap?_append hgap ?_) ih
    rintro rfl
    exact hz (List.suffix_nil.1 (Gap.suffix hrest))

theorem Gap.of_append {x z t : Text} (h : Gap (x ++ t) (z ++ t)) : Gap x z := by
  generalize hs : x ++ t = s at h
  induction h using Relation.ReflTransGen.head_induction_on generalizing x with
  | refl => rw [List.append_cancel_right hs]; exact .refl
  | @head s r hgap hrest ih =>
    obtain ⟨y, rfl⟩ := exists_append_of_suffix (Gap.suffix hrest)
    subst hs
    exact .head (afterGap?_of_append hgap) (ih rfl)

/-! ## Tokens -/

/-- A kind of token that takes something and is found in a text just when it is found with `t`
behind that text. -/
structure Cut {α : Type} (t : Text) (find : Text → Option (α × Text)) : Prop where
  rest : Takes find
  append_iff : ∀ {x a y}, find (x ++ t) = some (a, y ++ t) ↔ find x = some (a, y)

section

variable {α : Type} {t : Text}

/-- It is enough that a token is found alike in a text that is not empty. -/
theorem Cut.of_append {find : Text → Option (α × Text)}
    (hrest : ∀ {s a u}, find s = some (a, u) → Rest s u)
    (happend : ∀ x, x ≠ [] → find (x ++ t) = (find x).map fun (a, y) => (a, y ++ t)) :
    Cut t find := by
  refine ⟨hrest, fun {x a y} => ?_⟩
  rcases eq_or_ne x [] with rfl | hx
  · refine ⟨fun h => ?_, fun h => absurd (hrest h).shorter (Nat.not_lt_zero _)⟩
    have := (hrest h).shorter
    simp only [List.nil_append, List.length_append] at this
    omega
  · rw [happend x hx, Option.map_eq_some_iff]
    simp only [Prod.exists, Prod.mk.injEq, List.append_cancel_right_eq]
    exact ⟨fun ⟨a, y, h, ha, hy⟩ => ha ▸ hy ▸ h, fun h => ⟨a, y, h, rfl, rfl⟩⟩

theorem symbol?_append_iff {w : String} {x y : Text} :
    symbol? w (x ++ t) = some (y ++ t) ↔ symbol? w x = some y := by
  rw [symbol?_eq_some, symbol?_eq_some, ← List.append_assoc, List.append_cancel_right_eq]

theorem cut_symbol? {w : String} (hw : w ≠ "") : Cut t fun s => (symbol? w s).map ((), ·) := by
  refine ⟨fun h => ?_, ?_⟩
  · obtain ⟨u, hu, heq⟩ := Option.map_eq_some_iff.1 h
    cases heq
    exact rest_symbol? hw hu
  · simp [symbol?_append_iff]

/-- A word of which no code point but the first ends tokens. -/
def solid (w : String) : Bool := ((Text.ofString w).drop 1).all fun c => !ends c

variable (ht : Fence t)
include ht

/-- A solid word that starts in a text does not go on past it. -/
theorem symbol?_append {w : String} (hw : solid w = true) {x : Text} (hx : x ≠ []) :
    symbol? w (x ++ t) = (symbol? w x).map (· ++ t) := by
  cases h : symbol? w x with
  | some y => exact symbol?_append_iff.2 h
  | none =>
    rw [Option.map_none, Option.eq_none_iff_forall_ne_some]
    intro u hu
    have hspelled := symbol?_eq_some.1 hu
    rcases List.append_eq_append_iff.1 hspelled with ⟨z, hword, hz⟩ | ⟨z, hword, -⟩
    · cases z with
      | nil =>
        rw [symbol?_eq_some.2 (show x = Text.ofString w ++ [] by simp [hword])] at h
        cases h
      | cons c z =>
        obtain ⟨d, x, rfl⟩ := List.exists_cons_of_ne_nil hx
        rw [solid, hword, List.cons_append, List.drop_succ_cons, List.drop_zero] at hw
        have hc := List.all_eq_true.1 hw c (by simp)
        rw [ht c (z ++ u) hz] at hc
        cases hc
    · rw [symbol?_eq_some.2 hword] at h
      cases h

theorem symbolNot?_append {w : String} (hw : solid w = true) {p : CodePoint → Bool}
    (hp : ∀ c, ends c = true → p c = false) {x : Text} (hx : x ≠ []) :
    symbolNot? w p (x ++ t) = (symbolNot? w p x).map (· ++ t) := by
  rw [symbolNot?, symbol?_append ht hw hx, symbolNot?, Option.filter_map]
  congr 2
  funext y
  exact congrArg _ (ht.nextIs_append hp y)

omit ht in
theorem findSome?_congr {β : Type} {f g : β → Option α} {xs : List β} (h : ∀ x ∈ xs, f x = g x) :
    xs.findSome? f = xs.findSome? g := by
  induction xs with
  | nil => rfl
  | cons x xs ih =>
    rw [List.findSome?_cons, List.findSome?_cons, h x List.mem_cons_self,
      ih fun y hy => h y (List.mem_cons_of_mem x hy)]

omit ht in
theorem firstOf_append {choices : List (α × (Text → Option Text))} {x : Text}
    (h : ∀ choice ∈ choices, choice.2 (x ++ t) = (choice.2 x).map (· ++ t)) :
    firstOf choices (x ++ t) = (firstOf choices x).map fun (a, y) => (a, y ++ t) := by
  rw [firstOf, firstOf, List.map_findSome?]
  refine findSome?_congr fun choice hmem => ?_
  simp only [h choice hmem, Option.map_map, Function.comp]
  rfl

theorem word?_append {w : String} (hw : solid w = true) {x : Text} (hx : x ≠ []) :
    word? w (x ++ t) = (word? w x).map (· ++ t) :=
  symbolNot?_append ht hw not_isWordOrDollar_of_ends hx

theorem cut_anyName? : Cut t anyName? := by
  refine .of_append rest_anyName? fun x hx => ?_
  obtain ⟨c, r, rfl⟩ := List.exists_cons_of_ne_nil hx
  simp only [anyName?, List.cons_append, Text.span]
  split_ifs
  · rw [← List.cons_append, ht.takeWhile_append not_isWordOrDollar_of_ends,
      ht.dropWhile_append not_isWordOrDollar_of_ends]
    rfl
  · rfl

theorem cut_name? : Cut t name? := by
  refine ⟨rest_name?, fun {x n y} => ?_⟩
  simp only [name?, Option.filter_eq_some_iff, (cut_anyName? ht).append_iff]

theorem cut_word? {w : String} (hw : (solid w && decide (w ≠ "")) = true) :
    Cut t fun s => (word? w s).map ((), ·) := by
  rw [Bool.and_eq_true, decide_eq_true_eq] at hw
  refine .of_append (fun h => ?_) fun x hx => ?_
  · obtain ⟨u, hu, heq⟩ := Option.map_eq_some_iff.1 h
    cases heq
    exact rest_symbolNot? hw.2 hu
  · rw [word?_append ht hw.1 hx]
    cases word? w x <;> rfl

theorem cut_constant? : Cut t constant? := by
  refine .of_append rest_constant? fun x hx => firstOf_append fun choice hmem => ?_
  fin_cases hmem <;> exact word?_append ht (by decide) hx

theorem cut_unary? : Cut t unary? := by
  refine .of_append rest_unary? fun x hx => firstOf_append fun choice hmem => ?_
  fin_cases hmem
  · exact symbol?_append ht (by decide) hx
  · exact symbol?_append ht (by decide) hx
  · exact symbolNot?_append ht (by decide)
      (fun c hc => not_of_ends hc _ (by decide) (by decide)) hx
  · exact symbolNot?_append ht (by decide)
      (fun c hc => not_of_ends hc _ (by decide) (by decide)) hx
  · exact word?_append ht (by decide) hx
  · exact word?_append ht (by decide) hx

theorem cut_assign? : Cut t assign? := by
  refine .of_append rest_assign? fun x hx => firstOf_append fun choice hmem => ?_
  obtain ⟨op, hop, rfl⟩ := List.mem_map.1 hmem
  refine symbolNot?_append ht ?_
    (fun c hc => not_of_ends hc _ (by decide) (by decide)) hx
  fin_cases hop <;> decide

theorem cut_operator? (level : Nat) : Cut t (operator? level) := by
  have hbinary : Cut t binary? := by
    refine .of_append (fun h => rest_operator? (operator?_eq_some.2 ⟨h, rfl⟩)) fun x hx =>
      firstOf_append fun choice hmem => ?_
    fin_cases hmem
    all_goals first
      | exact symbol?_append ht (by decide) hx
      | exact word?_append ht (by decide) hx
      | exact symbolNot?_append ht (by decide)
          (fun c hc => not_of_ends hc _ (by decide) (by decide)) hx
  exact ⟨rest_operator?, fun {x op y} => by simp only [operator?_eq_some, hbinary.append_iff]⟩

/-! ## Literals -/

theorem radixLength?_append (x : Text) : radixLength? (x ++ t) = radixLength? x := by
  have other (p : CodePoint → Bool)
      (hp : ((spaces.all fun n => !p (Fin.ofNat 0x110000 n)) &&
        (Text.ofString "/;").all fun c => !p c) = true) {c : CodePoint} {r : Text}
      (htail : t = c :: r) : p c = false := by
    rw [Bool.and_eq_true] at hp
    exact not_of_ends (ht c r htail) p hp.1 hp.2
  match x with
  | [] =>
    match htail : t with
    | [] | [_] => rfl
    | c :: d :: r =>
      simp [radixLength?, other (· == '0') (by decide) rfl]
  | [c] =>
    match htail : t with
    | [] => rfl
    | d :: r =>
      have hd := other
        (fun d => d == 'x' || d == 'X' || (d == 'o' || d == 'O' || (d == 'b' || d == 'B')))
        (by decide) rfl
      simp only [Bool.or_eq_false_iff] at hd
      simp [radixLength?, hd]
  | c :: d :: r =>
    have hhex := ht.runLength_append
      (fun c hc => not_of_ends hc CodePoint.isHex (by decide) (by decide)) r
    have hoctal := ht.runLength_append (fun c hc =>
      not_of_ends hc (CodePoint.between '0' '7') (by decide) (by decide)) r
    have hbinary := ht.runLength_append (fun c hc =>
      not_of_ends hc (CodePoint.between '0' '1') (by decide) (by decide)) r
    simp only [List.cons_append, radixLength?, hhex, hoctal, hbinary]

theorem exponentLength_append (x : Text) : exponentLength (x ++ t) = exponentLength x := by
  cases x with
  | nil =>
    cases t with
    | nil => rfl
    | cons c r =>
      have hc := not_of_ends (ht c r rfl) (fun c => c == 'e' || c == 'E') (by decide)
        (by decide)
      rw [List.nil_append, exponentLength, if_neg (by simpa using hc)]
      rfl
  | cons c x =>
    simp only [List.cons_append, exponentLength, ht.nextIs_append
      (fun c hc => not_of_ends hc (oneOf "+-") (by decide) (by decide)) x]
    cases x with
    | nil =>
      simp only [nextIs, List.head?_nil, Option.any_none, Bool.false_eq_true, if_false,
        List.drop_zero, ht.runLength_append not_isDecimal_of_ends]
    | cons d x =>
      have hdrop : (d :: x ++ t).drop (if nextIs (oneOf "+-") (d :: x) then 1 else 0) =
          (d :: x).drop (if nextIs (oneOf "+-") (d :: x) then 1 else 0) ++ t := by
        split_ifs <;> rfl
      rw [hdrop, ht.runLength_append not_isDecimal_of_ends]

omit ht in
theorem runLength_le (p : CodePoint → Bool) (s : Text) : runLength p s ≤ s.length :=
  (List.takeWhile_prefix p).length_le

theorem decimalLengths_append (x : Text) : decimalLengths (x ++ t) = decimalLengths x := by
  have hexponent {n : Nat} (hn : n ≤ x.length) :
      exponentLength ((x ++ t).drop n) = exponentLength (x.drop n) := by
    rw [List.drop_append_of_le_length hn, exponentLength_append ht]
  have hwhole := runLength_le CodePoint.isDecimal x
  have hpoint := ht.nextIs_append
    (fun c hc => not_of_ends hc (oneOf ".") (by decide) (by decide))
  simp only [decimalLengths, ht.runLength_append not_isDecimal_of_ends,
    List.drop_append_of_le_length hwhole, hpoint]
  have hwith := exponentLength_append ht (x.drop (runLength CodePoint.isDecimal x))
  cases hrest : x.drop (runLength CodePoint.isDecimal x) with
  | nil =>
    rw [hrest] at hwith
    simp only [nextIs, List.head?_nil, Option.any_none, Bool.false_and, Bool.false_eq_true,
      if_false, hwith]
  | cons c r =>
    rw [hrest] at hwith
    have hlength := congrArg List.length hrest
    have hfraction := runLength_le CodePoint.isDecimal r
    rw [List.length_drop, List.length_cons] at hlength
    simp only [List.cons_append, List.drop_succ_cons, List.drop_zero,
      ht.runLength_append not_isDecimal_of_ends]
    rw [← List.cons_append, hwith,
      hexponent (n := runLength CodePoint.isDecimal x + 1 + _) (by omega)]
    split_ifs with hzero
    · rw [hexponent]
      rw [beq_iff_eq] at hzero
      omega
    · rfl
    · rfl
    · rfl

omit ht in
theorem exponentLength_le (s : Text) : exponentLength s ≤ s.length := by
  have hrun (k : Nat) (s : Text) : runLength CodePoint.isDecimal (s.drop k) ≤ s.length - k :=
    (runLength_le _ _).trans (Nat.le_of_eq List.length_drop)
  cases s with
  | nil => exact Nat.zero_le _
  | cons c s =>
    simp only [exponentLength, beq_iff_eq, List.length_cons]
    have := hrun (if nextIs (oneOf "+-") s then 1 else 0) s
    split_ifs at this ⊢ <;> omega

omit ht in
theorem le_of_mem_decimalLengths {s : Text} {n : Nat} (h : n ∈ decimalLengths s) :
    n ≤ s.length := by
  have hwhole := runLength_le CodePoint.isDecimal s
  have hfraction :=
    runLength_le CodePoint.isDecimal ((s.drop (runLength CodePoint.isDecimal s)).drop 1)
  have hexponent (m : Nat) : exponentLength (s.drop m) ≤ s.length - m :=
    (exponentLength_le _).trans (Nat.le_of_eq List.length_drop)
  -- A point is one more code point after the whole digits.
  have hpoint (h : nextIs (oneOf ".") (s.drop (runLength CodePoint.isDecimal s)) = true) :
      runLength CodePoint.isDecimal s < s.length := by
    by_contra hle
    rw [List.drop_eq_nil_of_le (Nat.le_of_not_lt hle)] at h
    cases h
  rw [List.length_drop, List.length_drop] at hfraction
  have within {m : Nat} (hm : m ≤ s.length) (hn : n ∈ [m + exponentLength (s.drop m), m]) :
      n ≤ s.length := by
    have := hexponent m
    simp only [List.mem_cons, List.not_mem_nil, or_false] at hn
    omega
  simp only [decimalLengths] at h
  split_ifs at h with hzero hpointed hpointed
  · rw [Bool.and_eq_true] at hpointed
    have := hpoint hpointed.1
    exact within (by omega) h
  · cases h
  · have := hpoint hpointed
    exact (List.mem_append.1 h).elim (within (by omega)) (within hwhole)
  · exact within hwhole h

omit ht in
theorem le_of_radixLength? {s : Text} {n : Nat} (h : radixLength? s = some n) : n ≤ s.length := by
  have hrun (p : CodePoint → Bool) (s : Text) := runLength_le p s
  unfold radixLength? at h
  split at h
  · dsimp only at h
    split_ifs at h <;> cases h <;> simp only [List.length_cons] <;>
      exact Nat.add_le_add_right (hrun _ _) 2
  · cases h

theorem cut_number? : Cut t number? := by
  refine .of_append rest_number? fun x hx => ?_
  have hword := ht.nextIs_append not_isWordOrDollar_of_ends
  rw [number?, number?, radixLength?_append ht, decimalLengths_append ht, List.map_findSome?]
  refine findSome?_congr fun n hn => ?_
  have hle : n ≤ x.length := by
    rcases List.mem_append.1 hn with hn | hn
    · exact le_of_radixLength? (Option.mem_toList.1 hn)
    · exact le_of_mem_decimalLengths hn
  rw [List.drop_append_of_le_length hle, List.take_append_of_le_length hle, hword]
  simp only [Function.comp]
  split_ifs <;> rfl

omit ht in
/-- The body of a string ends at the same quote whatever follows that. -/
theorem bodyLength?_append_iff {quote : CodePoint} {x : Text} {n : Nat} :
    bodyLength? quote (x ++ t) = some n ∧ n < x.length ↔ bodyLength? quote x = some n := by
  have shift {k n len : Nat} {found found' : Option Nat}
      (h : ∀ {n}, found = some n ∧ n < len ↔ found' = some n) :
      found.map (· + k) = some n ∧ n < len + k ↔ found'.map (· + k) = some n := by
    simp only [Option.map_eq_some_iff, ← h]
    constructor
    · rintro ⟨⟨m, hm, rfl⟩, hlt⟩
      exact ⟨m, ⟨hm, Nat.lt_of_add_lt_add_right hlt⟩, rfl⟩
    · rintro ⟨m, ⟨hm, hlt⟩, rfl⟩
      exact ⟨⟨m, hm, rfl⟩, Nat.add_lt_add_right hlt k⟩
  fun_induction bodyLength? quote x generalizing n with
  | case1 => simp
  | case2 c s hquote =>
    rw [List.cons_append, bodyLength?.eq_def]
    simp only [hquote, if_true, Option.some.injEq, List.length_cons]
    exact and_iff_left_of_imp fun h => by omega
  | case3 c hquote hslash d s ih =>
    rw [List.cons_append, bodyLength?.eq_def]
    simp only [hquote, hslash, if_true, List.cons_append]
    exact shift ih
  | case4 c hquote hslash =>
    rw [List.cons_append, bodyLength?.eq_def]
    simp only [hquote, hslash, if_true, List.nil_append, List.length_singleton, reduceCtorEq,
      iff_false]
    cases t with
    | nil => simp
    | cons d t => simp; omega
  | case5 c s hquote hslash hline =>
    rw [List.cons_append, bodyLength?.eq_def]
    simp [hquote, hslash, hline]
  | case6 c s hquote hslash hline ih =>
    rw [List.cons_append, bodyLength?.eq_def]
    simp only [hquote, hslash, hline, if_false, Bool.false_eq_true]
    exact shift ih

omit ht in
theorem cut_string? : Cut t string? := by
  refine ⟨rest_string?, fun {x k y} => ⟨fun h => ?_, fun h => ?_⟩⟩
  · have hshorter := (rest_string? h).shorter
    cases x with
    | nil =>
      simp only [List.nil_append, List.length_append] at hshorter
      omega
    | cons c r =>
      rw [List.cons_append, string?] at h
      rw [string?]
      split_ifs at h ⊢
      obtain ⟨n, hn, heq⟩ := Option.map_eq_some_iff.1 h
      obtain ⟨hk, hy⟩ := Prod.mk.inj heq
      have hlt : n < (r ++ t).length :=
        (bodyLength?_append_iff (t := [])).2 hn |>.2
      have hlength := congrArg List.length hy
      simp only [List.length_drop, List.length_cons, List.length_append] at hlength hlt
      have hle : n + 2 ≤ (c :: r).length := by
        rw [List.length_cons]
        omega
      rw [bodyLength?_append_iff.1 ⟨hn, Nat.le_of_succ_le_succ hle⟩]
      rw [← List.cons_append, List.take_append_of_le_length hle] at hk
      rw [← List.cons_append, List.drop_append_of_le_length hle, List.append_cancel_right_eq] at hy
      rw [Option.map_some, hk, hy]
  · cases x with
    | nil => cases h
    | cons c r =>
      rw [string?] at h
      rw [List.cons_append, string?]
      split_ifs at h ⊢
      obtain ⟨n, hn, heq⟩ := Option.map_eq_some_iff.1 h
      obtain ⟨hk, hy⟩ := Prod.mk.inj heq
      obtain ⟨hbody, hlt⟩ := (bodyLength?_append_iff (t := t)).2 hn
      have hle : n + 2 ≤ (c :: r).length := Nat.succ_le_succ hlt
      rw [hbody, Option.map_some, ← List.cons_append, List.take_append_of_le_length hle,
        List.drop_append_of_le_length hle, hk, hy]

/-! ## All kinds of tokens -/

theorem Kind.cut {α : Type} {find : Text → Option (α × Text)} (hfind : Kind find) :
    Cut t find := by
  cases hfind with
  | symbol hw =>
    have : ∀ w ∈ symbols, w ≠ "" := by decide
    exact cut_symbol? (this _ hw)
  | word hw =>
    have : ∀ w ∈ ["delete", "await"], (solid w && decide (w ≠ "")) = true := by decide
    exact cut_word? ht (this _ hw)
  | anyName => exact cut_anyName? ht
  | name => exact cut_name? ht
  | number => exact cut_number? ht
  | string => exact cut_string?
  | constant => exact cut_constant? ht
  | unary => exact cut_unary? ht
  | assign => exact cut_assign? ht

end

end GuardedText.Token
