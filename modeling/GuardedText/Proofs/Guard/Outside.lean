import GuardedText.Proofs.Guard.Follow
import GuardedText.Proofs.Guard.Literal
import GuardedText.Proofs.Guard.Plain

/-
  The places of a text that stand outside string literals and comments. White space, a comment and
  a string literal are passed as a whole, everything else one code point after the other
  (`Token.Outside`). When tokens are read after all white space and comments, a reader passes these
  places and no others, and on its way it meets no doubled sign, no quote without its string and no
  block comment without its end (`Spells.not_stray`).

  A division sign can be read where a line comment starts only if the comment starts with a third
  slash or an asterisk. In a text without such comments (`Token.Clean`) each token is read after all
  white space and comments.
-/

namespace GuardedText

open Token

namespace Token

/-! ## Places outside strings and comments -/

/-- The next place outside strings and comments. -/
def step? (s : Text) : Option Text :=
  match afterGap? s with
  | some t => some t
  | none =>
    match string? s with
    | some (_, t) => some t
    | none => s.tail?

/-- `t` is what is left of `s` at a place outside strings and comments. -/
def Outside : Text → Text → Prop := Relation.ReflTransGen fun s t => step? s = some t

/-- A code point that starts a string. -/
def isQuote (c : CodePoint) : Bool := c.val == 0x22 || c.val == 0x27

/-- What cannot be read outside strings and comments: two equal signs, a quote that starts no string
and the start of a block comment that does not end. -/
inductive Stray : Text → Prop where
  | sign {c : CodePoint} {r : Text} : oneOf "+-" c = true → Stray (c :: c :: r)
  | quote {c : CodePoint} {r : Text} : isQuote c = true → string? (c :: r) = none → Stray (c :: r)
  | comment {r : Text} : afterGap? (Text.ofString "/*" ++ r) = none →
      Stray (Text.ofString "/*" ++ r)

/-- No line comment starts with a third slash or an asterisk. -/
def Clean (s : Text) : Prop :=
  ∀ t, Outside s t → ¬ Text.ofString "///" <+: t ∧ ¬ Text.ofString "//*" <+: t

section

variable {s t r : Text}

theorem step?_of_gap (h : afterGap? s = some t) : step? s = some t := by
  rw [step?, h]

/-- What holds of both quotes holds of each. -/
theorem of_isQuote {c : CodePoint} (h : isQuote c = true) (p : CodePoint → Bool)
    (hp : (p 0x22 && p 0x27) = true) : p c = true := by
  rw [isQuote, Bool.or_eq_true, beq_iff_eq, beq_iff_eq] at h
  rw [Bool.and_eq_true] at hp
  rcases h with h | h
  · exact (Fin.ext h : c = (0x22 : CodePoint)) ▸ hp.1
  · exact (Fin.ext h : c = (0x27 : CodePoint)) ▸ hp.2

theorem not_space_of_isQuote {c : CodePoint} (h : isQuote c = true) :
    (!isSpace c && !oneOf "/" c) = true :=
  of_isQuote h (fun c => !isSpace c && !oneOf "/" c) (by decide)

theorem string?_eq_none {c : CodePoint} (h : isQuote c = false) (s : Text) :
    string? (c :: s) = none := by
  rw [isQuote] at h
  rw [string?, if_neg (by simp [h])]

theorem isQuote_of_string? {k : Text} (h : string? s = some (k, t)) :
    ∃ c r, s = c :: r ∧ isQuote c = true := by
  cases s with
  | nil => cases h
  | cons c r =>
    refine ⟨c, r, rfl, ?_⟩
    by_contra hc
    rw [string?_eq_none (by simpa using hc)] at h
    cases h

theorem stuck_of_string? {k : Text} (h : string? s = some (k, t)) : afterGap? s = none := by
  obtain ⟨c, r, rfl, hc⟩ := isQuote_of_string? h
  exact stuck_of_head (not_space_of_isQuote hc)

theorem step?_of_string {k : Text} (h : string? s = some (k, t)) : step? s = some t := by
  rw [step?, stuck_of_string? h, h]

theorem rest_step? (h : step? s = some t) : Rest s t := by
  unfold step? at h
  split at h
  · rename_i hgap
    cases h
    exact rest_afterGap? hgap
  · split at h
    · rename_i hstring
      cases h
      exact rest_string? hstring
    · cases s with
      | nil => cases h
      | cons c s =>
        cases h
        exact ⟨List.suffix_cons c _, Nat.lt_succ_self _⟩

theorem Outside.suffix (h : Outside s t) : t <:+ s := by
  induction h with
  | refl => exact List.suffix_refl s
  | tail _ h ih => exact (rest_step? h).suffix.trans ih

/-- Of two places outside strings and comments one comes after the other. -/
theorem Outside.total (ht : Outside s t) (hr : Outside s r) : Outside t r ∨ Outside r t := by
  refine Relation.ReflTransGen.total_of_right_unique ?_ ht hr
  intro a b c hb hc
  exact Option.some.inj (hb.symm.trans hc)

theorem Outside.eq_or_of_step (h : Outside s r) (ht : step? s = some t) : s = r ∨ Outside t r := by
  obtain h | ⟨q, hq, h⟩ := h.cases_head
  · exact Or.inl h
  · rw [ht] at hq
    cases hq
    exact Or.inr h

theorem Gap.outside (h : Gap s t) : Outside s t :=
  Relation.ReflTransGen.mono (fun _ _ => step?_of_gap) _ _ h

/-- White space and comments lead past no place but the starts of white space and comments. -/
theorem Outside.after_gap (h : Outside s r) (ht : Gap s t) (hr : afterGap? r = none) :
    Outside t r := by
  induction ht using Relation.ReflTransGen.head_induction_on with
  | refl => exact h
  | head hgap _ ih =>
    rcases h.eq_or_of_step (step?_of_gap hgap) with rfl | h
    · rw [hr] at hgap
      cases hgap
    · exact ih h

theorem Stray.stuck (h : Stray r) : afterGap? r = none := by
  cases h with
  | sign hc => exact stuck_of_head (of_oneOf hc (fun c => !isSpace c && !oneOf "/" c) (by decide))
  | quote hc => exact stuck_of_head (not_space_of_isQuote hc)
  | comment h => exact h

theorem Clean.outside (h : Clean s) (ht : Outside s t) : Clean t := fun r hr => h r (ht.trans hr)

theorem Plain.clean (h : Plain s) : Clean s :=
  fun _ ht => ⟨fun h' => h.noSlash (h'.isInfix.trans ht.suffix.isInfix),
    fun h' => h.noAsterisk (h'.isInfix.trans ht.suffix.isInfix)⟩

end

/-- A text that does not start with a slash starts with no comment. -/
theorem not_comment {c : CodePoint} (hc : c ≠ CodePoint.ofChar '/') (r : Text) :
    ¬ Text.ofString "///" <+: c :: r ∧ ¬ Text.ofString "//*" <+: c :: r :=
  ⟨fun h => hc (List.cons_prefix_cons.1 h).1.symm, fun h => hc (List.cons_prefix_cons.1 h).1.symm⟩

/-! ## Words -/

/-- A place whose code point is passed alone. -/
structure Lone (s : Text) : Prop where
  stuck : afterGap? s = none
  noString : string? s = none
  notStray : ¬ Stray s

/-- Each code point of `w` is passed alone if `u` stands behind `w`. -/
def Shown (u : Text) : Text → Prop
  | [] => True
  | c :: w => Lone (c :: (w ++ u)) ∧ Shown u w

/-- A code point that is passed alone wherever it stands. -/
def isLetter (c : CodePoint) : Bool := !isSpace c && !oneOf "\"'/+-" c

section

variable {u : Text}

theorem Lone.step? {c : CodePoint} {r : Text} (h : Lone (c :: r)) : step? (c :: r) = some r := by
  rw [Token.step?, h.stuck, h.noString]
  rfl

theorem not_isQuote {c : CodePoint} {w : String} (hc : oneOf w c = true)
    (hw : (Text.ofString w).all fun c => !isQuote c) : isQuote c = false := by
  simpa using of_oneOf hc (fun c => !isQuote c) hw

theorem lone_letter {c : CodePoint} (hc : isLetter c = true) (r : Text) : Lone (c :: r) := by
  rw [isLetter, Bool.and_eq_true, Bool.not_eq_true', Bool.not_eq_true'] at hc
  obtain ⟨hspace, hmark⟩ := hc
  have hother {w : String} (hw : (Text.ofString w).all (oneOf "\"'/+-") = true) :
      oneOf w c = false := by
    rw [Bool.eq_false_iff]
    intro h
    rw [of_oneOf h _ hw] at hmark
    cases hmark
  have hquote : isQuote c = false := by
    rw [Bool.eq_false_iff]
    intro h
    rw [of_isQuote h (oneOf "\"'/+-") (by decide)] at hmark
    cases hmark
  refine ⟨stuck_of_head ?_, string?_eq_none hquote r, ?_⟩
  · rw [hspace, hother (by decide)]
    rfl
  · rintro (h | ⟨h, -⟩ | h)
    · rw [hother (by decide)] at h
      cases h
    · rw [hquote] at h
      cases h
    · exact absurd hmark (by decide)

theorem lone_sign {c : CodePoint} (hc : oneOf "+-" c = true) {r : Text}
    (hr : nextIs (· == c) r = false) : Lone (c :: r) := by
  have hquote := not_isQuote hc (by decide)
  refine ⟨stuck_of_head ?_, string?_eq_none hquote r, ?_⟩
  · exact of_oneOf hc (fun c => !isSpace c && !oneOf "/" c) (by decide)
  · rintro (h | ⟨h, -⟩ | h)
    · simp [nextIs] at hr
    · rw [hquote] at h
      cases h
    · exact absurd hc (by decide)

theorem lone_slash {c : CodePoint} (hc : oneOf "/" c = true) {r : Text}
    (hstuck : afterGap? (c :: r) = none) (hr : nextIs (oneOf "*") r = false) : Lone (c :: r) := by
  have hquote := not_isQuote hc (by decide)
  refine ⟨hstuck, string?_eq_none hquote r, ?_⟩
  rintro (h | ⟨h, -⟩ | h)
  · have := of_oneOf hc (fun c => !oneOf "+-" c) (by decide)
    rw [h] at this
    cases this
  · rw [hquote] at h
    cases h
  · cases hr

theorem shown_append {w v : Text} : Shown u (w ++ v) ↔ Shown (v ++ u) w ∧ Shown u v := by
  induction w with
  | nil => exact (and_iff_right trivial).symm
  | cons c w ih => rw [List.cons_append, Shown, Shown, ih, List.append_assoc, and_assoc]

theorem shown_letters {w : Text} (h : w.all isLetter = true) : Shown u w := by
  induction w with
  | nil => trivial
  | cons c w ih =>
    rw [List.all_cons, Bool.and_eq_true] at h
    exact ⟨lone_letter h.1 _, ih h.2⟩

/-- What holds of letters alone. -/
theorem isLetter_of {c : CodePoint} (p : CodePoint → Bool) (hc : p c = true)
    (hspaces : (spaces.all fun n => !p (Fin.ofNat 0x110000 n)) = true)
    (hmarks : (Text.ofString "\"'/+-").all (fun c => !p c) = true) : isLetter c = true := by
  rw [isLetter, Bool.and_eq_true, Bool.not_eq_true', Bool.not_eq_true']
  refine ⟨?_, ?_⟩ <;> rw [Bool.eq_false_iff] <;> intro h
  · have := of_isSpace h (fun c => !p c) hspaces
    rw [hc] at this
    cases this
  · have := of_oneOf h (fun c => !p c) hmarks
    rw [hc] at this
    cases this

theorem all_isLetter {w : Text} (p : CodePoint → Bool) (hw : w.all p = true)
    (hspaces : (spaces.all fun n => !p (Fin.ofNat 0x110000 n)) = true)
    (hmarks : (Text.ofString "\"'/+-").all (fun c => !p c) = true) : w.all isLetter = true := by
  rw [List.all_eq_true] at hw ⊢
  exact fun c hc => isLetter_of p (hw c hc) hspaces hmarks

theorem Shown.outside {w : Text} (h : Shown u w) : Outside (w ++ u) u := by
  induction w with
  | nil => exact .refl
  | cons c w ih => exact .head h.1.step? (ih h.2)

/-- Nothing stray stands in a word. -/
theorem Shown.after {w r : Text} (h : Shown u w) (hr : Outside (w ++ u) r) (hstray : Stray r) :
    Outside u r := by
  induction w with
  | nil => exact hr
  | cons c w ih =>
    rcases hr.eq_or_of_step h.1.step? with rfl | hr
    · exact absurd hstray h.1.notStray
    · exact ih h.2 hr

/-- No white space and no comment starts in a word. -/
theorem Shown.before {w y t : Text} (h : Shown u w) (heq : w ++ u = y ++ t)
    (ht : afterGap? t ≠ none) : ∃ z, u = z ++ t := by
  induction w generalizing y with
  | nil => exact ⟨y, heq⟩
  | cons c w ih =>
    cases y with
    | nil =>
      rw [List.nil_append] at heq
      exact absurd (heq ▸ h.1.stuck) ht
    | cons d y => exact ih h.2 (List.cons.inj heq).2

/-! ## Tokens as words -/

theorem all_isLetter_decimal {w : Text} (h : w.all CodePoint.isDecimal = true) :
    w.all isLetter = true :=
  all_isLetter _ h (by decide +kernel) (by decide +kernel)

theorem shown_isExponent {x : Text} (h : IsExponent x) : Shown u x := by
  cases h with
  | none => trivial
  | @some e sign ds hmark hsign hne hds =>
    have hdigits := all_isLetter_decimal hds
    refine ⟨lone_letter ?_ _, shown_append.2 ⟨?_, shown_letters hdigits⟩⟩
    · rw [Bool.or_eq_true, beq_iff_eq, beq_iff_eq] at hmark
      rcases hmark with rfl | rfl <;> decide
    · obtain ⟨d, ds, rfl⟩ := List.exists_cons_of_ne_nil hne
      rw [List.all_cons, Bool.and_eq_true] at hds
      have hd {c : CodePoint} (hc : c.isDecimal = false) : nextIs (· == c) (d :: ds ++ u) = false := by
        simp only [nextIs, List.cons_append, List.head?_cons, Option.any_some, beq_eq_false_iff_ne]
        rintro rfl
        rw [hds.1] at hc
        cases hc
      simp only [List.mem_cons, List.not_mem_nil, or_false] at hsign
      rcases hsign with rfl | rfl | rfl
      · trivial
      · exact ⟨lone_sign (by decide) (hd (by decide)), trivial⟩
      · exact ⟨lone_sign (by decide) (hd (by decide)), trivial⟩

theorem shown_isDecimal {k : Text} (h : IsDecimal k) : Shown u k := by
  cases h with
  | mk hw hp hx hne =>
    refine shown_append.2 ⟨shown_letters (all_isLetter_decimal hw),
      shown_append.2 ⟨?_, shown_isExponent hx⟩⟩
    cases hp with
    | none => trivial
    | some hf => exact ⟨lone_letter (by decide) _, shown_letters (all_isLetter_decimal hf)⟩

theorem all_isLetter_radix {s : Text} {n : Nat} (h : radixLength? s = some n) :
    (s.take n).all isLetter = true := by
  have run {c d : CodePoint} {t : Text} (p : CodePoint → Bool) (hc : isLetter c = true)
      (hd : isLetter d = true) (hspaces : (spaces.all fun n => !p (Fin.ofNat 0x110000 n)) = true)
      (hmarks : (Text.ofString "\"'/+-").all (fun c => !p c) = true) :
      ((c :: d :: t).take (runLength p t + 2)).all isLetter = true := by
    rw [List.take_succ_cons, List.take_succ_cons, take_runLength, List.all_cons, List.all_cons, hc,
      hd, all_isLetter p (all_takeWhile p t) hspaces hmarks]
    rfl
  have announced {d : CodePoint} {x y : Char} (h : (d == x || d == y) = true)
      (hx : isLetter x = true) (hy : isLetter y = true) : isLetter d = true := by
    rw [Bool.or_eq_true, beq_iff_eq, beq_iff_eq] at h
    rcases h with rfl | rfl
    · exact hx
    · exact hy
  unfold radixLength? at h
  split at h
  · rename_i c d t
    simp only at h
    split_ifs at h with hzero hx hempty ho hempty hb hempty
    all_goals
      rw [beq_iff_eq] at hzero
      subst hzero
      cases h
    · exact run _ (by decide) (announced hx (by decide) (by decide)) (by decide +kernel)
        (by decide +kernel)
    · exact run _ (by decide) (announced ho (by decide) (by decide)) (by decide +kernel)
        (by decide +kernel)
    · exact run _ (by decide) (announced hb (by decide) (by decide)) (by decide +kernel)
        (by decide +kernel)
  · cases h

/-- A token that is a word of its text, or a string. -/
def Worded (m u : Text) : Prop :=
  (∃ k, string? m = some (k, u)) ∨ ∃ w, w ≠ [] ∧ m = w ++ u ∧ Shown u w

variable {m : Text}

theorem worded_symbol {w : String} (hw : (decide (w ≠ "") && (Text.ofString w).all isLetter) = true)
    (h : symbol? w m = some u) : Worded m u := by
  rw [Bool.and_eq_true, decide_eq_true_eq] at hw
  exact Or.inr ⟨_, ofString_ne_nil hw.1, symbol?_eq_some.1 h, shown_letters hw.2⟩

theorem worded_word {w : String} (hw : (decide (w ≠ "") && (Text.ofString w).all isLetter) = true)
    (h : word? w m = some u) : Worded m u :=
  worded_symbol hw (symbol?_eq_some.2 (symbolNot?_eq_some.1 h).1)

theorem worded_anyName {n : Text} (h : anyName? m = some (n, u)) : Worded m u := by
  have hrest := rest_anyName? h
  obtain ⟨c, r, hm, -, -, hu⟩ := anyName?_eq_some h
  refine Or.inr ⟨m.takeWhile CodePoint.isWordOrDollar, ?_, ?_, ?_⟩
  · intro hnil
    have := List.takeWhile_append_dropWhile (p := CodePoint.isWordOrDollar) (l := m)
    rw [hnil, ← hu, List.nil_append] at this
    exact absurd (this ▸ hrest.shorter) (Nat.lt_irrefl _)
  · rw [hu, List.takeWhile_append_dropWhile]
  · exact shown_letters
      (all_isLetter _ (all_takeWhile _ m) (by decide +kernel) (by decide +kernel))

theorem worded_number {k : Text} (h : number? m = some (k, u)) : Worded m u := by
  have hrest := rest_number? h
  obtain ⟨n, hn, hfound⟩ := List.exists_of_findSome?_eq_some h
  split_ifs at hfound
  cases hfound
  refine Or.inr ⟨m.take n, ?_, (List.take_append_drop n m).symm, ?_⟩
  · intro hnil
    have := List.take_append_drop n m
    rw [hnil, List.nil_append] at this
    exact absurd (this ▸ hrest.shorter) (Nat.lt_irrefl _)
  · rcases List.mem_append.1 hn with hn | hn
    · exact shown_letters (all_isLetter_radix (Option.mem_toList.1 hn))
    · exact shown_isDecimal (isDecimal_take hn)

theorem worded_sign {w : String} {p : CodePoint → Bool} {c : CodePoint}
    (hw : Text.ofString w = [c]) (hc : oneOf "+-" c = true) (hp : p c = true)
    (h : symbolNot? w p m = some u) : Worded m u := by
  obtain ⟨hm, hu⟩ := symbolNot?_eq_some.1 h
  refine Or.inr ⟨[c], List.cons_ne_nil _ _, hw ▸ hm, lone_sign hc ?_, trivial⟩
  cases u with
  | nil => rfl
  | cons d u =>
    simp only [nextIs, List.head?_cons, Option.any_some] at hu
    simp only [nextIs, List.nil_append, List.head?_cons, Option.any_some, beq_eq_false_iff_ne]
    rintro rfl
    rw [hp] at hu
    cases hu

theorem worded_unary {op : UnaryOp} (h : unary? m = some (op, u)) : Worded m u := by
  obtain ⟨choice, hmem, -, hfound⟩ := firstOf_eq_some h
  fin_cases hmem
  · exact worded_symbol (by decide) hfound
  · exact worded_symbol (by decide) hfound
  · exact worded_sign rfl (by decide) (by decide) hfound
  · exact worded_sign rfl (by decide) (by decide) hfound
  · exact worded_word (by decide) hfound
  · exact worded_word (by decide) hfound

theorem worded_assign {op : AssignOp} (h : assign? m = some (op, u)) : Worded m u := by
  obtain ⟨hop, rfl⟩ := assign?_spelled h
  refine Or.inr ⟨_, ofString_ne_nil ?_, rfl, ?_⟩
  · fin_cases hop <;> decide
  · fin_cases hop
    all_goals first
      | exact shown_letters (by decide)
      | exact ⟨lone_sign (by decide) rfl, lone_letter (by decide) _, trivial⟩
      | exact ⟨lone_slash (by decide) rfl rfl, lone_letter (by decide) _, trivial⟩

theorem Kind.worded {α : Type} {find : Text → Option (α × Text)} {a : α} (hfind : Kind find)
    (h : find m = some (a, u)) : Worded m u := by
  have paired {found : Option Text} {a : Unit} (h : found.map ((), ·) = some (a, u)) :
      found = some u := by
    obtain ⟨v, hv, heq⟩ := Option.map_eq_some_iff.1 h
    cases heq
    exact hv
  have letters : ∀ w ∈ "delete" :: "await" :: symbols,
      (decide (w ≠ "") && (Text.ofString w).all isLetter) = true := by decide
  cases hfind with
  | symbol hw =>
    exact worded_symbol (letters _ (List.mem_cons_of_mem _ (List.mem_cons_of_mem _ hw))) (paired h)
  | word hw => exact worded_word (letters _ (List.mem_append_left symbols hw)) (paired h)
  | anyName => exact worded_anyName h
  | name => exact worded_anyName (Option.filter_eq_some_iff.1 h).1
  | number => exact worded_number h
  | string => exact Or.inl ⟨a, h⟩
  | constant =>
    have hword := constant?_spelled h
    unfold wordOf at hword
    split at hword <;> exact worded_word (by decide) hword
  | unary => exact worded_unary h
  | assign => exact worded_assign h

/-- A division sign starts no comment that does not end, for an operand follows it. -/
theorem worded_slash {full : Bool} {p : CodePoint → Bool} (h : symbolNot? "/" p m = some u)
    (hopens : Opens full u) (hstuck : afterGap? m = none) : Worded m u := by
  obtain ⟨rfl, -⟩ := symbolNot?_eq_some.1 h
  refine Or.inr ⟨_, List.cons_ne_nil _ _, rfl, lone_slash (by decide) hstuck ?_, trivial⟩
  obtain ⟨t, c, r, hat, rfl, hc⟩ := hopens
  rw [Bool.eq_false_iff]
  intro hstar
  cases u with
  | nil => cases hstar
  | cons d q =>
    have hd : oneOf "*" d = true := by simpa [nextIs] using hstar
    have hgap := stuck_of_head (r := q) (of_oneOf hd (fun c => !isSpace c && !oneOf "/" c) (by decide))
    obtain ⟨rfl, -⟩ := List.cons.inj (hat.1.eq_of_stuck hgap)
    rw [of_oneOf hd (oneOf "/*") (by decide)] at hc
    cases hc

theorem worded_operator {full : Bool} {k : Nat} {op : BinaryOp}
    (h : operator? k m = some (op, u)) (hopens : Opens full u) (hstuck : afterGap? m = none) :
    Worded m u := by
  obtain ⟨choice, hmem, -, hfound⟩ := firstOf_eq_some (operator?_eq_some.1 h).1
  have hsymbol {w : String} {p : CodePoint → Bool}
      (hw : (decide (w ≠ "") && (Text.ofString w).all isLetter) = true)
      (h : symbolNot? w p m = some u) : Worded m u :=
    worded_symbol hw (symbol?_eq_some.2 (symbolNot?_eq_some.1 h).1)
  fin_cases hmem
  all_goals first
    | exact worded_symbol (by decide) hfound
    | exact hsymbol (by decide) hfound
    | exact worded_sign rfl (by decide) (by decide) hfound
    | exact worded_slash hfound hopens hstuck

/-! ## Passing tokens -/

theorem Worded.stuck (h : Worded m u) : afterGap? m = none := by
  rcases h with ⟨k, hk⟩ | ⟨w, hne, rfl, hw⟩
  · exact stuck_of_string? hk
  · obtain ⟨c, w, rfl⟩ := List.exists_cons_of_ne_nil hne
    exact hw.1.stuck

theorem Worded.outside (h : Worded m u) : Outside m u := by
  rcases h with ⟨k, hk⟩ | ⟨w, -, rfl, hw⟩
  · exact .single (step?_of_string hk)
  · exact hw.outside

theorem Worded.after {r : Text} (h : Worded m u) (hr : Outside m r) (hstray : Stray r) :
    Outside u r := by
  rcases h with ⟨k, hk⟩ | ⟨w, -, rfl, hw⟩
  · refine (hr.eq_or_of_step (step?_of_string hk)).resolve_left ?_
    rintro rfl
    obtain ⟨c, q, rfl, hc⟩ := isQuote_of_string? hk
    cases hstray with
    | sign hsign =>
      rw [not_isQuote hsign (by decide)] at hc
      cases hc
    | quote _ hnone =>
      rw [hnone] at hk
      cases hk
    | comment => exact absurd hc (by decide)
  · exact hw.after hr hstray

end

/-! ## Reading clean texts -/

section

variable {s u : Text}

theorem At.outside {full : Bool} {m : Text} (h : At full s m) : Outside s m := h.1.outside

/-- In a clean text no comment starts at a division sign. -/
theorem stuck_of_operator {full : Bool} {k : Nat} {op : BinaryOp} (h : operator? k s = some (op, u))
    (hopens : Opens full u) (hs : Clean s) : afterGap? s = none := by
  obtain ⟨hslash, hasterisk⟩ := hs s .refl
  obtain rfl := binary?_spelled (operator?_eq_some.1 h).1
  cases op with
  | div =>
    rw [Option.eq_none_iff_forall_ne_some]
    intro r hr
    obtain ⟨c, q, rfl, hc⟩ := exists_of_afterGap?_slash hr
    obtain ⟨t, d, p, hat, rfl, hd⟩ := hopens
    -- An operand does not start with a slash or an asterisk, so a comment comes before it.
    obtain heq | ⟨v, hv, -⟩ := hat.1.cases_head
    · obtain ⟨rfl, -⟩ := List.cons.inj heq
      rcases hc with rfl | rfl <;> exact absurd hd (by decide)
    · rcases hc with rfl | rfl
      · cases hv
      · obtain ⟨e, p, rfl, he⟩ := exists_of_afterGap?_slash hv
        rcases he with rfl | rfl
        · exact hasterisk (List.prefix_append _ p)
        · exact hslash (List.prefix_append _ p)
  | _ => exact stuck_append (by decide) u

theorem tracks_clean : Tracks false true fun s s' => s' = s ∧ Clean s := by
  have passed {s m u : Text} (hat : At false s m) (hm : Worded m u) (hs : Clean s) :
      At true s m ∧ Clean u :=
    ⟨⟨hat.1, fun _ => hm.stuck⟩, hs.outside (hat.outside.trans hm.outside)⟩
  refine ⟨?_, ?_, ?_⟩
  · rintro α find a s _ u hfind ⟨m, hat, hm⟩ ⟨rfl, hs⟩
    obtain ⟨hat, hu⟩ := passed hat (hfind.worded hm) hs
    exact ⟨u, ⟨m, hat, hm⟩, rfl, hu⟩
  · rintro k op s _ u ⟨m, hat, hm⟩ hopens ⟨rfl, hs⟩
    have hstuck := stuck_of_operator hm hopens (hs.outside hat.outside)
    obtain ⟨hat, hu⟩ := passed hat (worded_operator hm hopens hstuck) hs
    exact ⟨u, ⟨m, hat, hm⟩, rfl, hu⟩
  · rintro s _ hend ⟨rfl, -⟩
    exact ⟨hend.1, fun _ => rfl⟩

/-- Reading passes no stray place. -/
theorem tracks_stray {r : Text} (hr : Stray r) :
    Tracks true true fun s s' => s' = s ∧ Outside s r := by
  have passed {s m u : Text} (hat : At true s m) (hm : Worded m u) (hs : Outside s r) :
      Outside u r :=
    hm.after (hs.after_gap hat.1 hr.stuck) hr
  refine ⟨?_, ?_, ?_⟩
  · rintro α find a s _ u hfind ⟨m, hat, hm⟩ ⟨rfl, hs⟩
    exact ⟨u, ⟨m, hat, hm⟩, rfl, passed hat (hfind.worded hm) hs⟩
  · rintro k op s _ u ⟨m, hat, hm⟩ hopens ⟨rfl, hs⟩
    exact ⟨u, ⟨m, hat, hm⟩, rfl, passed hat (worded_operator hm hopens (hat.2 rfl)) hs⟩
  · rintro s _ hend ⟨rfl, -⟩
    exact hend

end

end Token

section

variable {s u : Text}

theorem Derives.full {X : Nonterminal} {a : X.Out} (h : Derives false X s a u)
    (hs : Clean s) : Derives true X s a u := by
  obtain ⟨u', hfull, rfl, -⟩ := h.follow tracks_clean ⟨rfl, hs⟩
  exact hfull

/-- In a clean text each token is read after all white space and comments. -/
theorem Spells.full {found : List (Option Tree)} (h : Spells false s found) (hs : Clean s) :
    Spells true s found :=
  h.follow tracks_clean ⟨rfl, hs⟩

/-- Nothing stray stands in a text that is read after all white space and comments. -/
theorem Spells.not_stray {r : Text} {found : List (Option Tree)} (h : Spells true s found)
    (hr : Outside s r) : ¬ Stray r := by
  intro hstray
  induction h with
  | last hfirst hend =>
    obtain ⟨t, -, rfl, ht⟩ := hfirst.follow (tracks_stray hstray) ⟨rfl, hr⟩
    have hnil := List.suffix_nil.1 (ht.after_gap hend.1 hstray.stuck).suffix
    subst hnil
    cases hstray
  | more hfirst hw _ ih =>
    obtain ⟨t, -, rfl, ht⟩ := hfirst.follow (tracks_stray hstray) ⟨rfl, hr⟩
    obtain ⟨v, -, rfl, hv⟩ := (tracks_stray hstray).symbol (by decide) hw ⟨rfl, ht⟩
    exact ih hv

end

end GuardedText
