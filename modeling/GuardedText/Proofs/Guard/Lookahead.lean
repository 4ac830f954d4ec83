import GuardedText.Proofs.Guard.Grammar

/-
  What the next token tells. When each token is read after all white space and comments, the kind of
  the next token decides how reading goes on: `lead` tells which operand can start there, and
  `looseness` which operator can follow an operand, the tightest with the least number. Tokens of
  different kinds share their first characters (`*`, `**` and `**=`, `?` and `?.`, `>>>` and `>>>=`),
  but an operand has to follow an operator, and no operand starts with a character that would make
  the operator a longer one (`head_of_lead`).
-/

namespace GuardedText

open Token

namespace Token

/-! ## Reading after all gaps -/

theorem at_true {s t : Text} : At true s t ↔ t = skip s := by
  refine ⟨fun h => h.1.eq_skip (h.2 rfl), ?_⟩
  rintro rfl
  exact ⟨gap_skip s, fun _ => afterGap?_skip s⟩

theorem reads_true {α : Type} {find : Text → Option α} {s : Text} {a : α} :
    Reads true find s a ↔ find (skip s) = some a := by
  simp [Reads, at_true]

theorem Reads.unique {α : Type} {find : Text → Option α} {s : Text} {a b : α}
    (ha : Reads true find s a) (hb : Reads true find s b) : a = b :=
  Option.some.inj ((reads_true.1 ha).symm.trans (reads_true.1 hb))

/-! ## What starts an operand -/

/-- The kinds of tokens that an operand can start with. -/
inductive Lead where
  | none | sign | delete | await | number | string | constant | name | square | curly | round
  deriving DecidableEq

/-- The kind of a word. -/
def leadOfWord (n : Text) : Lead :=
  if n = Text.ofString "delete" then .delete
  else if n = Text.ofString "await" then .await
  else if n = Text.ofString "typeof" ∨ n = Text.ofString "void" then .sign
  else if n = Text.ofString "true" ∨ n = Text.ofString "false" ∨ n = Text.ofString "null" then
    .constant
  else .name

/-- The kind of a token that its first code point tells. -/
def leadOfHead (c : CodePoint) : Lead :=
  if c.isDecimal then .number
  else if oneOf "!~+-" c then .sign
  else if oneOf "\"'" c then .string
  else if oneOf "[" c then .square
  else if oneOf "\x7b" c then .curly
  else if oneOf "(" c then .round
  else .none

/-- The kind of the token at the start of a text. -/
def leadOf : Text → Lead
  | [] => .none
  | c :: r =>
    if startsName c then leadOfWord ((c :: r).takeWhile CodePoint.isWordOrDollar)
    else if oneOf "." c then (if nextIs CodePoint.isDecimal r then .number else .none)
    else leadOfHead c

/-- The kind of the next token. -/
def lead (s : Text) : Lead := leadOf (skip s)

theorem Reads.lead_eq {α : Type} {find : Text → Option α} {s : Text} {a : α} {l : Lead}
    (h : Reads true find s a) (hfind : ∀ {t}, find t = some a → leadOf t = l) : lead s = l :=
  hfind (reads_true.1 h)

/-- Characters with which no operand starts. -/
def barred : String := "=>?|&*^%</)]\x7d,:;"

theorem head_of_lead {c : CodePoint} {r : Text} (h : leadOf (c :: r) ≠ .none) :
    oneOf barred c = false := by
  rw [Bool.eq_false_iff]
  intro hc
  have hhead := of_oneOf hc
    (fun c => !startsName c && !oneOf "." c && decide (leadOfHead c = .none)) (by decide)
  simp only [Bool.and_eq_true, Bool.not_eq_true', decide_eq_true_eq] at hhead
  refine h ?_
  simp [leadOf, hhead]

theorem startsName_of_point {c : CodePoint} (h : oneOf "." c = true) : startsName c = false := by
  simpa using of_oneOf h (fun c => !startsName c) (by decide)

/-- An operand that starts with a point goes on with a digit. -/
theorem decimal_of_lead {c : CodePoint} {r : Text} (h : leadOf (c :: r) ≠ .none)
    (hc : oneOf "." c = true) : nextIs CodePoint.isDecimal r = true := by
  by_contra hr
  refine h ?_
  simp [leadOf, startsName_of_point hc, hc, hr]

/-! ### Words and names -/

theorem word?_takeWhile {w : String} {s u : Text} (hw : (Text.ofString w).all CodePoint.isWordOrDollar)
    (h : word? w s = some u) : s.takeWhile CodePoint.isWordOrDollar = Text.ofString w := by
  obtain ⟨rfl, hu⟩ := symbolNot?_eq_some.1 h
  rw [List.takeWhile_append_of_pos (List.all_eq_true.1 hw)]
  cases u with
  | nil => simp
  | cons c u =>
    have hc : CodePoint.isWordOrDollar c = false := by simpa [nextIs] using hu
    simp [hc]

theorem leadOf_word? {w : String} {s u : Text} (hw : (Text.ofString w).all CodePoint.isWordOrDollar)
    (hstart : (Text.ofString w).head?.any startsName) (h : word? w s = some u) :
    leadOf s = leadOfWord (Text.ofString w) := by
  have hword := word?_takeWhile hw h
  obtain ⟨rfl, -⟩ := symbolNot?_eq_some.1 h
  cases hcs : Text.ofString w with
  | nil => simp [hcs] at hstart
  | cons c cs =>
    have hc : startsName c = true := by simpa [hcs] using hstart
    rw [hcs] at hword
    simp only [List.cons_append, leadOf, hc, if_true]
    rw [← List.cons_append, hword]

theorem leadOf_name? {s n u : Text} (h : name? s = some (n, u)) : leadOf s = .name := by
  obtain ⟨hany, hreserved⟩ := Option.filter_eq_some_iff.1 h
  obtain ⟨c, r, rfl, hc, rfl, -⟩ := anyName?_eq_some hany
  simp only [leadOf, hc, if_true]
  have ne {w : String} (hw : w ∈ reserved) :
      (c :: r).takeWhile CodePoint.isWordOrDollar ≠ Text.ofString w := by
    intro heq
    simp [heq] at hreserved
    exact hreserved w hw rfl
  unfold leadOfWord
  rw [if_neg (ne (by decide)), if_neg (ne (by decide)), if_neg, if_neg]
  · rintro (h | h | h)
    · exact ne (by decide) h
    · exact ne (by decide) h
    · exact ne (by decide) h
  · rintro (h | h)
    · exact ne (by decide) h
    · exact ne (by decide) h

theorem leadOf_anyName? {s n u : Text} (h : anyName? s = some (n, u)) :
    leadOf s = leadOfWord n := by
  obtain ⟨c, r, rfl, hc, rfl, -⟩ := anyName?_eq_some h
  simp only [leadOf, hc, if_true]

theorem leadOfWord_ne {n : Text} {l : Lead} (h : l ∉ [.delete, .await, .sign, .constant, .name]) :
    leadOfWord n ≠ l := by
  rintro rfl
  refine h ?_
  unfold leadOfWord
  split_ifs <;> decide

theorem leadOf_constant? {s u : Text} {value : Literal} (h : constant? s = some (value, u)) :
    leadOf s = .constant := by
  have hword := constant?_spelled h
  unfold wordOf at hword
  split at hword <;> rw [leadOf_word? (by decide) (by decide) hword] <;> decide

/-! ### Literals and signs -/

theorem leadOf_of_head {c : CodePoint} {r : Text} (hname : startsName c = false)
    (hdot : oneOf "." c = false) : leadOf (c :: r) = leadOfHead c := by
  simp [leadOf, hname, hdot]

theorem leadOf_symbol? {w : String} {s u : Text} (h : symbol? w s = some u) {l : Lead}
    (hw : (Text.ofString w).head?.any fun c => !startsName c && !oneOf "." c &&
      decide (leadOfHead c = l)) : leadOf s = l := by
  rw [symbol?_eq_some.1 h]
  cases hcs : Text.ofString w with
  | nil => simp [hcs] at hw
  | cons c cs =>
    simp only [hcs, List.head?_cons, Option.any_some, Bool.and_eq_true, Bool.not_eq_true',
      decide_eq_true_eq] at hw
    rw [List.cons_append, leadOf_of_head hw.1.1 hw.1.2, hw.2]

theorem lead_square {s u : Text} (h : Reads true (symbol? "[") s u) : lead s = .square :=
  h.lead_eq fun ht => leadOf_symbol? ht (by decide)

theorem lead_curly {s u : Text} (h : Reads true (symbol? "\x7b") s u) : lead s = .curly :=
  h.lead_eq fun ht => leadOf_symbol? ht (by decide)

theorem lead_round {s u : Text} (h : Reads true (symbol? "(") s u) : lead s = .round :=
  h.lead_eq fun ht => leadOf_symbol? ht (by decide)

theorem leadOf_decimal {c : CodePoint} {r : Text} (h : c.isDecimal = true) :
    leadOf (c :: r) = .number := by
  have hdot : oneOf "." c = false := by
    rw [Bool.eq_false_iff]
    intro hc
    have := of_oneOf hc (fun c => !c.isDecimal) (by decide)
    simp [h] at this
  have hname : startsName c = false := by
    have hdollar : c.val ≠ 0x24 := by
      intro hc
      have : c = (0x24 : CodePoint) := Fin.ext hc
      subst this
      revert h
      decide
    simp [startsName, h, hdollar]
  rw [leadOf_of_head hname hdot, leadOfHead, if_pos h]

theorem runLength_pos {p : CodePoint → Bool} {s : Text} (h : runLength p s ≠ 0) :
    nextIs p s = true := by
  cases s with
  | nil => simp [runLength] at h
  | cons c r =>
    by_contra hc
    refine h ?_
    have : p c = false := by simpa [nextIs] using hc
    simp [runLength, this]

theorem leadOf_number? {s k u : Text} (h : number? s = some (k, u)) : leadOf s = .number := by
  obtain ⟨n, hn, -⟩ := List.exists_of_findSome?_eq_some h
  rcases List.mem_append.1 hn with hn | hn
  · have hradix := Option.mem_toList.1 hn
    unfold radixLength? at hradix
    split at hradix
    · rename_i c d t
      simp only at hradix
      split_ifs at hradix with hc
      all_goals
        rw [beq_iff_eq] at hc
        subst hc
        exact leadOf_decimal (by decide)
    · cases hradix
  · -- A decimal starts with a digit, or with a point before a digit.
    unfold decimalLengths at hn
    simp only at hn
    split_ifs at hn with hwhole hpoint
    · rw [Bool.and_eq_true, bne_iff_ne, beq_iff_eq.1 hwhole] at hpoint
      cases s with
      | nil => simp [nextIs] at hpoint
      | cons c r =>
        have hc : oneOf "." c = true := by simpa [nextIs] using hpoint.1
        have hr := runLength_pos hpoint.2
        simp only [List.drop_zero, List.drop_succ_cons] at hr
        simp [leadOf, startsName_of_point hc, hc, hr]
    · simp at hn
    all_goals
      have hs := runLength_pos (by simpa using hwhole)
      cases s with
      | nil => simp [nextIs] at hs
      | cons c r => exact leadOf_decimal (by simpa [nextIs] using hs)

theorem leadOf_string? {s k u : Text} (h : string? s = some (k, u)) : leadOf s = .string := by
  unfold string? at h
  split at h
  · rename_i c t
    split_ifs at h with hc
    have hquote : c = (0x22 : CodePoint) ∨ c = (0x27 : CodePoint) := by
      rcases Bool.or_eq_true_iff.1 hc with hc | hc
      · exact Or.inl (Fin.ext (beq_iff_eq.1 hc))
      · exact Or.inr (Fin.ext (beq_iff_eq.1 hc))
    rcases hquote with rfl | rfl
    · exact leadOf_of_head (by decide) (by decide)
    · exact leadOf_of_head (by decide) (by decide)
  · cases h

theorem leadOf_unary? {s u : Text} {op : UnaryOp} (h : unary? s = some (op, u)) :
    leadOf s = .sign := by
  obtain ⟨choice, hmem, -, hfound⟩ := firstOf_eq_some h
  fin_cases hmem
  · exact leadOf_symbol? hfound (by decide)
  · exact leadOf_symbol? hfound (by decide)
  · exact leadOf_symbol? (Option.filter_eq_some_iff.1 hfound).1 (by decide)
  · exact leadOf_symbol? (Option.filter_eq_some_iff.1 hfound).1 (by decide)
  · rw [leadOf_word? (by decide) (by decide) hfound]
    decide
  · rw [leadOf_word? (by decide) (by decide) hfound]
    decide

/-! ## What follows an operand -/

/-- The characters of operators other than signs, slashes and the negation. -/
def operatorChars : String := "=>?|&*^%<"

/-- How loosely operators bind that consist of such characters. -/
def loosenessTable : List (String × Nat) :=
  [("=>", 1), ("??", 12), ("&&", 13), ("||", 14), ("?", 15)] ++
    assignOps.map (fun op => (op.symbol, 2)) ++
    BinaryOp.all.map fun op => (op.symbol, 12 - op.level)

/-- How loosely an operator binds. -/
def loosenessOfRun (run : Text) : Nat :=
  ((loosenessTable.find? fun x => Text.ofString x.1 == run).map Prod.snd).getD 0

/-- How loosely a token binds that its first code point tells. -/
def loosenessOfHead (c : CodePoint) : Nat :=
  if oneOf ")]\x7d;" c then 18
  else if oneOf "," c then 17
  else if oneOf ":" c then 16
  else if oneOf "!" c then 8
  else 0

/-- How loosely the token at the start of a text binds the operand before it: accesses and calls
with 0, arrows with 1, assignments with 2, the power with 3, the other operators from the tightest
with 4 to the loosest with 11, `??` with 12, `&&` with 13, `||` with 14, a question mark with 15, a
colon with 16, a comma with 17, and with 18 what ends every expression. -/
def loosenessOf : Text → Nat
  | [] => 18
  | c :: r =>
    if startsName c then 12 - BinaryOp.within.level
    else if oneOf "+-/" c then
      (if nextIs (oneOf "=") r then 2
        else if oneOf "/" c then 12 - BinaryOp.div.level else 12 - BinaryOp.add.level)
    else if oneOf "?" c && nextIs (oneOf ".") r && !nextIs CodePoint.isDecimal (r.drop 1) then 0
    else if oneOf operatorChars c then loosenessOfRun ((c :: r).takeWhile (oneOf operatorChars))
    else loosenessOfHead c

/-- How loosely the next token binds the operand before it. -/
def looseness (s : Text) : Nat := loosenessOf (skip s)

theorem head_of_afterGap? {c : CodePoint} {r t : Text} (h : afterGap? (c :: r) = some t) :
    isSpace c = true ∨ oneOf "/" c = true := by
  unfold afterGap? at h
  simp only at h
  split_ifs at h with hspace hslash
  · exact Or.inl hspace
  · refine Or.inr ?_
    rw [beq_iff_eq] at hslash
    subst hslash
    decide

/-- Where an operand starts, no character of an operator comes first, be it before or after white
space and comments. -/
theorem exists_of_lead {u : Text} (h : lead u ≠ .none) :
    ∃ c r, u = c :: r ∧ oneOf operatorChars c = false ∧
      (oneOf "." c = true → nextIs CodePoint.isDecimal r = true) := by
  cases hgap : afterGap? u with
  | none =>
    have hu : u = skip u := Gap.eq_skip .refl hgap
    rw [lead, ← hu] at h
    cases u with
    | nil => exact absurd rfl h
    | cons c r =>
      refine ⟨c, r, rfl, ?_, decimal_of_lead h⟩
      rw [Bool.eq_false_iff]
      intro hc
      have := of_oneOf hc (oneOf barred) (by decide)
      rw [head_of_lead h] at this
      cases this
  | some t =>
    cases u with
    | nil => cases hgap
    | cons c r =>
      refine ⟨c, r, rfl, ?_, fun hc => ?_⟩
      · rw [Bool.eq_false_iff]
        intro hc
        have := of_oneOf hc (fun c => !isSpace c && !oneOf "/" c) (by decide)
        rcases head_of_afterGap? hgap with hd | hd <;> simp [hd] at this
      · have := of_oneOf hc (fun c => !isSpace c && !oneOf "/" c) (by decide)
        rcases head_of_afterGap? hgap with hd | hd <;> simp [hd] at this

theorem loosenessOf_operator {w u : Text} (hw : w.all (oneOf operatorChars) = true) (hne : w ≠ [])
    (hu : lead u ≠ .none) : loosenessOf (w ++ u) = loosenessOfRun w := by
  obtain ⟨d, r, rfl, hd, hdot⟩ := exists_of_lead hu
  have hrun : (w ++ d :: r).takeWhile (oneOf operatorChars) = w := by
    rw [List.takeWhile_append_of_pos (List.all_eq_true.1 hw), List.takeWhile_cons_of_neg, List.append_nil]
    simp [hd]
  cases w with
  | nil => exact absurd rfl hne
  | cons c w =>
    have hc : oneOf operatorChars c = true := List.all_eq_true.1 hw c List.mem_cons_self
    have hhead := of_oneOf hc (fun c => !startsName c && !oneOf "+-/" c) (by decide)
    simp only [Bool.and_eq_true, Bool.not_eq_true'] at hhead
    have hpoint : (oneOf "?" c && nextIs (oneOf ".") (w ++ d :: r) &&
        !nextIs CodePoint.isDecimal ((w ++ d :: r).drop 1)) = false := by
      cases w with
      | nil =>
        cases hd : oneOf "." d with
        | false => simp [nextIs, hd]
        | true => simp [hdot hd]
      | cons e w =>
        have he : oneOf operatorChars e = true :=
          List.all_eq_true.1 hw e (List.mem_cons_of_mem _ List.mem_cons_self)
        have := of_oneOf he (fun c => !oneOf "." c) (by decide)
        simp only [Bool.not_eq_true'] at this
        simp [nextIs, this]
    rw [List.cons_append] at hrun ⊢
    simp only [loosenessOf, hhead, hpoint, hc, hrun, if_true, if_false, Bool.false_eq_true]

section

variable {t v : Text}

theorem looseness_operator {w : String} (h : Reads true (symbol? w) t v)
    (hw : (Text.ofString w).all (oneOf operatorChars) = true) (hne : w ≠ "")
    (hv : lead v ≠ .none) : looseness t = loosenessOfRun (Text.ofString w) := by
  rw [looseness, symbol?_eq_some.1 (reads_true.1 h)]
  exact loosenessOf_operator hw (ofString_ne_nil hne) hv

theorem loosenessOf_head {c : CodePoint} {r : Text}
    (hc : (!startsName c && !oneOf "+-/?" c && !oneOf operatorChars c) = true) :
    loosenessOf (c :: r) = loosenessOfHead c := by
  simp only [Bool.and_eq_true, Bool.not_eq_true'] at hc
  have hsign : oneOf "+-/" c = false := by
    rw [Bool.eq_false_iff]
    intro h
    have := of_oneOf h (oneOf "+-/?") (by decide)
    rw [hc.1.2] at this
    cases this
  have hquestion : oneOf "?" c = false := by
    rw [Bool.eq_false_iff]
    intro h
    have := of_oneOf h (oneOf "+-/?") (by decide)
    rw [hc.1.2] at this
    cases this
  simp [loosenessOf, hc, hsign, hquestion]

theorem looseness_mark {w : String} (h : Reads true (symbol? w) t v) {n : Nat}
    (hw : (Text.ofString w).head?.any fun c => !startsName c && !oneOf "+-/?" c &&
      !oneOf operatorChars c && decide (loosenessOfHead c = n)) : looseness t = n := by
  rw [looseness, symbol?_eq_some.1 (reads_true.1 h)]
  cases hcs : Text.ofString w with
  | nil => simp [hcs] at hw
  | cons c cs =>
    rw [hcs, List.head?_cons, Option.any_some, Bool.and_eq_true, decide_eq_true_eq] at hw
    rw [List.cons_append, loosenessOf_head hw.1, hw.2]

theorem looseness_end (h : At true t []) : looseness t = 18 := by
  rw [looseness, ← at_true.1 h, loosenessOf]

theorem not_nextIs_of_lead {p : CodePoint → Bool} {u : Text} (h : lead u ≠ .none)
    (hp : ∀ c, p c = true → oneOf operatorChars c = true) : nextIs p u = false := by
  obtain ⟨c, r, rfl, hc, -⟩ := exists_of_lead h
  rw [Bool.eq_false_iff]
  intro hnext
  have := hp c (by simpa [nextIs] using hnext)
  rw [hc] at this
  cases this

theorem loosenessOf_sign {c : CodePoint} {r : Text}
    (hc : (!startsName c && oneOf "+-/" c) = true) (hr : nextIs (oneOf "=") r = false) :
    loosenessOf (c :: r) =
      if oneOf "/" c then 12 - BinaryOp.div.level else 12 - BinaryOp.add.level := by
  simp only [Bool.and_eq_true, Bool.not_eq_true'] at hc
  simp [loosenessOf, hc, hr]

theorem looseness_binary {k : Nat} {op : BinaryOp} (h : Reads true (operator? k) t (op, v))
    (hv : lead v ≠ .none) : looseness t = 12 - k := by
  obtain ⟨hbinary, rfl⟩ := operator?_eq_some.1 (reads_true.1 h)
  rw [looseness, binary?_spelled hbinary]
  have hequals : nextIs (oneOf "=") v = false :=
    not_nextIs_of_lead hv fun c hc => of_oneOf hc (oneOf operatorChars) (by decide)
  cases op with
  | instanceOf | within => rfl
  | looseNe | strictNe => rfl
  | add | sub | div => exact loosenessOf_sign (by decide) hequals
  | _ => exact loosenessOf_operator (by decide) (by decide) hv

theorem looseness_assign {op : AssignOp} (h : Reads true assign? t (op, v))
    (hv : lead v ≠ .none) : looseness t = 2 := by
  obtain ⟨hop, hspelled⟩ := assign?_spelled (reads_true.1 h)
  rw [looseness, hspelled]
  fin_cases hop
  all_goals first
    | exact loosenessOf_operator (by decide) (by decide) hv
    | rfl

theorem looseness_optional {q : Text} (h : Reads true (symbol? "?.") t q)
    (hq : nextIs CodePoint.isDecimal q = false) : looseness t = 0 := by
  rw [looseness, symbol?_eq_some.1 (reads_true.1 h)]
  show loosenessOf (CodePoint.ofChar '?' :: CodePoint.ofChar '.' :: q) = 0
  have hhead : startsName (CodePoint.ofChar '?') = false ∧
      oneOf "+-/" (CodePoint.ofChar '?') = false ∧ oneOf "?" (CodePoint.ofChar '?') = true ∧
      nextIs (oneOf ".") (CodePoint.ofChar '.' :: q) = true := ⟨by decide, by decide, by decide, rfl⟩
  simp [loosenessOf, hhead, hq]

/-- A digit that comes next is the start of the next token. -/
theorem lead_of_decimal {q : Text} (h : nextIs CodePoint.isDecimal q = true) :
    lead q = .number := by
  cases q with
  | nil => cases h
  | cons c r =>
    have hc : c.isDecimal = true := by simpa [nextIs] using h
    have hgap : afterGap? (c :: r) = none := by
      rw [Option.eq_none_iff_forall_ne_some]
      intro t ht
      rcases head_of_afterGap? ht with hspace | hslash
      · have := of_isSpace hspace (fun c => !c.isDecimal) (by decide)
        simp [hc] at this
      · have := of_oneOf hslash (fun c => !c.isDecimal) (by decide)
        simp [hc] at this
    rw [lead, ← Gap.eq_skip .refl hgap]
    exact leadOf_decimal hc

end

end Token

end GuardedText
