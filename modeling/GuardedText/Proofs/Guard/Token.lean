import GuardedText.Guard.Token
import Mathlib.Logic.Relation
import Mathlib.Tactic.SplitIfs
import Mathlib.Tactic.FinCases

/-
  Where tokens stand and what they leave. White space and comments may be left out before a token,
  as many as one likes (`Token.Gap`), and `Token.stops` lists just the places that this reaches.
  A token takes at least one code point, and what follows it is the rest of the text
  (`Token.Rest`).
-/

namespace GuardedText.Token

/-! ## What is left of a text -/

/-- `u` is what is left of `s` after at least one code point. -/
structure Rest (s u : Text) : Prop where
  suffix : u <:+ s
  shorter : u.length < s.length

theorem Rest.trans {s t u : Text} (h : Rest s t) (k : Rest t u) : Rest s u :=
  ⟨k.suffix.trans h.suffix, Nat.lt_trans k.shorter h.shorter⟩

theorem rest_append {lead : Text} (h : lead ≠ []) (u : Text) : Rest (lead ++ u) u := by
  refine ⟨List.suffix_append lead u, ?_⟩
  have := List.length_pos_iff.2 h
  simp only [List.length_append]
  omega

theorem rest_drop {s : Text} {n : Nat} (hs : s ≠ []) (hn : 0 < n) : Rest s (s.drop n) := by
  refine ⟨List.drop_suffix n s, ?_⟩
  have := List.length_pos_iff.2 hs
  rw [List.length_drop]
  omega

/-! ## Characters -/

/-- What holds of all characters of `w` holds of each. -/
theorem of_oneOf {w : String} {c : CodePoint} (hc : oneOf w c = true) (p : CodePoint → Bool)
    (h : (Text.ofString w).all p = true) : p c = true :=
  List.all_eq_true.1 h c (List.contains_iff_mem.1 hc)

theorem oneOf_eq_false {w : String} {p : CodePoint → Bool} {c : CodePoint}
    (hw : (Text.ofString w).all p = true) (hc : p c = false) : oneOf w c = false := by
  rw [Bool.eq_false_iff]
  intro h
  rw [of_oneOf h p hw] at hc
  cases hc

/-- All white space. -/
def spaces : List Nat :=
  [9, 10, 11, 12, 13, 0x1C, 0x1D, 0x1E, 0x1F, 0x20, 0x85, 0xA0, 0x1680, 0x2000, 0x2001, 0x2002,
    0x2003, 0x2004, 0x2005, 0x2006, 0x2007, 0x2008, 0x2009, 0x200A, 0x2028, 0x2029, 0x202F, 0x205F,
    0x3000, 0xFEFF]

/-- What holds of all white space holds of each. -/
theorem of_isSpace {c : CodePoint} (hc : isSpace c = true) (p : CodePoint → Bool)
    (h : (spaces.all fun n => p (Fin.ofNat 0x110000 n)) = true) : p c = true := by
  have hmem : c.val ∈ spaces := by
    simp only [isSpace, CodePoint.isBlank, Bool.or_eq_true, Bool.and_eq_true, decide_eq_true_eq,
      beq_iff_eq] at hc
    simp only [spaces, List.mem_cons, List.not_mem_nil, or_false]
    omega
  have hp := List.all_eq_true.1 h c.val hmem
  rwa [show Fin.ofNat 0x110000 c.val = c from Fin.ofNat_val_eq_self c] at hp

/-! ## Gaps -/

theorem suffix_of_afterBlockEnd? {s t : Text} (h : afterBlockEnd? s = some t) : t <:+ s := by
  fun_induction afterBlockEnd? s with
  | case1 => cases h
  | case2 c s _ =>
    cases h
    exact (List.drop_suffix 1 s).trans (List.suffix_cons c s)
  | case3 c s _ ih => exact (ih h).trans (List.suffix_cons c s)

theorem rest_afterGap? {s t : Text} (h : afterGap? s = some t) : Rest s t := by
  have inside {c : CodePoint} {r t : Text} (hr : t <:+ r) : Rest (c :: r) t :=
    ⟨hr.trans (List.suffix_cons c r), Nat.lt_succ_of_le hr.length_le⟩
  unfold afterGap? at h
  split at h
  · cases h
  · rename_i c r
    split_ifs at h
    · cases h
      exact inside (List.dropWhile_suffix _)
    · split at h
      · rename_i d r
        split_ifs at h
        · exact inside ((suffix_of_afterBlockEnd? h).trans (List.suffix_cons d r))
        · cases h
          exact inside ((List.dropWhile_suffix _).trans (List.suffix_cons d r))
      · cases h

/-- Some white space and comments lead from `s` to `t`. -/
def Gap : Text → Text → Prop := Relation.ReflTransGen fun s t => afterGap? s = some t

theorem Gap.suffix {s t : Text} (h : Gap s t) : t <:+ s := by
  induction h with
  | refl => exact List.suffix_refl s
  | tail _ h ih => exact (rest_afterGap? h).suffix.trans ih

theorem Gap.eq_of_stuck {s t : Text} (h : Gap s t) (hs : afterGap? s = none) : t = s := by
  obtain h | ⟨r, hr, -⟩ := h.cases_head
  · exact h.symm
  · rw [hs] at hr
    cases hr

theorem mem_stopsIn {fuel : Nat} {s t : Text} (h : s.length ≤ fuel) :
    t ∈ stopsIn fuel s ↔ Gap s t := by
  induction fuel generalizing s with
  | zero =>
    obtain rfl : s = [] := List.length_eq_zero_iff.1 (Nat.le_zero.1 h)
    rw [stopsIn, List.mem_singleton]
    refine ⟨fun h => h ▸ .refl, fun h => ?_⟩
    exact List.suffix_nil.1 h.suffix
  | succ fuel ih =>
    rw [stopsIn]
    cases hgap : afterGap? s with
    | none =>
      rw [List.mem_singleton]
      exact ⟨fun h => h ▸ .refl, fun h => h.eq_of_stuck hgap⟩
    | some r =>
      have hr : r.length ≤ fuel := by
        have := (rest_afterGap? hgap).shorter
        omega
      rw [List.mem_append, List.mem_singleton, ih hr]
      refine ⟨fun h => ?_, fun h => ?_⟩
      · rcases h with h | rfl
        · exact .head hgap h
        · exact .refl
      · obtain h | ⟨q, hq, h⟩ := h.cases_head
        · exact Or.inr h.symm
        · rw [hgap] at hq
          cases hq
          exact Or.inl h

@[simp]
theorem mem_stops {s t : Text} : t ∈ stops s ↔ Gap s t := mem_stopsIn (Nat.le_refl _)

theorem skipGaps_spec {fuel : Nat} {s : Text} (h : s.length ≤ fuel) :
    Gap s (skipGaps fuel s) ∧ afterGap? (skipGaps fuel s) = none := by
  induction fuel generalizing s with
  | zero =>
    obtain rfl : s = [] := List.length_eq_zero_iff.1 (Nat.le_zero.1 h)
    exact ⟨.refl, rfl⟩
  | succ fuel ih =>
    rw [skipGaps]
    cases hgap : afterGap? s with
    | none => exact ⟨.refl, hgap⟩
    | some r =>
      have hr : r.length ≤ fuel := by
        have := (rest_afterGap? hgap).shorter
        omega
      exact ⟨.head hgap (ih hr).1, (ih hr).2⟩

theorem gap_skip (s : Text) : Gap s (skip s) := (skipGaps_spec (Nat.le_refl _)).1

@[simp]
theorem afterGap?_skip (s : Text) : afterGap? (skip s) = none := (skipGaps_spec (Nat.le_refl _)).2

/-- The place after all white space and comments is the only one at which none starts. -/
theorem Gap.eq_skip {s t : Text} (h : Gap s t) (ht : afterGap? t = none) : t = skip s := by
  -- Gaps are read in one way only, so one of the two ways out of `s` goes on with the other.
  have unique : Relator.RightUnique fun s t : Text => afterGap? s = some t := by
    intro s t u ht hu
    exact Option.some.inj (ht.symm.trans hu)
  rcases Relation.ReflTransGen.total_of_right_unique unique h (gap_skip s) with h | h
  · exact (Gap.eq_of_stuck h ht).symm
  · exact Gap.eq_of_stuck h (afterGap?_skip s)

/-! ## What tokens leave -/

theorem symbol?_eq_some {w : String} {s u : Text} :
    symbol? w s = some u ↔ s = Text.ofString w ++ u := Text.after?_eq_some_iff

/-- No symbol is found at a code point with which it does not start. -/
theorem symbol?_eq_none {w : String} {p : CodePoint → Bool} {c : CodePoint}
    (hw : (Text.ofString w).head?.any p = true) (hc : p c = false) (s : Text) :
    symbol? w (c :: s) = none := by
  rw [Option.eq_none_iff_forall_ne_some]
  intro u hu
  rw [symbol?_eq_some] at hu
  cases hcs : Text.ofString w with
  | nil => simp [hcs] at hw
  | cons d cs =>
    rw [hcs] at hu hw
    obtain ⟨rfl, -⟩ := List.cons.inj hu
    simp [hc] at hw

theorem ofString_ne_nil {w : String} (h : w ≠ "") : Text.ofString w ≠ [] := by
  simpa [Text.ofString] using h

theorem rest_symbol? {w : String} (hw : w ≠ "") {s u : Text} (h : symbol? w s = some u) :
    Rest s u := by
  rw [symbol?_eq_some.1 h]
  exact rest_append (ofString_ne_nil hw) u

theorem symbolNot?_eq_some {w : String} {p : CodePoint → Bool} {s u : Text} :
    symbolNot? w p s = some u ↔ s = Text.ofString w ++ u ∧ nextIs p u = false := by
  simp [symbolNot?, Option.filter_eq_some_iff, symbol?_eq_some]

theorem rest_symbolNot? {w : String} (hw : w ≠ "") {p : CodePoint → Bool} {s u : Text}
    (h : symbolNot? w p s = some u) : Rest s u := by
  rw [(symbolNot?_eq_some.1 h).1]
  exact rest_append (ofString_ne_nil hw) u

theorem firstOf_eq_some {α : Type} {choices : List (α × (Text → Option Text))} {s u : Text} {a : α}
    (h : firstOf choices s = some (a, u)) : ∃ choice ∈ choices, choice.1 = a ∧ choice.2 s = some u := by
  obtain ⟨choice, hmem, hfound⟩ := List.exists_of_findSome?_eq_some h
  obtain ⟨v, hv, heq⟩ := Option.map_eq_some_iff.1 hfound
  cases heq
  exact ⟨choice, hmem, rfl, hv⟩

theorem anyName?_eq_some {s n u : Text} (h : anyName? s = some (n, u)) :
    ∃ c r, s = c :: r ∧ startsName c = true ∧ n = s.takeWhile CodePoint.isWordOrDollar ∧
      u = s.dropWhile CodePoint.isWordOrDollar := by
  unfold anyName? at h
  split at h
  · cases h
  · rename_i c r
    split_ifs at h with hc
    cases h
    exact ⟨c, r, rfl, hc, rfl, rfl⟩

theorem isWordOrDollar_of_startsName {c : CodePoint} (h : startsName c = true) :
    c.isWordOrDollar = true := by
  unfold startsName at h
  unfold CodePoint.isWordOrDollar
  rcases Bool.or_eq_true_iff.1 h with h | h
  · rw [h, Bool.true_or]
  · rw [(Bool.and_eq_true_iff.1 h).1, Bool.or_true]

theorem rest_anyName? {s n u : Text} (h : anyName? s = some (n, u)) : Rest s u := by
  obtain ⟨c, r, rfl, hc, -, rfl⟩ := anyName?_eq_some h
  rw [List.dropWhile_cons_of_pos (isWordOrDollar_of_startsName hc)]
  exact ⟨(List.dropWhile_suffix _).trans (List.suffix_cons c r),
    Nat.lt_succ_of_le (List.dropWhile_suffix _).length_le⟩

theorem rest_name? {s n u : Text} (h : name? s = some (n, u)) : Rest s u :=
  rest_anyName? (Option.filter_eq_some_iff.1 h).1

theorem decimalLengths_pos {s : Text} {n : Nat} (h : n ∈ decimalLengths s) : s ≠ [] ∧ 0 < n := by
  refine ⟨?_, ?_⟩
  · rintro rfl
    simp [decimalLengths, runLength, nextIs] at h
  · simp only [decimalLengths] at h
    split_ifs at h with hwhole hpoint hpoint <;> simp at h hwhole <;> omega

theorem radixLength?_pos {s : Text} {n : Nat} (h : radixLength? s = some n) : s ≠ [] ∧ 0 < n := by
  unfold radixLength? at h
  split at h
  · refine ⟨List.cons_ne_nil _ _, ?_⟩
    simp only at h
    split_ifs at h <;> cases h <;> omega
  · cases h

theorem rest_number? {s k u : Text} (h : number? s = some (k, u)) : Rest s u := by
  obtain ⟨n, hn, hfound⟩ := List.exists_of_findSome?_eq_some h
  split_ifs at hfound
  cases hfound
  have hpos : s ≠ [] ∧ 0 < n := by
    rcases List.mem_append.1 hn with hn | hn
    · exact radixLength?_pos (Option.mem_toList.1 hn)
    · exact decimalLengths_pos hn
  exact rest_drop hpos.1 hpos.2

theorem rest_string? {s k u : Text} (h : string? s = some (k, u)) : Rest s u := by
  unfold string? at h
  split at h
  · split_ifs at h
    obtain ⟨n, -, heq⟩ := Option.map_eq_some_iff.1 h
    cases heq
    exact rest_drop (List.cons_ne_nil _ _) (Nat.succ_pos _)
  · cases h

/-! ## Operators and their spelling -/

/-- `find` finds nothing but the word `w`. -/
def Finds (w : String) (find : Text → Option Text) : Prop :=
  ∀ s u, find s = some u → s = Text.ofString w ++ u

theorem finds_symbol? (w : String) : Finds w (symbol? w) := fun _ _ => symbol?_eq_some.1

theorem finds_symbolNot? (w : String) (p : CodePoint → Bool) : Finds w (symbolNot? w p) :=
  fun _ _ h => (symbolNot?_eq_some.1 h).1

/-- The word that spells a constant. -/
def wordOf : Literal → String
  | .bool true => "true"
  | .bool false => "false"
  | _ => "null"

theorem constant?_spelled {s u : Text} {value : Literal} (h : constant? s = some (value, u)) :
    word? (wordOf value) s = some u := by
  obtain ⟨choice, hmem, rfl, hfound⟩ := firstOf_eq_some h
  fin_cases hmem <;> exact hfound

theorem unary?_spelled {s u : Text} {op : UnaryOp} (h : unary? s = some (op, u)) :
    s = Text.ofString op.symbol ++ u := by
  obtain ⟨choice, hmem, rfl, hfound⟩ := firstOf_eq_some h
  refine (?_ : Finds choice.1.symbol choice.2) s u hfound
  fin_cases hmem
  · exact finds_symbol? _
  · exact finds_symbol? _
  all_goals exact finds_symbolNot? _ _

theorem binary?_spelled {s u : Text} {op : BinaryOp} (h : binary? s = some (op, u)) :
    s = Text.ofString op.symbol ++ u := by
  obtain ⟨choice, hmem, rfl, hfound⟩ := firstOf_eq_some h
  refine (?_ : Finds choice.1.symbol choice.2) s u hfound
  fin_cases hmem
  all_goals first
    | exact finds_symbol? _
    | exact finds_symbolNot? _ _

theorem assign?_spelled {s u : Text} {op : AssignOp} (h : assign? s = some (op, u)) :
    op ∈ assignOps ∧ s = Text.ofString op.symbol ++ u := by
  obtain ⟨choice, hmem, rfl, hfound⟩ := firstOf_eq_some h
  obtain ⟨op, hop, rfl⟩ := List.mem_map.1 hmem
  exact ⟨hop, finds_symbolNot? _ _ s u hfound⟩

theorem operator?_eq_some {level : Nat} {s u : Text} {op : BinaryOp} :
    operator? level s = some (op, u) ↔ binary? s = some (op, u) ∧ op.level = level := by
  simp [operator?, Option.filter_eq_some_iff]

theorem level_lt_of_binary? {s u : Text} {op : BinaryOp} (h : binary? s = some (op, u)) :
    op.level < BinaryOp.pow.level := by
  obtain ⟨choice, hmem, rfl, -⟩ := firstOf_eq_some h
  fin_cases hmem <;> decide

theorem rest_constant? {s u : Text} {value : Literal} (h : constant? s = some (value, u)) :
    Rest s u := by
  refine rest_symbolNot? ?_ (constant?_spelled h)
  unfold wordOf
  split <;> decide

theorem rest_unary? {s u : Text} {op : UnaryOp} (h : unary? s = some (op, u)) : Rest s u := by
  rw [unary?_spelled h]
  exact rest_append (ofString_ne_nil (by cases op <;> decide)) u

theorem rest_operator? {level : Nat} {s u : Text} {op : BinaryOp}
    (h : operator? level s = some (op, u)) : Rest s u := by
  rw [binary?_spelled (operator?_eq_some.1 h).1]
  exact rest_append (ofString_ne_nil (by cases op <;> decide)) u

theorem rest_assign? {s u : Text} {op : AssignOp} (h : assign? s = some (op, u)) : Rest s u := by
  obtain ⟨hop, rfl⟩ := assign?_spelled h
  refine rest_append (ofString_ne_nil ?_) u
  fin_cases hop <;> decide

end GuardedText.Token
