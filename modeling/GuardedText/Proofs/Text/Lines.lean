import Mathlib.Order.Defs.LinearOrder
import Mathlib.Data.Nat.Init
import GuardedText.Proofs.Cut.Union
import GuardedText.Text.Lines

/-
  The lines of a text, each with its terminator, as ranges of offsets (`Text.lineRanges`). A line ends
  after the last code point of a line terminator (`Text.BreakAt`, `Text.mem_lineEnds`). The lines
  follow one another (`Text.lineRanges_ordered`), hold every offset (`Text.exists_line`) and have
  breaks at their ends only (`Text.isLine_of_mem`).
-/

namespace GuardedText.Text

/-! ## Breaks -/

/-- The last code point of a line terminator stands at an offset: LF, LS, PS, or CR that no LF
    follows. -/
def BreakAt (s : Text) (k : Nat) : Prop :=
  ∃ c, s[k]? = some c ∧ c.isLineEnd = true ∧
    ∀ d, s[k + 1]? = some d → ¬ (c.val = 0x0D ∧ d.val = 0x0A)

theorem BreakAt.lt_length {s : Text} {k : Nat} (h : BreakAt s k) : k < s.length := by
  obtain ⟨c, hc, -⟩ := h
  exact (List.getElem?_eq_some_iff.1 hc).1

theorem breakAt_succ {c : CodePoint} {s : Text} {k : Nat} :
    BreakAt (c :: s) (k + 1) ↔ BreakAt s k := Iff.rfl

theorem breakAt_zero {c : CodePoint} {s : Text} : BreakAt (c :: s) 0 ↔
    c.isLineEnd = true ∧ ∀ d, s[0]? = some d → ¬ (c.val = 0x0D ∧ d.val = 0x0A) := by
  simp [BreakAt]

/-- The offset after a break, seen from the first code point. -/
theorem exists_break_cons {c : CodePoint} {s : Text} {offset b : Nat} :
    (∃ k, b = offset + k + 1 ∧ BreakAt (c :: s) k) ↔
      (b = offset + 1 ∧ BreakAt (c :: s) 0) ∨ ∃ k, b = offset + 1 + k + 1 ∧ BreakAt s k := by
  rw [← Nat.or_exists_add_one]
  simp only [Nat.add_zero, breakAt_succ, Nat.add_assoc, Nat.add_comm 1]

/-- Lines end after breaks. -/
theorem mem_lineEnds (s : Text) (offset b : Nat) :
    b ∈ lineEnds offset s ↔ ∃ k, b = offset + k + 1 ∧ BreakAt s k := by
  induction offset, s using lineEnds.induct with
  | case1 offset => simp [lineEnds, BreakAt]
  | case2 offset c hend =>
    rw [exists_break_cons, lineEnds, if_pos hend, breakAt_zero]
    simp [hend, BreakAt]
  | case3 offset c hend =>
    rw [exists_break_cons, lineEnds, if_neg hend, breakAt_zero]
    simp [hend, BreakAt]
  | case4 offset c d s hend hpair ih =>
    rw [Bool.and_eq_true, beq_iff_eq, beq_iff_eq] at hpair
    have hfeed : BreakAt (d :: s) 0 := by
      refine breakAt_zero.2 ⟨by simp [CodePoint.isLineEnd, hpair.2], ?_⟩
      rw [hpair.2]
      omega
    have hreturn : ¬ BreakAt (c :: d :: s) 0 := by
      intro h
      exact (breakAt_zero.1 h).2 d rfl hpair
    rw [exists_break_cons, exists_break_cons, lineEnds, if_pos hend, if_pos (by simp [hpair]),
      List.mem_cons, ih]
    simp [hfeed, hreturn]
  | case5 offset c d s hend hpair ih =>
    have hbreak : BreakAt (c :: d :: s) 0 := by
      refine breakAt_zero.2 ⟨hend, fun e he => ?_⟩
      cases he
      simpa using hpair
    rw [exists_break_cons, lineEnds, if_pos hend, if_neg hpair, List.mem_cons, ih]
    simp [hbreak]
  | case6 offset c d s hend ih =>
    rw [exists_break_cons, lineEnds, if_neg hend, breakAt_zero, ih]
    simp [hend]

/-- The offsets at which lines end are in order. -/
theorem lineEnds_sorted (s : Text) (offset : Nat) :
    (lineEnds offset s).Pairwise (· < ·) := by
  have hlater : ∀ (s : Text) (offset : Nat), ∀ b ∈ lineEnds offset s, offset < b := by
    intro s offset b hb
    obtain ⟨k, rfl, -⟩ := (mem_lineEnds s offset b).1 hb
    omega
  induction offset, s using lineEnds.induct with
  | case1 offset => exact List.Pairwise.nil
  | case2 offset c hend => simp [lineEnds, hend]
  | case3 offset c hend => simp [lineEnds, hend]
  | case4 offset c d s hend hpair ih =>
    rw [lineEnds, if_pos hend, if_pos hpair]
    exact List.pairwise_cons.2 ⟨hlater s (offset + 2), ih⟩
  | case5 offset c d s hend hpair ih =>
    rw [lineEnds, if_pos hend, if_neg hpair]
    exact List.pairwise_cons.2 ⟨hlater (d :: s) (offset + 1), ih⟩
  | case6 offset c d s hend ih =>
    rw [lineEnds, if_neg hend]
    exact ih

/-! ## Lines -/

/-- The ranges between offsets that follow one another. -/
def rangesFrom (start stop : Nat) : List Nat → List Range
  | [] => [⟨start, stop⟩]
  | e :: es => ⟨start, e⟩ :: rangesFrom e stop es

/-- The lines of a text, each with its terminator. What follows the last terminator is a line too. -/
def lineRanges (s : Text) : List Range := rangesFrom 0 s.length (lineEnds 0 s)

section

variable {start stop : Nat} {es : List Nat} {l : Range}

/-- A range between offsets that follow one another has none of them inside. -/
theorem mem_rangesFrom (h : l ∈ rangesFrom start stop es) (hsorted : (start :: es).Pairwise (· < ·)) :
    start ≤ l.start ∧ (l.start = start ∨ l.start ∈ es) ∧
      (l.stop = stop ∨ l.stop ∈ es) ∧ ∀ e ∈ es, e ≤ l.start ∨ l.stop ≤ e := by
  induction es generalizing start with
  | nil =>
    rw [rangesFrom, List.mem_singleton] at h
    subst h
    simp
  | cons e es ih =>
    obtain ⟨hfirst, hrest⟩ := List.pairwise_cons.1 hsorted
    have hlt := hfirst e List.mem_cons_self
    rcases List.mem_cons.1 h with rfl | h
    · refine ⟨Nat.le_refl _, Or.inl rfl, Or.inr List.mem_cons_self, fun b hb => Or.inr ?_⟩
      rcases List.mem_cons.1 hb with rfl | hb
      · exact Nat.le_refl _
      · exact Nat.le_of_lt ((List.pairwise_cons.1 hrest).1 b hb)
    · obtain ⟨hle, hstart, hend, hinside⟩ := ih h hrest
      refine ⟨by omega, Or.inr (List.mem_cons.2 hstart), hend.imp_right (List.mem_cons_of_mem _), ?_⟩
      intro b hb
      rcases List.mem_cons.1 hb with rfl | hb
      · exact Or.inl hle
      · exact hinside b hb

theorem exists_rangesFrom {i : Nat} (hfrom : start ≤ i) (hto : i < stop) :
    ∃ l ∈ rangesFrom start stop es, l.Has i := by
  induction es generalizing start with
  | nil => exact ⟨_, List.mem_singleton_self _, hfrom, hto⟩
  | cons e es ih =>
    by_cases hbefore : i < e
    · exact ⟨_, List.mem_cons_self, hfrom, hbefore⟩
    · obtain ⟨l, hl, hhas⟩ := ih (Nat.le_of_not_lt hbefore)
      exact ⟨l, List.mem_cons_of_mem _ hl, hhas⟩

theorem rangesFrom_ordered (hsorted : (start :: es).Pairwise (· < ·)) :
    (rangesFrom start stop es).Pairwise fun a b => a.stop ≤ b.start := by
  induction es generalizing start with
  | nil => simp [rangesFrom]
  | cons e es ih =>
    obtain ⟨-, hrest⟩ := List.pairwise_cons.1 hsorted
    exact List.pairwise_cons.2 ⟨fun l hl => (mem_rangesFrom hl hrest).1, ih hrest⟩

end

section

variable (s : Text)

theorem starts_sorted : (0 :: lineEnds 0 s).Pairwise (· < ·) := by
  refine List.pairwise_cons.2 ⟨fun b hb => ?_, lineEnds_sorted s 0⟩
  obtain ⟨k, rfl, -⟩ := (mem_lineEnds s 0 b).1 hb
  omega

theorem lineRanges_ordered : (lineRanges s).Pairwise fun a b => a.stop ≤ b.start :=
  rangesFrom_ordered (starts_sorted s)

end

variable {s : Text} {l : Range} {i j : Nat}

theorem exists_line (hi : i < s.length) : ∃ l ∈ lineRanges s, l.Has i :=
  exists_rangesFrom (Nat.zero_le i) hi

/-- A line starts at an offset. -/
def StartsAt (s : Text) (offset : Nat) : Prop := offset = 0 ∨ ∃ k, offset = k + 1 ∧ BreakAt s k

/-- What a line is: it starts at the start of the text or after a break, it stops after a break or at
    the end of the text, and no other break stands in it. -/
structure IsLine (s : Text) (l : Range) : Prop where
  start : StartsAt s l.start
  stop : l.stop = s.length ∨ ∃ k, l.stop = k + 1 ∧ BreakAt s k
  inside : ∀ k, BreakAt s k → l.start ≤ k → l.stop ≤ k + 1

theorem isLine_of_mem (h : l ∈ lineRanges s) : IsLine s l := by
  obtain ⟨-, hstart, hstop, hinside⟩ := mem_rangesFrom h (starts_sorted s)
  have hbreak : ∀ b ∈ lineEnds 0 s, ∃ k, b = k + 1 ∧ BreakAt s k := by
    intro b hb
    obtain ⟨k, rfl, hk⟩ := (mem_lineEnds s 0 b).1 hb
    exact ⟨k, by omega, hk⟩
  refine ⟨hstart.imp_right (hbreak _), hstop.imp_right (hbreak _), fun k hk hle => ?_⟩
  have hmem := hinside (k + 1) ((mem_lineEnds s 0 _).2 ⟨k, by omega, hk⟩)
  omega

theorem IsLine.stop_le (h : IsLine s l) : l.stop ≤ s.length := by
  rcases h.stop with hstop | ⟨k, hstop, hk⟩
  · omega
  · have := hk.lt_length
    omega

/-- A line goes on to an offset if no break stands before it. -/
theorem IsLine.has_after (h : IsLine s l) (hi : l.Has i) (hij : i ≤ j) (hj : j < s.length)
    (hno : ∀ k, i ≤ k → k < j → ¬ BreakAt s k) : l.Has j := by
  have hfrom := hi.1
  have hto := hi.2
  refine ⟨by omega, ?_⟩
  rcases h.stop with hstop | ⟨k, hstop, hk⟩
  · omega
  · have hle : ¬ k < j := fun hkj => hno k (by omega) hkj hk
    omega

/-- A line begins no later than an offset if no break stands from there on. -/
theorem IsLine.has_before (h : IsLine s l) (hi : l.Has i) (hji : j ≤ i)
    (hno : ∀ k, j ≤ k → k < i → ¬ BreakAt s k) : l.Has j := by
  have hfrom := hi.1
  have hto := hi.2
  refine ⟨?_, by omega⟩
  rcases h.start with hstart | ⟨k, hstart, hk⟩
  · omega
  · have hle : ¬ j ≤ k := fun hjk => hno k hjk (by omega) hk
    omega

/-- A line that reaches past the start of a line begins there or later. -/
theorem IsLine.start_ge (h : IsLine s l) (hj : StartsAt s j) (hi : l.Has i) (hji : j ≤ i) :
    j ≤ l.start := by
  have hto := hi.2
  rcases hj with hj | ⟨k, hj, hk⟩
  · omega
  · by_cases hle : l.start ≤ k
    · have := h.inside k hk hle
      omega
    · omega

/-- A line that begins before the start of a line stops there or earlier. -/
theorem IsLine.stop_le_of_startsAt (h : IsLine s l) (hj : StartsAt s j) (hi : l.Has i)
    (hij : i < j) : l.stop ≤ j := by
  have hfrom := hi.1
  rcases hj with hj | ⟨k, hj, hk⟩
  · omega
  · have := h.inside k hk (by omega)
    omega

end GuardedText.Text
