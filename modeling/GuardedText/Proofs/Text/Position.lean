import Mathlib.Data.List.Nodup
import GuardedText.Proofs.Text.Lines

/-
  Positions of offsets. A position is that of an offset if its line counts the line terminators up to
  the offset and its column the code points since the last of them (`Position.Locates`). What
  `Position.locate` finds among the starts of the lines of a text is such a position
  (`Position.locates_locate`). An offset further on has a later position, and the line and the
  column give the offset back (`Position.locate_lossless`).
-/

namespace GuardedText.Position

/-- A position is that of an offset: its line is one more than the line terminators that end up to
    there, and its column counts from the start of that line. -/
structure Locates (s : Text) (offset : Nat) (p : Position) : Prop where
  line : ∃ breaks : List Nat, breaks.Nodup ∧
    (∀ k, k ∈ breaks ↔ k < offset ∧ Text.BreakAt s k) ∧ p.line = breaks.length + 1
  column : ∃ start ≤ offset, Text.StartsAt s start ∧
    (∀ k, Text.BreakAt s k → k < offset → k < start) ∧ p.column = (offset : Int) - start

/-- The ends of lines up to an offset. -/
def endsTo (s : Text) (offset : Nat) : List Nat :=
  (Text.lineEnds 0 s).filter fun b => decide (b ≤ offset)

theorem mem_endsTo {s : Text} {offset b : Nat} :
    b ∈ endsTo s offset ↔ ∃ k, b = k + 1 ∧ k < offset ∧ Text.BreakAt s k := by
  rw [endsTo, List.mem_filter, Text.mem_lineEnds, decide_eq_true_eq]
  constructor
  · rintro ⟨⟨k, rfl, hk⟩, hle⟩
    exact ⟨k, by omega, by omega, hk⟩
  · rintro ⟨k, rfl, hlt, hk⟩
    exact ⟨⟨k, by omega, hk⟩, hlt⟩

theorem endsTo_sorted (s : Text) (offset : Nat) :
    (0 :: endsTo s offset).Pairwise (· < ·) := by
  have h := (Text.starts_sorted s).filter fun b => decide (b ≤ offset)
  rwa [List.filter_cons, if_pos (by simp)] at h

/-- The offset at which the line of an offset starts. -/
def startOf (s : Text) (offset : Nat) : Nat :=
  (0 :: endsTo s offset).getLast (List.cons_ne_nil _ _)

theorem locate_lineStarts (s : Text) (offset : Nat) :
    locate (Text.lineStarts s) offset =
      ⟨(endsTo s offset).length + 1, (offset : Int) - startOf s offset⟩ := by
  have hbefore : (Text.lineStarts s).filter (fun b : Nat => decide ((b : Int) ≤ offset)) =
      0 :: endsTo s offset := by
    rw [Text.lineStarts, List.filter_cons, if_pos (by simp)]
    simp only [Int.ofNat_le, endsTo]
  rw [locate, hbefore, List.getLast?_eq_getLast_of_ne_nil (List.cons_ne_nil _ _)]
  rfl

theorem startOf_eq (s : Text) (offset : Nat) :
    startOf s offset = 0 ∨ ∃ k, startOf s offset = k + 1 ∧ k < offset ∧ Text.BreakAt s k :=
  (List.mem_cons.1 (List.getLast_mem (List.cons_ne_nil 0 (endsTo s offset)))).imp_right
    mem_endsTo.1

theorem startOf_le (s : Text) (offset : Nat) : startOf s offset ≤ offset := by
  rcases startOf_eq s offset with h | ⟨k, h, hlt, -⟩ <;> omega

/-- The last of some numbers in order is the greatest. -/
theorem le_getLast {l : List Nat} (hl : l.Pairwise (· < ·)) (hne : l ≠ []) {b : Nat} (hb : b ∈ l) :
    b ≤ l.getLast hne := by
  rw [← List.dropLast_append_getLast hne] at hb hl
  rcases List.mem_append.1 hb with hb | hb
  · exact Nat.le_of_lt ((List.pairwise_append.1 hl).2.2 b hb _ (List.mem_singleton_self _))
  · exact Nat.le_of_eq (List.mem_singleton.1 hb)

/-- Breaks before an offset stand before the start of its line. -/
theorem lt_startOf {s : Text} {offset k : Nat} (hk : Text.BreakAt s k) (hlt : k < offset) :
    k < startOf s offset :=
  le_getLast (endsTo_sorted s offset) (List.cons_ne_nil _ _)
    (List.mem_cons_of_mem _ (mem_endsTo.2 ⟨k, rfl, hlt, hk⟩))

/-- What is found among the starts of the lines of a text is the position of the offset. -/
theorem locates_locate (s : Text) (offset : Nat) :
    Locates s offset (locate (Text.lineStarts s) offset) := by
  have hsorted := endsTo_sorted s offset
  rw [locate_lineStarts]
  constructor
  · refine ⟨(endsTo s offset).map (· - 1), ?_, fun k => ?_, by simp⟩
    · refine List.Nodup.map_on (fun a ha b hb hab => ?_)
        ((List.pairwise_cons.1 hsorted).2.imp Nat.ne_of_lt)
      have := (List.pairwise_cons.1 hsorted).1 a ha
      have := (List.pairwise_cons.1 hsorted).1 b hb
      omega
    · rw [List.mem_map]
      constructor
      · rintro ⟨b, hb, rfl⟩
        obtain ⟨i, rfl, hi⟩ := mem_endsTo.1 hb
        exact hi
      · intro hk
        exact ⟨k + 1, mem_endsTo.2 ⟨k, rfl, hk⟩, rfl⟩
  · exact ⟨startOf s offset, startOf_le s offset,
      (startOf_eq s offset).imp_right fun ⟨k, h, _, hk⟩ => ⟨k, h, hk⟩,
      fun _ hk hlt => lt_startOf hk hlt, rfl⟩

/-! ## Offsets from positions -/

/-- The numbers up to a bound stand at the start of a list in ascending order. -/
theorem prefixed_filter_le {l : List Nat} (hl : l.Pairwise (· < ·)) (bound : Nat) :
    (l.filter fun b => decide (b ≤ bound)) <+: l := by
  induction l with
  | nil => exact List.prefix_rfl
  | cons b l ih =>
    obtain ⟨hfirst, hrest⟩ := List.pairwise_cons.1 hl
    by_cases hb : b ≤ bound
    · rw [List.filter_cons_of_pos (by simpa using hb)]
      exact List.prefix_cons_inj b |>.2 (ih hrest)
    · have hnone : (b :: l).filter (fun b => decide (b ≤ bound)) = [] := by
        refine List.filter_eq_nil_iff.2 fun a ha => ?_
        rcases List.mem_cons.1 ha with rfl | ha
        · simpa using hb
        · have := hfirst a ha
          simp only [decide_eq_true_eq]
          omega
      rw [hnone]
      exact List.nil_prefix

theorem prefixed_endsTo (s : Text) (offset : Nat) : 0 :: endsTo s offset <+: Text.lineStarts s :=
  (List.prefix_cons_inj 0).2 (prefixed_filter_le (Text.lineEnds_sorted s 0) offset)

/-- The line of an offset starts there in the list of the lines. -/
theorem lineStarts_getElem? (s : Text) (offset : Nat) :
    (Text.lineStarts s)[(endsTo s offset).length]? = some (startOf s offset) := by
  obtain ⟨later, hlater⟩ := prefixed_endsTo s offset
  rw [← hlater, List.getElem?_append_left (Nat.lt_succ_self _), startOf, List.getLast_eq_getElem]
  exact List.getElem?_eq_getElem _

/-- A position comes before another: on an earlier line, or further to the left on the same line. -/
def Before (p q : Position) : Prop := p.line < q.line ∨ p.line = q.line ∧ p.column < q.column

theorem Before.asymm {p q : Position} (h : p.Before q) : ¬ q.Before p := by
  unfold Before at h ⊢
  omega

/-- Of two offsets the one further on has the later position. -/
theorem before_of_lt (s : Text) {o o' : Nat} (h : o < o') :
    (locate (Text.lineStarts s) o).Before (locate (Text.lineStarts s) o') := by
  have hmore : (endsTo s o).Sublist (endsTo s o') :=
    List.monotone_filter_right _ fun b hb => by
      simp only [decide_eq_true_eq] at hb ⊢
      omega
  rw [locate_lineStarts, locate_lineStarts]
  rcases Nat.lt_or_eq_of_le hmore.length_le with hlt | heq
  · exact .inl (by simpa using hlt)
  · -- No line ends between the offsets, so both columns count from the same start.
    have hstart : startOf s o = startOf s o' := by simp only [startOf, hmore.eq_of_length heq]
    refine .inr ⟨congrArg (fun n : Nat => (n : Int) + 1) heq, ?_⟩
    dsimp only
    omega

/-- Positions of offsets go up with the offsets, and the start of the line and the column give the
offset back. -/
theorem locate_lossless (s : Text) :
    (Text.lineStarts s).head? = some 0 ∧ (Text.lineStarts s).Pairwise (· < ·) ∧
      (∀ o : Nat, let p := locate (Text.lineStarts s) o
        Locates s o p ∧ ∃ start, (Text.lineStarts s)[(p.line - 1).toNat]? = some start ∧
          start + p.column = o ∧ ∀ k, Text.BreakAt s k → ¬ (start < k + 1 ∧ k + 1 ≤ o)) ∧
      ∀ o o' : Nat, o < o' ↔
        (locate (Text.lineStarts s) o).Before (locate (Text.lineStarts s) o') := by
  refine ⟨rfl, Text.starts_sorted s, fun o => ?_, fun o o' => ⟨before_of_lt s, fun h => ?_⟩⟩
  · refine ⟨locates_locate s o, startOf s o, ?_, ?_, fun k hk hin => ?_⟩
    · rw [locate_lineStarts]
      simpa using lineStarts_getElem? s o
    · rw [locate_lineStarts]
      dsimp only
      omega
    · exact Nat.not_le.2 hin.1 (lt_startOf hk hin.2)
  · rcases Nat.lt_trichotomy o o' with hlt | rfl | hgt
    · exact hlt
    · exact absurd h h.asymm
    · exact absurd h (before_of_lt s hgt).asymm

/-- Between CR and LF the line has not ended. -/
example : locate (Text.lineStarts "a\r\nb") 2 = ⟨1, 2⟩ ∧
    locate (Text.lineStarts "a\r\nb") 3 = ⟨2, 0⟩ := by
  decide

end GuardedText.Position
