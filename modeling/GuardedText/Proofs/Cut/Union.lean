import GuardedText.Cut.Basic

/-
  Cuts are a union of ranges. Adding ranges keeps the cuts apart, in order and not even touching
  (`Cuts.Apart`), and changes no cut but the last one (`Cuts.closed_foldl_add`). When no range
  starts before the cut that is last at its turn (`Cuts.Onward`), what is cut is what was cut before
  or lies in a new range (`Cuts.has_foldl_add`). All this of ranges added one after the other to no
  cuts: `Cuts.ofRanges_slices`.
-/

namespace GuardedText

/-- An offset lies in a range. -/
def Range.Has (r : Range) (offset : Nat) : Prop := r.start ≤ offset ∧ offset < r.stop

/-- Ranges that follow one another. -/
def Follow (ranges : List Range) : Prop :=
  ranges.Pairwise (fun a b => a.stop ≤ b.start) ∧ ∀ r ∈ ranges, r.start ≤ r.stop

namespace Follow

variable {r before after : Range} {ranges inner : List Range}

theorem cons (hr : r.start ≤ r.stop) (hnext : ∀ s ∈ ranges, r.stop ≤ s.start)
    (h : Follow ranges) : Follow (r :: ranges) :=
  ⟨List.pairwise_cons.2 ⟨hnext, h.1⟩, List.forall_mem_cons.2 ⟨hr, h.2⟩⟩

theorem append (hinner : Follow inner) (h : Follow ranges)
    (hnext : ∀ r ∈ inner, ∀ s ∈ ranges, r.stop ≤ s.start) : Follow (inner ++ ranges) :=
  ⟨List.pairwise_append.2 ⟨hinner.1, h.1, hnext⟩, fun s hs =>
    (List.mem_append.1 hs).elim (hinner.2 s) (h.2 s)⟩

/-- Ranges between two others, with more ranges after them. -/
theorem between (hbefore : before.start ≤ before.stop) (hgap : before.stop ≤ after.start)
    (hafter : after.start ≤ after.stop) (hinner : Follow inner)
    (hinside : ∀ s ∈ inner, before.stop ≤ s.start ∧ s.stop ≤ after.start) (h : Follow ranges)
    (hnext : ∀ s ∈ ranges, after.stop ≤ s.start) :
    Follow (before :: (inner ++ after :: ranges)) := by
  refine cons hbefore ?_ (hinner.append (cons hafter hnext h) ?_)
  · intro s hs
    rw [List.mem_append, List.mem_cons] at hs
    rcases hs with hs | rfl | hs
    · exact (hinside s hs).1
    · exact hgap
    · have := hnext s hs
      omega
  · intro r hr s hs
    have := (hinside r hr).2
    rcases List.mem_cons.1 hs with rfl | hs
    · exact this
    · have := hnext s hs
      omega

end Follow

namespace Cuts

/-- An offset is cut. -/
def Has (cuts : Cuts) (offset : Nat) : Prop := ∃ r ∈ cuts.toList, r.Has offset

/-- The ranges that are cut are in order, and there is something between any two of them. -/
structure Apart (cuts : Cuts) : Prop where
  gaps : cuts.toList.Pairwise fun a b => a.stop < b.start
  ranges : ∀ r ∈ cuts.toList, r.start ≤ r.stop

/-- The cuts have their ends among these offsets. -/
def Ends (opens closes : Nat → Prop) (cuts : Cuts) : Prop :=
  ∀ r ∈ cuts.toList, opens r.start ∧ closes r.stop

theorem mem_toList {cuts : Cuts} {r : Range} :
    r ∈ cuts.toList ↔ r = cuts.last ∨ r ∈ cuts.closed := by
  simp [toList, or_comm]

theorem gaps_iff {cuts : Cuts} : (cuts.toList.Pairwise fun a b => a.stop < b.start) ↔
    (∀ r ∈ cuts.closed, r.stop < cuts.last.start) ∧
      cuts.closed.Pairwise fun a b => b.stop < a.start := by
  rw [toList, List.pairwise_reverse, List.pairwise_cons]

theorem apart_start : Apart {} := ⟨by simp [toList], by simp [toList]⟩

theorem not_has_start (offset : Nat) : ¬ Has {} offset := by
  simp [Has, toList, Range.Has]

theorem not_has_of_isEmpty {cuts : Cuts} (h : cuts.isEmpty = true) (offset : Nat) :
    ¬ cuts.Has offset := by
  rw [isEmpty, Bool.and_eq_true, List.isEmpty_iff, beq_iff_eq] at h
  rintro ⟨r, hr, hhas⟩
  rcases mem_toList.1 hr with rfl | hr
  · have := hhas.2
    omega
  · simp [h.1] at hr

section

variable {cuts : Cuts} {r : Range}

/-- One more range keeps the cuts apart. -/
theorem Apart.add (h : cuts.Apart) (hr : r.start ≤ r.stop) : (cuts.add r).Apart := by
  obtain ⟨hlast, hclosed⟩ := gaps_iff.1 h.gaps
  have hle := h.ranges cuts.last (mem_toList.2 (Or.inl rfl))
  unfold Cuts.add
  split
  · refine ⟨gaps_iff.2 ⟨hlast, hclosed⟩, fun s hs => ?_⟩
    rcases mem_toList.1 hs with rfl | hs
    · exact Nat.le_trans hle (Nat.le_max_left ..)
    · exact h.ranges s (mem_toList.2 (Or.inr hs))
  · rename_i hgap
    refine ⟨gaps_iff.2 ⟨?_, List.pairwise_cons.2 ⟨hlast, hclosed⟩⟩, fun s hs => ?_⟩
    · intro s hs
      rcases List.mem_cons.1 hs with rfl | hs
      · exact Nat.lt_of_not_le hgap
      · have := hlast s hs
        dsimp only
        omega
    · rcases mem_toList.1 hs with rfl | hs
      · exact hr
      · exact h.ranges s (mem_toList.2 (List.mem_cons.1 hs))

/-- A range that does not start before the last cut adds its offsets to what is cut. -/
theorem has_add (h : cuts.Apart) (hnext : cuts.last.start ≤ r.start) (offset : Nat) :
    (cuts.add r).Has offset ↔ cuts.Has offset ∨ r.Has offset := by
  have hlast := h.ranges cuts.last (mem_toList.2 (Or.inl rfl))
  simp only [Has, mem_toList]
  unfold Cuts.add
  split
  · rename_i htouch
    simp only [exists_eq_or_imp, Range.Has]
    rw [or_right_comm]
    refine or_congr_left ?_
    omega
  · simp only [exists_eq_or_imp, List.mem_cons]
    rw [or_comm]

/-- The last cut goes on where it started, or is the new range. -/
theorem last_start_add (cuts : Cuts) (r : Range) :
    (cuts.add r).last.start = cuts.last.start ∨ (cuts.add r).last.start = r.start := by
  unfold Cuts.add
  split
  · exact Or.inl rfl
  · exact Or.inr rfl

/-- The cuts before the last one stay as they are. -/
theorem closed_add (cuts : Cuts) (r : Range) : cuts.closed <:+ (cuts.add r).closed := by
  unfold Cuts.add
  split
  · exact List.suffix_refl _
  · exact List.suffix_cons _ _

/-- Nothing is cut with one more range only if there is nothing in it and nothing before it. -/
theorem isEmpty_add (hr : r.start ≤ r.stop) :
    (cuts.add r).isEmpty = true ↔ cuts.isEmpty = true ∧ r.stop = 0 := by
  simp only [isEmpty, Bool.and_eq_true, List.isEmpty_iff, beq_iff_eq]
  unfold Cuts.add
  split
  · simp only [Nat.max_eq_zero_iff, and_assoc]
  · rename_i hgap
    simp only [List.cons_ne_nil, false_and, false_iff, not_and]
    omega

theorem Ends.add {opens closes : Nat → Prop} (h : Ends opens closes cuts) (hopens : opens r.start)
    (hcloses : closes r.stop) : Ends opens closes (cuts.add r) := by
  obtain ⟨hstart, hstop⟩ := h cuts.last (mem_toList.2 (Or.inl rfl))
  unfold Cuts.add
  split
  · intro s hs
    rcases mem_toList.1 hs with rfl | hs
    · refine ⟨hstart, ?_⟩
      rcases Nat.le_total cuts.last.stop r.stop with hle | hle
      · simpa only [Nat.max_eq_right hle] using hcloses
      · simpa only [Nat.max_eq_left hle] using hstop
    · exact h s (mem_toList.2 (Or.inr hs))
  · intro s hs
    rcases mem_toList.1 hs with rfl | hs
    · exact ⟨hopens, hcloses⟩
    · exact h s (mem_toList.2 (List.mem_cons.1 hs))

end

/-! ## One range after the other -/

/-- Where the first cut starts does not change. -/
theorem first_add (cuts : Cuts) (r : Range) :
    (cuts.add r).toList.head?.map Range.start = cuts.toList.head?.map Range.start := by
  obtain ⟨last, closed⟩ := cuts
  simp only [toList, List.head?_reverse]
  unfold Cuts.add
  split
  · cases closed with
    | nil => rfl
    | cons c closed => simp only [List.getLast?_cons_cons]
  · simp only [List.getLast?_cons_cons]

theorem first_foldl_add (ranges : List Range) (cuts : Cuts) :
    (ranges.foldl Cuts.add cuts).toList.head?.map Range.start =
      cuts.toList.head?.map Range.start := by
  induction ranges generalizing cuts with
  | nil => rfl
  | cons r ranges ih => rw [List.foldl_cons, ih, first_add]

theorem closed_foldl_add (ranges : List Range) (cuts : Cuts) :
    cuts.closed <:+ (ranges.foldl Cuts.add cuts).closed := by
  induction ranges generalizing cuts with
  | nil => exact List.suffix_refl _
  | cons r ranges ih => exact (closed_add cuts r).trans (ih (cuts.add r))

theorem isEmpty_foldl_add {ranges : List Range} (hranges : ∀ r ∈ ranges, r.start ≤ r.stop)
    (cuts : Cuts) : (ranges.foldl Cuts.add cuts).isEmpty = true ↔
      cuts.isEmpty = true ∧ ∀ r ∈ ranges, r.stop = 0 := by
  induction ranges generalizing cuts with
  | nil => simp
  | cons r ranges ih =>
    obtain ⟨hr, hrest⟩ := List.forall_mem_cons.1 hranges
    rw [List.foldl_cons, ih hrest, isEmpty_add hr, and_assoc, List.forall_mem_cons]

theorem Apart.foldl_add {ranges : List Range} (hranges : ∀ r ∈ ranges, r.start ≤ r.stop)
    {cuts : Cuts} (h : cuts.Apart) : (ranges.foldl Cuts.add cuts).Apart := by
  induction ranges generalizing cuts with
  | nil => exact h
  | cons r ranges ih =>
    obtain ⟨hr, hrest⟩ := List.forall_mem_cons.1 hranges
    exact ih hrest (h.add hr)

/-- No range starts before the cut that is last when it is added. -/
def Onward (cuts : Cuts) (ranges : List Range) : Prop :=
  ∀ before r after, ranges = before ++ r :: after →
    (before.foldl Cuts.add cuts).last.start ≤ r.start

theorem onward_nil (cuts : Cuts) : cuts.Onward [] := by
  intro before r after hsplit
  cases before <;> cases hsplit

theorem onward_cons {cuts : Cuts} {r : Range} {ranges : List Range} :
    cuts.Onward (r :: ranges) ↔ cuts.last.start ≤ r.start ∧ (cuts.add r).Onward ranges := by
  constructor
  · intro h
    refine ⟨h [] r ranges rfl, fun before s after hsplit => ?_⟩
    exact h (r :: before) s after (congrArg (r :: ·) hsplit)
  · rintro ⟨hr, h⟩ before s after hsplit
    cases before with
    | nil =>
      obtain ⟨rfl, -⟩ := List.cons.inj hsplit
      exact hr
    | cons b before =>
      obtain ⟨rfl, hrest⟩ := List.cons.inj hsplit
      exact h before s after hrest

/-- Whether no range starts before the last cut of its turn, range by range. -/
def decideOnward (cuts : Cuts) : (ranges : List Range) → Decidable (cuts.Onward ranges)
  | [] => isTrue (onward_nil cuts)
  | r :: ranges =>
    have := decideOnward (cuts.add r) ranges
    decidable_of_iff _ onward_cons.symm

instance (cuts : Cuts) (ranges : List Range) : Decidable (cuts.Onward ranges) :=
  decideOnward cuts ranges

/-- Ranges in the order of their starts. -/
theorem onward_of_sorted {ranges : List Range}
    (hsorted : ranges.Pairwise fun a b => a.start ≤ b.start) {cuts : Cuts}
    (hnext : ∀ r ∈ ranges, cuts.last.start ≤ r.start) : cuts.Onward ranges := by
  induction ranges generalizing cuts with
  | nil => exact onward_nil cuts
  | cons r ranges ih =>
    obtain ⟨hlater, hrest⟩ := List.pairwise_cons.1 hsorted
    obtain ⟨hr, hranges⟩ := List.forall_mem_cons.1 hnext
    refine onward_cons.2 ⟨hr, ih hrest fun s hs => ?_⟩
    rcases last_start_add cuts r with h | h
    · rw [h]
      exact hranges s hs
    · rw [h]
      exact hlater s hs

theorem has_foldl_add {ranges : List Range} (hranges : ∀ r ∈ ranges, r.start ≤ r.stop) {cuts : Cuts}
    (h : cuts.Apart) (honward : cuts.Onward ranges) (offset : Nat) :
    (ranges.foldl Cuts.add cuts).Has offset ↔ cuts.Has offset ∨ ∃ r ∈ ranges, r.Has offset := by
  induction ranges generalizing cuts with
  | nil => simp
  | cons r ranges ih =>
    obtain ⟨hr, hrest⟩ := List.forall_mem_cons.1 hranges
    obtain ⟨hnext, honward⟩ := onward_cons.1 honward
    rw [List.foldl_cons, ih hrest (h.add hr) honward, has_add h hnext, or_assoc]
    simp

/-- Adding ranges that follow one another and the cuts keeps the cuts apart, and cuts just what they
    hold. -/
theorem foldl_add {ranges : List Range} (hfollow : Follow ranges) {cuts : Cuts} (h : cuts.Apart)
    (hnext : ∀ r ∈ ranges, cuts.last.stop ≤ r.start) :
    (ranges.foldl Cuts.add cuts).Apart ∧ ∀ offset,
      (ranges.foldl Cuts.add cuts).Has offset ↔ cuts.Has offset ∨ ∃ r ∈ ranges, r.Has offset := by
  have hlast := h.ranges cuts.last (mem_toList.2 (Or.inl rfl))
  have hsorted : ranges.Pairwise fun a b => a.start ≤ b.start :=
    hfollow.1.imp_of_mem fun ha _ hab => Nat.le_trans (hfollow.2 _ ha) hab
  have honward := onward_of_sorted hsorted fun r hr => Nat.le_trans hlast (hnext r hr)
  exact ⟨h.foldl_add hfollow.2, has_foldl_add hfollow.2 h honward⟩

theorem Ends.foldl_add {opens closes : Nat → Prop} {ranges : List Range}
    (hranges : ∀ r ∈ ranges, opens r.start ∧ closes r.stop) : ∀ {cuts : Cuts},
    Ends opens closes cuts → Ends opens closes (ranges.foldl Cuts.add cuts) := by
  induction ranges with
  | nil => intro cuts hcuts; exact hcuts
  | cons r ranges ih =>
    intro cuts hcuts
    obtain ⟨hr, hrest⟩ := List.forall_mem_cons.1 hranges
    exact ih hrest (hcuts.add hr.1 hr.2)

/-- The cuts that ranges give, added one after the other: the first starts with the text, all are
    apart from one another, and those before the last one stay as they are. If no range starts
    before the cut that is last then, in particular if the starts are in order, the cuts hold just
    the offsets of the ranges. Nothing is cut if and only if every range is empty and none starts
    beyond offset 0. -/
theorem ofRanges_slices {ranges : List Range} (h : ∀ r ∈ ranges, r.start ≤ r.stop) :
    (ofRanges ranges).toList.head?.map Range.start = some 0 ∧ (ofRanges ranges).Apart ∧
      (∀ before after, ranges = before ++ after →
        (ofRanges before).toList.dropLast <+: (ofRanges ranges).toList.dropLast) ∧
      (Onward {} ranges → ∀ offset, (ofRanges ranges).Has offset ↔ ∃ r ∈ ranges, r.Has offset) ∧
      ((ranges.Pairwise fun a b => a.start ≤ b.start) → Onward {} ranges) ∧
      ((ofRanges ranges).isEmpty = true ↔
        ∀ r ∈ ranges, r.start = r.stop ∧ ¬0 < r.start) := by
  refine ⟨first_foldl_add ranges {}, apart_start.foldl_add h, ?_, fun honward offset => ?_,
    fun hsorted => onward_of_sorted hsorted fun r _ => Nat.zero_le _, ?_⟩
  · rintro before after rfl
    have hclosed := closed_foldl_add after (ofRanges before)
    rw [← List.reverse_prefix] at hclosed
    simp only [toList, List.reverse_cons, List.dropLast_concat]
    rwa [ofRanges, ofRanges, List.foldl_append]
  · rw [ofRanges, has_foldl_add h apart_start honward, or_iff_right (not_has_start offset)]
  · rw [ofRanges, isEmpty_foldl_add h, and_iff_right (show isEmpty {} = true from rfl)]
    refine forall₂_congr fun r hr => ?_
    have := h r hr
    omega

/-- Ranges that overlap, touch, lie in one another and are empty. -/
theorem ofRanges_slices_overlapping :
    let ranges : List Range := [⟨0, 0⟩, ⟨2, 5⟩, ⟨4, 8⟩, ⟨3, 4⟩, ⟨8, 9⟩, ⟨9, 9⟩, ⟨12, 14⟩, ⟨20, 20⟩]
    (∀ r ∈ ranges, r.start ≤ r.stop) ∧ Onward {} ranges ∧
      (ofRanges ranges).toList = [⟨0, 0⟩, ⟨2, 9⟩, ⟨12, 14⟩, ⟨20, 20⟩] ∧
      (∀ offset, (ofRanges ranges).Has offset ↔ ∃ r ∈ ranges, r.Has offset) ∧
      (ofRanges (ranges.take 2)).toList.dropLast = [⟨0, 0⟩] ∧
      (ofRanges ranges).isEmpty = false := by
  intro ranges
  have hranges : ∀ r ∈ ranges, r.start ≤ r.stop := by decide
  obtain ⟨-, -, -, hhas, -, hempty⟩ := ofRanges_slices hranges
  have honward : Onward {} ranges := by decide
  refine ⟨hranges, honward, by decide, hhas honward, by decide, ?_⟩
  rw [← Bool.not_eq_true, hempty]
  decide

end Cuts

end GuardedText
