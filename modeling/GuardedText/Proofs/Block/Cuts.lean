import GuardedText.Block.Cuts
import GuardedText.Proofs.Block.Layout
import GuardedText.Proofs.Cut.Union

/-
  What a choice of branches cuts. The ranges that blocks give up are described by recursion
  (`Sliced`), and the stack of what is still to be cut adds just these, one after the other
  (`Sliced.cut`). They follow one another, begin and end with directives, and hold exactly the
  directives and the branches that were not selected (`Block.cuts_gone`).
-/

namespace GuardedText

namespace Block

/-! ## Selected branches -/

/-- The number of the branch that stays; without a choice, or below zero, that of the `#else`. -/
def selected? (b : Block) : Option Int → Option Nat
  | some (.ofNat k) => some k
  | _ => b.fallback.map fun _ => b.arms.length - 1

/-- A choice that a block can have: none, one below zero or the number of one of its branches. -/
def CanTake (b : Block) (taken : Option Int) : Prop := ∀ k, taken = some k → k < b.arms.length

instance (b : Block) (taken : Option Int) : Decidable (b.CanTake taken) :=
  decidable_of_iff (taken.all fun k => decide (k < (b.arms.length : Int))) <| by
    cases taken <;> simp [CanTake]

theorem last_arm {b : Block} {f : Fallback} (h : b.fallback = some f) :
    b.arms[b.arms.length - 1]? = some f.arm := by
  simp [arms, h]

theorem CanTake.selected {b : Block} {taken : Option Int} (h : b.CanTake taken) :
    b.selected? taken = none ∨
      ∃ k arm, b.selected? taken = some k ∧ b.arms[k]? = some arm := by
  have hlast : (b.fallback.map fun _ => b.arms.length - 1) = none ∨
      ∃ k arm, (b.fallback.map fun _ => b.arms.length - 1) = some k ∧ b.arms[k]? = some arm := by
    cases hf : b.fallback with
    | none => exact Or.inl rfl
    | some f => exact Or.inr ⟨_, f.arm, rfl, last_arm hf⟩
  match taken with
  | none => exact hlast
  | some (.negSucc k) => exact hlast
  | some (.ofNat k) =>
    have hk := Int.ofNat_lt.1 (h _ rfl)
    exact Or.inr ⟨k, _, rfl, List.getElem?_eq_getElem hk⟩

theorem selected_of_filter (b : Block) (taken : Option Int) :
    b.selected? taken = match taken.filter fun k => decide (0 ≤ k) with
      | some k => some k.toNat
      | none => b.fallback.map fun _ => b.arms.length - 1 := by
  match taken with
  | none => rfl
  | some (.ofNat k) => rfl
  | some (.negSucc k) => rfl

/-- A branch that stays is surrounded by two cuts. -/
theorem surround_selected {b : Block} {taken : Option Int} {k : Nat} {arm : Arm}
    (hk : b.selected? taken = some k) (harm : b.arms[k]? = some arm) :
    b.surround? taken = some ⟨⟨b.start, arm.span.stop⟩, arm.body,
      some ⟨station b.arms b.closing (k + 1), b.closing.stop⟩⟩ := by
  rw [selected_of_filter] at hk
  unfold surround?
  cases hfilter : taken.filter fun k => decide (0 ≤ k) with
  | some j =>
    rw [hfilter] at hk
    obtain rfl : j.toNat = k := Option.some.inj hk
    dsimp only
    rw [harm]
    rfl
  | none =>
    rw [hfilter] at hk
    obtain ⟨f, hf, rfl⟩ := Option.map_eq_some_iff.1 hk
    rw [last_arm hf] at harm
    obtain rfl : f.arm = arm := Option.some.inj harm
    have hend : b.arms.length - 1 + 1 = b.arms.length := by simp [arms]
    dsimp only
    rw [hf, hend, station_end]
    rfl

/-- A block of which no branch stays is cut as a whole. -/
theorem surround_unselected {b : Block} {taken : Option Int} (h : b.selected? taken = none) :
    b.surround? taken = some ⟨⟨b.start, b.closing.stop⟩, none, none⟩ := by
  rw [selected_of_filter] at h
  unfold surround?
  cases hfilter : taken.filter fun k => decide (0 ≤ k) with
  | some j => simp [hfilter] at h
  | none =>
    rw [hfilter] at h
    dsimp only
    rw [Option.map_eq_none_iff.1 h]

end Block

/-! ## Slices -/

/-- The first of some blocks is cut before the others. -/
theorem Uncut.cut?_blocks_cons (choices : Choices) (b : Block) (bs : List Block)
    (work : List Uncut) (cuts : Cuts) :
    cut? choices (.blocks (b :: bs) :: work) cuts =
      (b.surround? (choices.taken? b)).bind fun s =>
        cut? choices (ofSurround s ++ .blocks bs :: work) (cuts.add s.before) := by
  rw [cut?]
  split <;> rename_i h <;> rw [h] <;> rfl

/-- A range starts where one of some directives starts, and stops where one stops. -/
def Range.EndsIn (r : Range) (spans : List Span) : Prop :=
  (∃ s ∈ spans, s.start = r.start) ∧ ∃ s ∈ spans, s.stop = r.stop

theorem Range.EndsIn.mono {r : Range} {spans others : List Span} (h : r.EndsIn spans)
    (hsub : ∀ s ∈ spans, s ∈ others) : r.EndsIn others := by
  obtain ⟨⟨s, hs, hstart⟩, t, ht, hstop⟩ := h
  exact ⟨⟨s, hsub s hs, hstart⟩, t, hsub t ht, hstop⟩

/-- The ranges that some blocks give up, in document order. -/
inductive Sliced (choices : Choices) : List Block → List Range → Prop where
  | nil : Sliced choices [] []
  | kept {b : Block} {bs : List Block} {k : Nat} {arm : Arm} {inner rest : List Range} :
      b.selected? (choices.taken? b) = some k → b.arms[k]? = some arm →
      Sliced choices (arm.body.getD []) inner → Sliced choices bs rest →
      Sliced choices (b :: bs) (⟨b.start, arm.span.stop⟩ ::
        (inner ++ ⟨Block.station b.arms b.closing (k + 1), b.closing.stop⟩ :: rest))
  | dropped {b : Block} {bs : List Block} {rest : List Range} :
      b.selected? (choices.taken? b) = none → Sliced choices bs rest →
      Sliced choices (b :: bs) (⟨b.start, b.closing.stop⟩ :: rest)

namespace Sliced

variable {choices : Choices}

/-- Blocks that can take their branches give up some ranges. -/
theorem exists_of_canTake (bs : List Block)
    (h : ∀ b ∈ Block.preorderList bs, b.CanTake (choices.taken? b)) :
    ∃ ranges, Sliced choices bs ranges := by
  induction bs using Block.forest_induction with
  | nil => exact ⟨[], .nil⟩
  | cons b bs hbodies ihrest =>
    rw [Block.preorderList_cons] at h
    obtain ⟨rest, hrest⟩ := ihrest fun c hc => h c (List.mem_append_right _ hc)
    have hown := h b (List.mem_append_left _ b.mem_preorder_self)
    rcases hown.selected with hnone | ⟨k, arm, hk, harm⟩
    · exact ⟨_, .dropped hnone hrest⟩
    · have hmem := List.mem_of_getElem? harm
      obtain ⟨inner, hinner⟩ : ∃ inner, Sliced choices (arm.body.getD []) inner := by
        cases hcs : arm.body with
        | none => exact ⟨[], .nil⟩
        | some cs =>
          refine hbodies arm hmem cs hcs fun c hc => h c (List.mem_append_left _ ?_)
          exact Block.mem_preorder.2 (Or.inr ⟨arm, hmem, cs, hcs, hc⟩)
      exact ⟨_, .kept hk harm hinner hrest⟩

theorem cut_cons {b : Block} {bs : List Block} {s : Surround}
    (h : b.surround? (choices.taken? b) = some s) (work : List Uncut) (cuts : Cuts) :
    Uncut.cut? choices (.blocks (b :: bs) :: work) cuts =
      Uncut.cut? choices (Uncut.ofSurround s ++ .blocks bs :: work) (cuts.add s.before) := by
  rw [Uncut.cut?_blocks_cons, h]
  rfl

theorem cut_body {body : Option (List Block)} {inner : List Range}
    (h : ∀ (work : List Uncut) (cuts : Cuts),
      Uncut.cut? choices (.blocks (body.getD []) :: work) cuts =
        Uncut.cut? choices work (inner.foldl Cuts.add cuts)) (work : List Uncut) (cuts : Cuts) :
    Uncut.cut? choices (Uncut.ofBody body ++ work) cuts =
      Uncut.cut? choices work (inner.foldl Cuts.add cuts) := by
  match body with
  | some (b :: bs) => exact h work cuts
  | some [] | none =>
    rw [← h, Option.getD, Uncut.cut?]
    rfl

/-- The stack of what is to be cut adds the ranges of the blocks on top one after the other. -/
theorem cut {bs : List Block} {ranges : List Range} (h : Sliced choices bs ranges) :
    ∀ (work : List Uncut) (cuts : Cuts), Uncut.cut? choices (.blocks bs :: work) cuts =
      Uncut.cut? choices work (ranges.foldl Cuts.add cuts) := by
  induction h with
  | nil => intro work cuts; rw [Uncut.cut?]; rfl
  | @kept b bs k arm inner rest hk harm hinner hrest ihinner ihrest =>
    intro work cuts
    rw [cut_cons (Block.surround_selected hk harm), Uncut.ofSurround, List.append_assoc,
      cut_body ihinner]
    simp only [Option.map_some, Option.toList_some, List.singleton_append]
    rw [Uncut.cut?, ihrest, List.foldl_cons, List.foldl_append, List.foldl_cons]
  | @dropped b bs rest hnone hrest ihrest =>
    intro work cuts
    rw [cut_cons (Block.surround_unselected hnone)]
    exact ihrest work _

/-- The ranges start where directives start and stop where directives stop. -/
theorem ends {bs : List Block} {ranges : List Range} (h : Sliced choices bs ranges) :
    ∀ r ∈ ranges, r.EndsIn (Block.spans bs) := by
  induction h with
  | nil => simp
  | @kept b bs k arm inner rest hk harm hinner hrest ihinner ihrest =>
    have hmem := List.mem_of_getElem? harm
    have hspan : arm.span ∈ Block.spans (b :: bs) :=
      Block.mem_spans_cons.2 (Or.inl ⟨arm, hmem, Or.inl rfl⟩)
    have hclosing := Block.closing_mem_spans b bs
    intro r hr
    rw [List.mem_cons, List.mem_append, List.mem_cons] at hr
    rcases hr with rfl | hr | rfl | hr
    · exact ⟨Block.station_mem_spans b bs 0, arm.span, hspan, rfl⟩
    · refine (ihinner r hr).mono fun s hs => Block.mem_spans_cons.2 (Or.inl ⟨arm, hmem, Or.inr ?_⟩)
      rwa [Block.spans_getD] at hs
    · exact ⟨Block.station_mem_spans b bs (k + 1), b.closing, hclosing, rfl⟩
    · exact (ihrest r hr).mono fun s hs => Block.mem_spans_cons.2 (Or.inr (Or.inr hs))
  | @dropped b bs rest hnone hrest ihrest =>
    intro r hr
    rcases List.mem_cons.1 hr with rfl | hr
    · exact ⟨Block.station_mem_spans b bs 0, b.closing, Block.closing_mem_spans b bs, rfl⟩
    · exact (ihrest r hr).mono fun s hs => Block.mem_spans_cons.2 (Or.inr (Or.inr hs))

/-- The ranges follow one another. -/
theorem follow {bs : List Block} {ranges : List Range} (h : Sliced choices bs ranges) :
    InOrder (Block.spans bs) → Follow ranges := by
  induction h with
  | nil => exact fun _ => ⟨List.Pairwise.nil, by simp⟩
  | @kept b bs k arm inner rest hk harm hinner hrest ihinner ihrest =>
    intro horder
    rw [Block.spans_cons] at horder
    obtain ⟨hblock, hothers, hbetween⟩ := horder.append
    have hstands := Block.stands_arms hblock harm
    have hlt : k < b.arms.length := (List.getElem?_eq_some_iff.1 harm).1
    refine .between ?_ hstands.ended ?_ (ihinner (Block.spans_getD arm.body ▸ hstands.order)) ?_
      (ihrest hothers) fun r hr => ?_
    · have hstart := Block.station_mono hblock (Nat.zero_le k) (Nat.le_of_lt hlt)
      rw [Block.station_of_arm harm] at hstart
      exact Nat.le_trans hstart (Nat.le_of_lt hstands.nonempty)
    · exact Nat.le_trans (Block.station_le_closing hblock hlt) (Nat.le_of_lt (hblock.2 _ (by simp)))
    · intro r hr
      obtain ⟨⟨s, hs, hsr⟩, t, ht, htr⟩ := hinner.ends r hr
      rw [Block.spans_getD] at hs ht
      rw [← hsr, ← htr]
      exact ⟨(hstands.inside s hs).1, (hstands.inside t ht).2⟩
    · obtain ⟨s, hs, hsr⟩ := (hrest.ends r hr).1
      rw [← hsr]
      exact hbetween b.closing (by simp) s hs
  | @dropped b bs rest hnone hrest ihrest =>
    intro horder
    rw [Block.spans_cons] at horder
    obtain ⟨hblock, hothers, hbetween⟩ := horder.append
    refine .cons ?_ (fun r hr => ?_) (ihrest hothers)
    · exact Nat.le_trans (Block.station_le_closing hblock (Nat.zero_le _))
        (Nat.le_of_lt (hblock.2 _ (by simp)))
    · obtain ⟨s, hs, hsr⟩ := (hrest.ends r hr).1
      rw [← hsr]
      exact hbetween b.closing (by simp) s hs

end Sliced

/-! ## What is cut -/

/-- An offset lies in a span. -/
def Span.Has (s : Span) (offset : Nat) : Prop := s.start ≤ offset ∧ offset < s.stop

namespace Block

/-- An offset lies in the body of a branch that its block did not select. -/
def Unselected (choices : Choices) (b : Block) (offset : Nat) : Prop :=
  ∃ j arm, b.arms[j]? = some arm ∧ b.selected? (choices.taken? b) ≠ some j ∧
    arm.span.stop ≤ offset ∧ offset < station b.arms b.closing (j + 1)

/-- An offset lies in a directive of some blocks, or in a branch that was not selected. -/
def Gone (choices : Choices) (bs : List Block) (offset : Nat) : Prop :=
  (∃ s ∈ spans bs, s.Has offset) ∨ ∃ b ∈ preorderList bs, b.Unselected choices offset

variable {choices : Choices} {b : Block} {bs : List Block} {offset : Nat}

theorem not_gone_nil : ¬ Gone choices [] offset := by
  simp [Gone]

theorem gone_cons : Gone choices (b :: bs) offset ↔
    (b.closing.Has offset ∨ b.Unselected choices offset ∨
      ∃ arm ∈ b.arms, arm.span.Has offset ∨ Gone choices (arm.body.getD []) offset) ∨
    Gone choices bs offset := by
  simp only [Gone, mem_spans_cons, preorderList_cons, List.mem_append, mem_preorder, spans_getD]
  constructor
  · rintro (⟨s, (⟨arm, harm, rfl | hs⟩ | rfl | hs), hhas⟩ |
      ⟨c, ((rfl | ⟨arm, harm, cs, hcs, hc⟩) | hc), hun⟩)
    · exact Or.inl (Or.inr (Or.inr ⟨arm, harm, Or.inl hhas⟩))
    · exact Or.inl (Or.inr (Or.inr ⟨arm, harm, Or.inr (Or.inl ⟨s, hs, hhas⟩)⟩))
    · exact Or.inl (Or.inl hhas)
    · exact Or.inr (Or.inl ⟨s, hs, hhas⟩)
    · exact Or.inl (Or.inr (Or.inl hun))
    · exact Or.inl (Or.inr (Or.inr ⟨arm, harm, Or.inr (Or.inr ⟨c, by simpa [hcs] using hc, hun⟩)⟩))
    · exact Or.inr (Or.inr ⟨c, hc, hun⟩)
  · rintro ((hhas | hun | ⟨arm, harm, hhas | ⟨s, hs, hhas⟩ | ⟨c, hc, hun⟩⟩) |
      ⟨s, hs, hhas⟩ | ⟨c, hc, hun⟩)
    · exact Or.inl ⟨_, Or.inr (Or.inl rfl), hhas⟩
    · exact Or.inr ⟨b, Or.inl (Or.inl rfl), hun⟩
    · exact Or.inl ⟨_, Or.inl ⟨arm, harm, Or.inl rfl⟩, hhas⟩
    · exact Or.inl ⟨s, Or.inl ⟨arm, harm, Or.inr hs⟩, hhas⟩
    · cases hcs : arm.body with
      | none => simp [hcs] at hc
      | some cs =>
        exact Or.inr ⟨c, Or.inl (Or.inr ⟨arm, harm, cs, hcs, by simpa [hcs] using hc⟩), hun⟩
    · exact Or.inl ⟨s, Or.inr (Or.inr hs), hhas⟩
    · exact Or.inr ⟨c, Or.inr hc, hun⟩

/-- What is gone stands between the first and the last directive. -/
theorem Gone.between (hgone : Gone choices bs offset) (hspans : ∀ s ∈ spans bs, s.start < s.stop) :
    (∃ s ∈ spans bs, s.start ≤ offset) ∧ ∃ s ∈ spans bs, offset < s.stop := by
  induction bs using forest_induction with
  | nil => exact absurd hgone not_gone_nil
  | cons b bs hbodies hrest =>
    have hown : ∀ arm ∈ b.arms, arm.span ∈ spans (b :: bs) := fun arm harm =>
      mem_spans_cons.2 (Or.inl ⟨arm, harm, Or.inl rfl⟩)
    rcases gone_cons.1 hgone with (hhas | ⟨j, arm, harm, -, hfrom, hto⟩ |
      ⟨arm, harm, hhas | hinner⟩) | hothers
    · have hclosing := closing_mem_spans b bs
      exact ⟨⟨_, hclosing, hhas.1⟩, _, hclosing, hhas.2⟩
    · have hspan := hown arm (List.mem_of_getElem? harm)
      obtain ⟨s, hs, hstart⟩ := station_mem_spans b bs (j + 1)
      have := hspans _ hspan
      have := hspans s hs
      exact ⟨⟨_, hspan, by omega⟩, s, hs, by omega⟩
    · exact ⟨⟨_, hown arm harm, hhas.1⟩, _, hown arm harm, hhas.2⟩
    · cases hcs : arm.body with
      | none =>
        rw [hcs] at hinner
        exact absurd hinner not_gone_nil
      | some cs =>
        rw [hcs] at hinner
        have hsub : ∀ s ∈ spans cs, s ∈ spans (b :: bs) := fun s hs =>
          mem_spans_cons.2 (Or.inl ⟨arm, harm, Or.inr (by rwa [hcs, spansBody_some])⟩)
        obtain ⟨⟨s, hs, hfrom⟩, t, ht, hto⟩ :=
          hbodies arm harm cs hcs hinner fun s hs => hspans s (hsub s hs)
        exact ⟨⟨s, hsub s hs, hfrom⟩, t, hsub t ht, hto⟩
    · have hsub : ∀ s ∈ spans bs, s ∈ spans (b :: bs) := fun s hs =>
        mem_spans_cons.2 (Or.inr (Or.inr hs))
      obtain ⟨⟨s, hs, hfrom⟩, t, ht, hto⟩ := hrest hothers fun s hs => hspans s (hsub s hs)
      exact ⟨⟨s, hsub s hs, hfrom⟩, t, hsub t ht, hto⟩

/-- What is gone of a branch, directive and body, stands before the next directive. -/
theorem Stands.gone {arm : Arm} {next : Nat} (h : Stands arm next)
    (hgone : arm.span.Has offset ∨ Gone choices (arm.body.getD []) offset) :
    arm.span.start ≤ offset ∧ offset < next := by
  have hnonempty := h.nonempty
  have hended := h.ended
  rcases hgone with hhas | hinner
  · exact ⟨hhas.1, Nat.lt_of_lt_of_le hhas.2 hended⟩
  · obtain ⟨⟨s, hs, hfrom⟩, t, ht, hto⟩ := hinner.between (spans_getD arm.body ▸ h.order.2)
    rw [spans_getD] at hs ht
    have := (h.inside s hs).1
    have := (h.inside t ht).2
    omega

/-- What is gone of a block is its `#endif`, the branches that were not selected together with their
    directives, and of the selected one its directive and what is gone inside. -/
def GoneOf (choices : Choices) (b : Block) (offset : Nat) : Prop :=
  b.closing.Has offset ∨ ∃ j arm, b.arms[j]? = some arm ∧ arm.span.start ≤ offset ∧
    offset < station b.arms b.closing (j + 1) ∧ (b.selected? (choices.taken? b) = some j →
      arm.span.Has offset ∨ Gone choices (arm.body.getD []) offset)

theorem gone_cons_iff (hblock : InOrder (b.arms.flatMap armSpans ++ [b.closing])) :
    Gone choices (b :: bs) offset ↔ b.GoneOf choices offset ∨ Gone choices bs offset := by
  rw [gone_cons]
  refine or_congr_left (or_congr_right ⟨?_, ?_⟩)
  · rintro (⟨j, arm, harm, hsel, hfrom, hto⟩ | ⟨arm, harm, hgone⟩)
    · have := (stands_arms hblock harm).nonempty
      exact ⟨j, arm, harm, by omega, hto, fun h => absurd h hsel⟩
    · obtain ⟨j, hj⟩ := List.getElem?_of_mem harm
      obtain ⟨hfrom, hto⟩ := (stands_arms hblock hj).gone hgone
      exact ⟨j, arm, hj, hfrom, hto, fun _ => hgone⟩
  · rintro ⟨j, arm, harm, hfrom, hto, hgone⟩
    by_cases hsel : b.selected? (choices.taken? b) = some j
    · exact Or.inr ⟨arm, List.mem_of_getElem? harm, hgone hsel⟩
    · by_cases hspan : offset < arm.span.stop
      · exact Or.inr ⟨arm, List.mem_of_getElem? harm, Or.inl ⟨hfrom, hspan⟩⟩
      · exact Or.inl ⟨j, arm, harm, hsel, by omega, hto⟩

/-- Branches that were not selected are gone, with their directives. -/
theorem goneOf_between {i n : Nat} (hin : i ≤ n) (hn : n ≤ b.arms.length)
    (hother : ∀ j, i ≤ j → j < n → b.selected? (choices.taken? b) ≠ some j)
    (hfrom : station b.arms b.closing i ≤ offset) (hto : offset < station b.arms b.closing n) :
    b.GoneOf choices offset := by
  obtain ⟨j, arm, hij, hjn, harm, hstart, hnext⟩ := exists_arm_of_station hin hn hfrom hto
  exact Or.inr ⟨j, arm, harm, hstart, hnext, fun hsel => absurd hsel (hother j hij hjn)⟩

/-- The rest of a block is gone from a branch on, if none of its branches from there was selected. -/
theorem goneOf_behind {i : Nat} (hi : i ≤ b.arms.length)
    (hother : ∀ j, i ≤ j → b.selected? (choices.taken? b) ≠ some j)
    (hfrom : station b.arms b.closing i ≤ offset) (hto : offset < b.closing.stop) :
    b.GoneOf choices offset := by
  by_cases hearlier : offset < station b.arms b.closing b.arms.length
  · exact goneOf_between hi (Nat.le_refl _) (fun j hj _ => hother j hj) hfrom hearlier
  · rw [station_end] at hearlier
    exact Or.inl ⟨by omega, hto⟩

/-- A branch stands inside of its block. -/
theorem start_le_of_arm (hblock : InOrder (b.arms.flatMap armSpans ++ [b.closing])) {j : Nat}
    {arm : Arm} (harm : b.arms[j]? = some arm) : b.start ≤ arm.span.start := by
  have hj : j < b.arms.length := (List.getElem?_eq_some_iff.1 harm).1
  have hfirst := station_mono hblock (Nat.zero_le j) (Nat.le_of_lt hj)
  rwa [← start_eq_station, station_of_arm harm] at hfirst

end Block

namespace Sliced

variable {choices : Choices}

/-- The cuts around a branch that stays, and what is gone in it, hold what is gone of the block. -/
theorem has_kept {b : Block} (hblock : InOrder (b.arms.flatMap Block.armSpans ++ [b.closing]))
    {k : Nat} {arm : Arm} (hk : b.selected? (choices.taken? b) = some k)
    (harm : b.arms[k]? = some arm) (offset : Nat) :
    (Range.Has ⟨b.start, arm.span.stop⟩ offset ∨ Block.Gone choices (arm.body.getD []) offset ∨
      Range.Has ⟨Block.station b.arms b.closing (k + 1), b.closing.stop⟩ offset) ↔
    b.GoneOf choices offset := by
  have hlt : k < b.arms.length := (List.getElem?_eq_some_iff.1 harm).1
  have hstands := Block.stands_arms hblock harm
  have hended := hstands.ended
  have hstation : Block.station b.arms b.closing k = arm.span.start := Block.station_of_arm harm
  constructor
  · have hother : ∀ j ≠ k, b.selected? (choices.taken? b) ≠ some j := fun j hj hsel =>
      hj (Option.some.inj (hsel.symm.trans hk))
    rintro (⟨hfrom, hto⟩ | hgone | ⟨hfrom, hto⟩)
    · by_cases hearlier : offset < Block.station b.arms b.closing k
      · exact Block.goneOf_between (Nat.zero_le k) (Nat.le_of_lt hlt)
          (fun j _ hj => hother j (Nat.ne_of_lt hj)) hfrom hearlier
      · dsimp only at hto
        exact Or.inr ⟨k, arm, harm, by omega, by omega, fun _ => Or.inl ⟨by omega, hto⟩⟩
    · obtain ⟨hstart, hnext⟩ := hstands.gone (Or.inr hgone)
      exact Or.inr ⟨k, arm, harm, hstart, hnext, fun _ => Or.inr hgone⟩
    · exact Block.goneOf_behind (Nat.succ_le_of_lt hlt)
        (fun j hj => hother j (Nat.ne_of_gt hj)) hfrom hto
  · rintro (⟨hfrom, hto⟩ | ⟨j, other, hother, hstart, hnext, hsel⟩)
    · have := Block.station_le_closing hblock (Nat.succ_le_of_lt hlt)
      exact Or.inr (Or.inr ⟨Nat.le_trans this hfrom, hto⟩)
    · have hj : j < b.arms.length := (List.getElem?_eq_some_iff.1 hother).1
      have hfirst := Block.start_le_of_arm hblock hother
      rcases Nat.lt_trichotomy j k with hlt | rfl | hgt
      · have := Block.station_mono hblock (show j + 1 ≤ k from hlt) (by omega)
        have := hstands.nonempty
        refine Or.inl ⟨Nat.le_trans hfirst hstart, ?_⟩
        dsimp only
        omega
      · obtain rfl : arm = other := Option.some.inj (harm.symm.trans hother)
        rcases hsel hk with hhas | hgone
        · exact Or.inl ⟨Nat.le_trans hfirst hstart, hhas.2⟩
        · exact Or.inr (Or.inl hgone)
      · have hlater := Block.station_mono hblock (show k + 1 ≤ j from hgt) (Nat.le_of_lt hj)
        rw [Block.station_of_arm hother] at hlater
        have := Block.station_le_closing hblock (show j + 1 ≤ b.arms.length from hj)
        have := hblock.2 b.closing (by simp)
        refine Or.inr (Or.inr ⟨Nat.le_trans hlater hstart, ?_⟩)
        dsimp only
        omega

/-- Of a block of which no branch stays everything is gone. -/
theorem has_dropped {b : Block} (hblock : InOrder (b.arms.flatMap Block.armSpans ++ [b.closing]))
    (hnone : b.selected? (choices.taken? b) = none) (offset : Nat) :
    Range.Has ⟨b.start, b.closing.stop⟩ offset ↔ b.GoneOf choices offset := by
  have hclosing := hblock.2 b.closing (by simp)
  constructor
  · rintro ⟨hfrom, hto⟩
    exact Block.goneOf_behind (Nat.zero_le _) (fun j _ => by simp [hnone]) hfrom hto
  · rintro (⟨hfrom, hto⟩ | ⟨j, other, hother, hstart, hnext, -⟩)
    · exact ⟨Nat.le_trans (Block.station_le_closing hblock (Nat.zero_le _)) hfrom, hto⟩
    · have hj : j < b.arms.length := (List.getElem?_eq_some_iff.1 hother).1
      have hfirst := Block.start_le_of_arm hblock hother
      have := Block.station_le_closing hblock (show j + 1 ≤ b.arms.length from hj)
      refine ⟨Nat.le_trans hfirst hstart, ?_⟩
      dsimp only
      omega

/-- The ranges hold what is gone. -/
theorem has_iff {bs : List Block} {ranges : List Range} (h : Sliced choices bs ranges)
    (offset : Nat) : InOrder (Block.spans bs) →
    ((∃ r ∈ ranges, r.Has offset) ↔ Block.Gone choices bs offset) := by
  induction h with
  | nil => intro _; simp [Block.not_gone_nil]
  | @kept b bs k arm inner rest hk harm hinner hrest ihinner ihrest =>
    intro horder
    rw [Block.spans_cons] at horder
    obtain ⟨hblock, hothers, -⟩ := horder.append
    have hbody := ihinner (Block.spans_getD arm.body ▸ (Block.stands_arms hblock harm).order)
    rw [Block.gone_cons_iff hblock, ← has_kept hblock hk harm, ← hbody, ← ihrest hothers]
    simp only [List.mem_cons, List.mem_append, or_and_right, exists_or, exists_eq_left, or_assoc]
  | @dropped b bs rest hnone hrest ihrest =>
    intro horder
    rw [Block.spans_cons] at horder
    obtain ⟨hblock, hothers, -⟩ := horder.append
    rw [Block.gone_cons_iff hblock, ← has_dropped hblock hnone, ← ihrest hothers]
    simp only [List.mem_cons, or_and_right, exists_or, exists_eq_left]

end Sliced

namespace Block

variable {source : Text} {blocks : List Block} {choices : Choices}

/-- The cuts of the blocks of a script: they are apart from one another, have their ends at
    directives, and hold what is gone. -/
theorem cuts_of_parse (hparse : (parse source).2 = .ok blocks)
    (hchoices : ∀ b ∈ preorderList blocks, b.CanTake (choices.taken? b)) :
    ∃ cuts, cuts? choices blocks = some cuts ∧ cuts.Apart ∧
      cuts.Ends (fun i => i = 0 ∨ ∃ s ∈ spans blocks, s.start = i)
        (fun i => i = 0 ∨ ∃ s ∈ spans blocks, s.stop = i) ∧
      ∀ offset, cuts.Has offset ↔ Gone choices blocks offset := by
  obtain ⟨ranges, hsliced⟩ := Sliced.exists_of_canTake blocks hchoices
  have horder := (parse_laid hparse).order
  obtain ⟨hapart, hhas⟩ := Cuts.foldl_add (hsliced.follow horder) Cuts.apart_start (by simp)
  refine ⟨ranges.foldl Cuts.add {}, ?_, hapart, ?_, fun offset => ?_⟩
  · rw [cuts?, hsliced.cut, Uncut.cut?]
  · refine Cuts.Ends.foldl_add (fun r hr => ?_) (by simp [Cuts.Ends, Cuts.toList])
    exact ⟨Or.inr (hsliced.ends r hr).1, Or.inr (hsliced.ends r hr).2⟩
  · rw [hhas, hsliced.has_iff offset horder, or_iff_right (Cuts.not_has_start offset)]

/-- The cuts of blocks that can take their branches are apart from one another and in order, and an
    offset is cut exactly when it lies in a directive or in a branch that was not selected. -/
theorem cuts_gone (hparse : (parse source).2 = .ok blocks)
    (hchoices : ∀ b ∈ preorderList blocks, b.CanTake (choices.taken? b)) :
    ∃ cuts, cuts? choices blocks = some cuts ∧ cuts.Apart ∧
      ∀ offset, cuts.Has offset ↔
        (∃ s ∈ spans blocks, s.Has offset) ∨
          ∃ b ∈ preorderList blocks, b.Unselected choices offset := by
  obtain ⟨cuts, hcuts, hapart, -, hgone⟩ := cuts_of_parse hparse hchoices
  exact ⟨cuts, hcuts, hapart, hgone⟩

/-- A block that took the branch of its `#if`, with an `#else` that goes. -/
theorem cuts_gone_else :
    ∃ blocks, (parse "/*#if a*/x/*#else*/y/*#endif*/").2 = .ok blocks ∧
      (∀ b ∈ preorderList blocks, b.CanTake (Choices.taken? [(0, 0)] b)) ∧
      ∃ cuts, cuts? [(0, 0)] blocks = some cuts ∧ cuts.Apart ∧
        ∀ offset, cuts.Has offset ↔ Gone [(0, 0)] blocks offset := by
  obtain ⟨blocks, hparse, hcheck⟩ := parse_of_check
    (show (parse "/*#if a*/x/*#else*/y/*#endif*/").2.toOption.any (fun blocks =>
      decide (∀ b ∈ preorderList blocks, b.CanTake (Choices.taken? [(0, 0)] b))) = true by
      decide +kernel)
  have hchoices := of_decide_eq_true hcheck
  exact ⟨blocks, hparse, hchoices, cuts_gone hparse hchoices⟩

end Block

end GuardedText
