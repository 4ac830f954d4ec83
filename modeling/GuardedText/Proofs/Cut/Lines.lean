import Mathlib.Data.List.Sort
import GuardedText.Proofs.Cut.Remains
import GuardedText.Proofs.Text.Lines

/-
  What remains of a text whose directives stand on lines of their own. A cut then takes whole lines:
  it is trimmed to the start of its line (`Cut.startsAt_trimLeft`) and reading goes on at the start of
  the line after it, so what remains is made of whole lines (`Cut.Ready.whole`). They are the lines
  without a directive that do not lie in a branch that was not selected
  (`Cut.emit_filters_lines`).
-/

namespace GuardedText

namespace CodePoint

theorem not_lineEnd_of_horizontal {c : CodePoint} (h : c.isHorizontal = true) :
    c.isLineEnd = false := by
  cases hend : c.isLineEnd with
  | false => rfl
  | true =>
    simp only [isLineEnd, isHorizontal, Bool.or_eq_true, Bool.and_eq_true, beq_iff_eq,
      decide_eq_true_eq] at h hend
    omega

end CodePoint

namespace Cut

open Text (BreakAt StartsAt IsLine lineRanges)

/-! ## Starts and ends of lines -/

theorem startsAt_succ {text : Text} {k : Nat} {c : CodePoint} (hc : text[k]? = some c)
    (hend : c.isLineEnd = true) (hnext : ∀ d, text[k + 1]? = some d → d.isLineEnd = false) :
    StartsAt text (k + 1) := by
  refine Or.inr ⟨k, rfl, c, hc, hend, fun d hd hpair => ?_⟩
  have hlf := hnext d hd
  simp [CodePoint.isLineEnd, hpair.2] at hlf

theorem startsLine_of_startsAt {text : Text} {offset : Nat} (h : StartsAt text offset) :
    startsLine text offset = true := by
  rcases h with rfl | ⟨k, rfl, c, hc, hend, -⟩
  · rfl
  · rw [startsLine, hc]
    exact hend

/-- The next line starts after a line terminator. -/
theorem LineEndAt.startsAt {text : Text} {offset n : Nat} (h : LineEndAt text offset n) :
    StartsAt text (offset + n) := by
  cases h with
  | @pair c d hc hd hcr hlf =>
    refine Or.inr ⟨offset + 1, rfl, d, hd, ?_, ?_⟩
    · simp [CodePoint.isLineEnd, hlf]
    · rw [hlf]
      omega
  | @single c hc hend hpair => exact Or.inr ⟨offset, rfl, c, hc, isLineEnd_iff.2 hend, hpair⟩

/-- A line terminator has its only break at its end. -/
theorem LineEndAt.not_breakAt {text : Text} {offset n k : Nat} (h : LineEndAt text offset n)
    (hfrom : offset ≤ k) (hto : k + 1 < offset + n) : ¬ BreakAt text k := by
  cases h with
  | @pair c d hc hd hcr hlf =>
    obtain rfl : k = offset := by omega
    rintro ⟨e, he, -, hpair⟩
    rw [hc, Option.some.injEq] at he
    subst he
    exact hpair d hd ⟨hcr, hlf⟩
  | single => omega

theorem exists_lineEndAt {text : Text} {offset : Nat}
    (h : (text[offset]?).any CodePoint.isLineEnd = true) : ∃ n, LineEndAt text offset n := by
  obtain ⟨c, hc, hend⟩ := (Option.any_eq_true ..).1 h
  by_cases hpair : ∃ d, text[offset + 1]? = some d ∧ c.val = 0x0D ∧ d.val = 0x0A
  · obtain ⟨d, hd, hcr, hlf⟩ := hpair
    exact ⟨2, .pair hc hd hcr hlf⟩
  · exact ⟨1, .single hc (isLineEnd_iff.1 hend) fun d hd hboth => hpair ⟨d, hd, hboth⟩⟩

theorem lt_skipLineEnd {text : Text} {offset n : Nat} (h : LineEndAt text offset n) :
    offset < skipLineEnd text offset := by
  cases h with
  | @pair c d hc hd hcr hlf =>
    simp [skipLineEnd, hc, hd, hcr, hlf]
  | @single c hc hend hpair =>
    have hbreak : c.isLineEnd = true := isLineEnd_iff.2 hend
    unfold skipLineEnd
    rw [hc]
    split
    · rename_i c' d hc' hd
      cases hc'
      split <;> omega
    · rename_i c' hc' hd
      cases hc'
      rw [if_pos hbreak]
      omega
    · rename_i hnone
      cases hnone

/-- White space holds nothing that ends a line. -/
theorem Blank.not_lineEnd {text : Text} {start stop i : Nat} (h : Blank text start stop)
    (hfrom : start ≤ i) (hto : i < stop) {c : CodePoint} (hc : text[i]? = some c) :
    c.isLineEnd = false := by
  obtain ⟨d, hd, hblank⟩ := h i hfrom hto
  rw [hc, Option.some.injEq] at hd
  exact CodePoint.not_lineEnd_of_horizontal (hd ▸ hblank)

/-- White space holds no break. -/
theorem Blank.not_breakAt {text : Text} {start stop k : Nat} (h : Blank text start stop)
    (hfrom : start ≤ k) (hto : k < stop) : ¬ BreakAt text k := by
  rintro ⟨c, hc, hend, -⟩
  rw [h.not_lineEnd hfrom hto hc] at hend
  cases hend

/-! ## Cuts of whole lines -/

/-- Trimming stops at the limit, or after something that is not white space. -/
theorem trimLeft_stops (text : Text) (limit stop : Nat) :
    trimLeft text limit stop ≤ limit ∨
      ∃ k, trimLeft text limit stop = k + 1 ∧ (text[k]?).any CodePoint.isHorizontal = false := by
  induction stop with
  | zero => exact Or.inl (Nat.zero_le limit)
  | succ stop ih =>
    rw [trimLeft]
    split
    · exact ih
    · rename_i hstop
      by_cases hlimit : limit < stop + 1
      · exact Or.inr ⟨stop, rfl, by simpa [hlimit] using hstop⟩
      · exact Or.inl (Nat.le_of_not_lt hlimit)

section

variable {text : Text} {offset : Nat} {cut : Range}

/-- A cut that leads its line is trimmed to the start of the line. -/
theorem startsAt_trimLeft (hoffset : StartsAt text offset) (hahead : offset ≤ cut.start)
    (hslash : cut.start = 0 ∨ text[cut.start]? = some CodePoint.slash)
    (h : LeadsLine text cut.start) : StartsAt text (trimLeft text offset cut.start) := by
  obtain ⟨start, hle, hblank, hline⟩ := h
  have hfrom : offset ≤ trimLeft text offset cut.start := le_trimLeft hahead
  have hto := trimLeft_le text offset cut.start
  have htrimmed := blank_trimLeft text offset cut.start
  generalize ht : trimLeft text offset cut.start = t at hfrom hto htrimmed ⊢
  rcases Nat.lt_trichotomy t start with hlt | rfl | hgt
  · -- The end of the line before would be white space.
    rcases hline with hzero | ⟨c, hc, hend⟩
    · omega
    · have := htrimmed.not_lineEnd (by omega) (by omega) hc
      rw [isLineEnd_iff.2 hend] at this
      cases this
  · rcases hline with hzero | ⟨c, hc, hend⟩
    · exact Or.inl hzero
    · cases t with
      | zero => exact Or.inl rfl
      | succ k =>
        refine startsAt_succ hc (isLineEnd_iff.2 hend) fun d hd => ?_
        by_cases hcut : k + 1 < cut.start
        · exact hblank.not_lineEnd (Nat.le_refl _) hcut hd
        · have heq : cut.start = k + 1 := by omega
          rcases hslash with hzero | hslash
          · omega
          · rw [heq, hd, Option.some.injEq] at hslash
            subst hslash
            decide
  · -- Trimming went no further than the white space, so it stopped at the limit.
    rcases trimLeft_stops text offset cut.start with hlimit | ⟨k, hk, hnot⟩
    · have heq : t = offset := by omega
      rw [heq]
      exact hoffset
    · obtain ⟨c, hc, hhorizontal⟩ := hblank k (by omega) (by omega)
      rw [hc, Option.any_some, hhorizontal] at hnot
      cases hnot

/-- A line ends at an offset, or the text does. -/
def EndsLine (text : Text) (offset : Nat) : Prop :=
  offset = text.length ∨ ∃ n, LineEndAt text offset n

/-- After a cut that takes its lines whole, reading goes on at the start of a line or at the end. -/
theorem startsAt_resume (htrim : StartsAt text (trimLeft text offset cut.start))
    (hstop : cut.stop = 0 ∨ EndsLine text cut.stop) :
    StartsAt text (resume text offset cut) ∨ text.length ≤ resume text offset cut := by
  unfold resume
  rw [if_pos (startsLine_of_startsAt htrim)]
  rcases skipLineEnd_spec text cut.stop with hsame | ⟨n, hend, hskip⟩
  · rcases hstop with hzero | hlength | ⟨n, hend⟩
    · rw [hsame]
      exact Or.inl (Or.inl hzero)
    · omega
    · have := lt_skipLineEnd hend
      omega
  · rw [hskip]
    exact Or.inl hend.startsAt

end

namespace Ready

variable {text : Text} {offset : Nat} {cuts : List Range}

/-- Before a cut there is something to read. -/
theorem startsAt {cut : Range} (h : Ready text offset (cut :: cuts))
    (hoffset : StartsAt text offset ∨ text.length ≤ offset) : StartsAt text offset := by
  rcases hoffset with hstarts | hlength
  · exact hstarts
  · have hahead := h.ahead cut List.mem_cons_self
    rcases h.slash cut List.mem_cons_self with hzero | hslash
    · exact Or.inl (by omega)
    · have := (List.getElem?_eq_some_iff.1 hslash).1
      omega

/-- If every cut takes its lines whole, what remains is made of whole lines. -/
theorem whole (h : Ready text offset cuts)
    (hoffset : StartsAt text offset ∨ text.length ≤ offset)
    (hcuts : ∀ c ∈ cuts, LeadsLine text c.start ∧ (c.stop = 0 ∨ EndsLine text c.stop))
    {l : Range} (hl : IsLine text l) {i j : Nat} (hi : l.Has i) (hj : l.Has j)
    (hkept : i ∈ kept text offset cuts) : j ∈ kept text offset cuts := by
  have hbound := hl.stop_le
  have hjfrom := hj.1
  have hjto := hj.2
  induction cuts generalizing offset with
  | nil =>
    rw [kept, List.mem_range'_1] at hkept ⊢
    rcases hoffset with hstarts | hlength
    · have := hl.start_ge hstarts hi hkept.1
      omega
    · omega
  | cons cut cuts ih =>
    obtain ⟨⟨hleads, hstop⟩, hrest⟩ := List.forall_mem_cons.1 hcuts
    have hstarts := h.startsAt hoffset
    have htrim := startsAt_trimLeft hstarts (h.ahead cut List.mem_cons_self)
      (h.slash cut List.mem_cons_self) hleads
    rcases List.mem_append.1 hkept with hfront | hlater
    · refine List.mem_append_left _ ?_
      rw [List.mem_range'_1] at hfront ⊢
      have := hl.start_ge hstarts hi hfront.1
      have := hl.stop_le_of_startsAt htrim hi (by omega)
      omega
    · exact List.mem_append_right _ (ih h.resume (startsAt_resume htrim hstop) hrest hlater)

theorem lt_length_of_mem_kept (h : Ready text offset cuts) {i : Nat}
    (hi : i ∈ kept text offset cuts) : i < text.length :=
  lt_length_of_mem h.map_kept hi

end Ready

end Cut

/-! ## Lines that stay -/

namespace Block

/-- The bodies of the branches that a block did not select. -/
def lostBodies (choices : Choices) (b : Block) : List Range :=
  b.arms.zipIdx.filterMap fun (arm, j) =>
    if b.selected? (choices.taken? b) = some j then none
    else some ⟨arm.span.stop, station b.arms b.closing (j + 1)⟩

theorem unselected_iff {choices : Choices} {b : Block} {offset : Nat} :
    b.Unselected choices offset ↔ ∃ body ∈ b.lostBodies choices, body.Has offset := by
  constructor
  · rintro ⟨j, arm, harm, hsel, hfrom, hto⟩
    refine ⟨⟨arm.span.stop, station b.arms b.closing (j + 1)⟩, ?_, hfrom, hto⟩
    refine List.mem_filterMap.2 ⟨(arm, j), List.mem_zipIdx_iff_getElem?.2 harm, ?_⟩
    exact if_neg hsel
  · rintro ⟨body, hbody, hfrom, hto⟩
    obtain ⟨⟨arm, j⟩, hmem, hlost⟩ := List.mem_filterMap.1 hbody
    dsimp only at hlost
    split at hlost
    · cases hlost
    · rename_i hsel
      cases hlost
      exact ⟨j, arm, List.mem_zipIdx_iff_getElem?.1 hmem, hsel, hfrom, hto⟩

/-- The directives of a block are among those of the blocks around it. -/
theorem spans_subset {bs : List Block} {b : Block} (hb : b ∈ preorderList bs) :
    ∀ s ∈ spans [b], s ∈ spans bs := by
  induction bs using forest_induction with
  | nil => simp at hb
  | cons c bs hbodies hrest =>
    intro s hs
    rw [preorderList_cons, List.mem_append] at hb
    rcases hb with hb | hb
    · rcases mem_preorder.1 hb with rfl | ⟨arm, harm, cs, hcs, hb⟩
      · rw [spans_cons, spans_nil, List.append_nil] at hs
        rw [spans_cons]
        exact List.mem_append_left _ hs
      · refine mem_spans_cons.2 (Or.inl ⟨arm, harm, Or.inr ?_⟩)
        rw [hcs, spansBody_some]
        exact hbodies arm harm cs hcs hb s hs
    · exact mem_spans_cons.2 (Or.inr (Or.inr (hrest hb s hs)))

/-- The body of a branch that was not selected stands between two directives. -/
theorem lostBodies_between {choices : Choices} {bs : List Block} {b : Block}
    (hb : b ∈ preorderList bs) {body : Range} (hbody : body ∈ b.lostBodies choices) :
    (∃ s ∈ spans bs, s.stop = body.start) ∧ ∃ s ∈ spans bs, s.start = body.stop := by
  obtain ⟨⟨arm, j⟩, hmem, hlost⟩ := List.mem_filterMap.1 hbody
  have harm := List.mem_of_getElem? (List.mem_zipIdx_iff_getElem?.1 hmem)
  dsimp only at hlost
  split at hlost
  · cases hlost
  · cases hlost
    obtain ⟨s, hs, hstart⟩ := station_mem_spans b [] (j + 1)
    refine ⟨⟨arm.span, spans_subset hb _ ?_, rfl⟩, s, spans_subset hb s hs, hstart⟩
    exact mem_spans_cons.2 (Or.inl ⟨arm, harm, Or.inl rfl⟩)

/-- A line stays if no directive stands in it, it does not lie in the body of a branch that was not
    selected, and it is not an empty first line of a script with directives. -/
def LineStays (source : Text) (choices : Choices) (blocks : List Block) (l : Range) : Prop :=
  (∀ s ∈ spans blocks, s.stop ≤ l.start ∨ l.stop ≤ s.start) ∧
  (∀ b ∈ preorderList blocks, ∀ body ∈ b.lostBodies choices,
    ¬ (body.start ≤ l.start ∧ l.stop ≤ body.stop)) ∧
  ¬ (spans blocks ≠ [] ∧ l.start = 0 ∧ (source[0]?).any CodePoint.isLineEnd = true)

instance (source : Text) (choices : Choices) (blocks : List Block) (l : Range) :
    Decidable (LineStays source choices blocks l) :=
  inferInstanceAs (Decidable (_ ∧ _ ∧ _))

end Block

/-- The first cut of some blocks starts with the text. -/
theorem Block.cuts_first {choices : Choices} {blocks : List Block} {cuts : Cuts}
    (hchoices : ∀ b ∈ preorderList blocks, b.CanTake (choices.taken? b))
    (h : cuts? choices blocks = some cuts) : cuts.toList.head?.map Range.start = some 0 := by
  obtain ⟨ranges, hsliced⟩ := Sliced.exists_of_canTake blocks hchoices
  rw [cuts?, hsliced.cut, Uncut.cut?, Option.some.injEq] at h
  rw [← h, Cuts.first_foldl_add]
  rfl

namespace Cut

open Text (BreakAt StartsAt IsLine lineRanges)

/-- The text on some ranges, read off their offsets. -/
theorem map_flatMap_range' {text : Text} {ls : List Range} (h : ∀ l ∈ ls, l.stop ≤ text.length) :
    (ls.flatMap fun l => List.range' l.start (l.stop - l.start)).map (fun i => text[i]?) =
      (ls.flatMap fun l => text.slice l.start l.stop).map some := by
  rw [List.map_flatMap, List.map_flatMap]
  refine List.flatMap_congr fun l hl => ?_
  have := h l hl
  rcases Nat.le_total l.start l.stop with hle | hle
  · rw [map_range' _ _ _ (by omega), Text.slice]
  · simp [Text.slice, Nat.sub_eq_zero_of_le hle]

/-- A text is that on some ranges if its offsets are those in the ranges. -/
theorem eq_flatMap_slice {text out : Text} {offsets : List Nat} {ls : List Range}
    (hsorted : offsets.Pairwise (· < ·)) (hout : offsets.map (fun i => text[i]?) = out.map some)
    (hordered : ls.Pairwise fun a b => a.stop ≤ b.start) (hbound : ∀ l ∈ ls, l.stop ≤ text.length)
    (hmem : ∀ i, i ∈ offsets ↔ ∃ l ∈ ls, l.Has i) :
    out = ls.flatMap fun l => text.slice l.start l.stop := by
  have hranges : (ls.flatMap fun l => List.range' l.start (l.stop - l.start)).Pairwise (· < ·) := by
    refine List.pairwise_flatMap.2 ⟨fun l _ => List.pairwise_lt_range', ?_⟩
    refine hordered.imp fun hab i hi j hj => ?_
    rw [List.mem_range'_1] at hi hj
    omega
  have hsame : offsets = ls.flatMap fun l => List.range' l.start (l.stop - l.start) := by
    refine hsorted.eq_of_mem_iff hranges fun i => ?_
    rw [hmem, List.mem_flatMap]
    refine exists_congr fun l => and_congr_right fun _ => ?_
    rw [List.mem_range'_1, Range.Has]
    omega
  rw [hsame, map_flatMap_range' hbound] at hout
  exact (List.map_injective_iff.2 (Option.some_injective _) hout).symm

/-- A directive stands on lines of its own: only white space stands before it on its line, and a line
    terminator or the end of the text right after it. -/
structure OwnLines (text : Text) (s : Span) : Prop where
  leads : LeadsLine text s.start
  ends : EndsLine text s.stop

theorem ownLines_of_check {text : Text} {s : Span}
    (hstart : startsLine text (trimLeft text 0 s.start) = true)
    (hstop : s.stop = text.length ∨ skipLineEnd text s.stop ≠ s.stop) : OwnLines text s := by
  refine ⟨leadsLine_of_startsLine hstart, hstop.imp_right fun hskip => ?_⟩
  rcases skipLineEnd_spec text s.stop with hsame | ⟨n, hend, -⟩
  · exact absurd hsame hskip
  · exact ⟨n, hend⟩

section

variable {source : Text} {blocks : List Block} {choices : Choices} {cuts : Cuts}
  (hlaid : Block.Laid source blocks)
  (hends : cuts.Ends (fun i => i = 0 ∨ ∃ s ∈ Block.spans blocks, s.start = i)
    fun i => i = 0 ∨ ∃ s ∈ Block.spans blocks, s.stop = i)
  (hgone : ∀ offset, cuts.Has offset ↔ Block.Gone choices blocks offset)
  (hown : ∀ s ∈ Block.spans blocks, OwnLines source s)

include hends hown in
/-- Cuts of directives on lines of their own take their lines whole. -/
theorem whole_of_ownLines : ∀ c ∈ cuts.toList,
    LeadsLine source c.start ∧ (c.stop = 0 ∨ EndsLine source c.stop) := by
  intro c hc
  obtain ⟨hstart, hstop⟩ := hends c hc
  constructor
  · rcases hstart with hzero | ⟨s, hs, hstart⟩
    · rw [hzero]
      exact ⟨0, Nat.le_refl 0, fun j _ hj => by omega, Or.inl rfl⟩
    · rw [← hstart]
      exact (hown s hs).leads
  · rcases hstop with hzero | ⟨s, hs, hstop⟩
    · exact Or.inl hzero
    · rw [← hstop]
      exact Or.inr (hown s hs).ends

include hlaid hgone in
/-- Nothing of a line that stays is cut. -/
theorem not_has_of_stays {l : Range} (hstays : Block.LineStays source choices blocks l) {i : Nat}
    (hi : l.Has i) : ¬ cuts.Has i := by
  obtain ⟨hspans, hbodies, -⟩ := hstays
  have hfrom := hi.1
  have hto := hi.2
  rw [hgone]
  rintro (⟨s, hs, hstart, hstop⟩ | ⟨b, hb, hun⟩)
  · rcases hspans s hs with hbefore | hafter <;> omega
  · obtain ⟨body, hbody, hstart, hstop⟩ := Block.unselected_iff.1 hun
    obtain ⟨⟨s, hs, hopens⟩, t, ht, hcloses⟩ := Block.lostBodies_between hb hbody
    -- The directives on both sides of the body are not in the line, so all of it is in the body.
    have hsize := hlaid.order.2 s hs
    have hsize' := hlaid.order.2 t ht
    refine hbodies b hb body hbody ⟨?_, ?_⟩
    · rcases hspans s hs with hbefore | hafter <;> omega
    · rcases hspans t ht with hbefore | hafter <;> omega

include hlaid hends in
/-- A line with white space that is trimmed has a directive in it. -/
theorem not_trimmed_of_stays {l : Range} (hl : IsLine source l)
    (hstays : Block.LineStays source choices blocks l) {i : Nat} (hi : l.Has i) :
    ¬ Trimmed source cuts.toList i := by
  rintro ⟨c, hc, hlt, hblank⟩
  rcases (hends c hc).1 with hzero | ⟨s, hs, hstart⟩
  · omega
  · have hcomment := hlaid.comment s hs
    have hsize := hcomment.nonempty
    have hbound := hcomment.bounded
    have hhas : l.Has c.start := hl.has_after hi (Nat.le_of_lt hlt) (by omega) fun k hk hkc =>
      hblank.not_breakAt hk hkc
    have := hhas.1
    have := hhas.2
    rcases hstays.1 s hs with hbefore | hafter <;> omega

include hlaid hends in
/-- A line that a cut ends has a directive in it, or is an empty first line. -/
theorem not_ended_of_stays (hsome : Block.spans blocks ≠ []) {l : Range} (hl : IsLine source l)
    (hstays : Block.LineStays source choices blocks l) {i : Nat} (hi : l.Has i) :
    ¬ Ended source cuts.toList i := by
  rintro ⟨c, hc, -, n, hend, hfrom, hto⟩
  have hmark : ∀ k, c.stop ≤ k → k < i → ¬ BreakAt source k := fun k hk hki =>
    hend.not_breakAt hk (by omega)
  rcases (hends c hc).2 with hzero | ⟨s, hs, hstop⟩
  · have hhas : l.Has 0 := hl.has_before hi (Nat.zero_le i) fun k _ hki => hmark k (by omega) hki
    refine hstays.2.2 ⟨hsome, Nat.le_zero.1 hhas.1, ?_⟩
    rw [hzero] at hend
    cases hend with
    | @pair a b ha _ hcr _ => simp [ha, CodePoint.isLineEnd, hcr]
    | @single a ha hval _ =>
      rw [ha]
      exact isLineEnd_iff.2 hval
  · have hcomment := hlaid.comment s hs
    have hsize := hcomment.nonempty
    obtain ⟨last, hlast, hopen⟩ := hcomment.last
    have hhas : l.Has (s.stop - 1) := by
      refine hl.has_before hi (by omega) fun k hk hki => ?_
      by_cases hk' : c.stop ≤ k
      · exact hmark k hk' hki
      · obtain rfl : k = s.stop - 1 := by omega
        rintro ⟨d, hd, hbreak, -⟩
        rw [hlast, Option.some.injEq] at hd
        rw [← hd, hopen] at hbreak
        cases hbreak
    have := hhas.1
    have := hhas.2
    rcases hstays.1 s hs with hbefore | hafter <;> omega

include hlaid hends hgone hown in
/-- A line that remains stays. -/
theorem stays_of_kept (hready : Ready source 0 cuts.toList)
    (hfirst : cuts.toList.head?.map Range.start = some 0) {l : Range} (hl : IsLine source l)
    {i : Nat} (hi : l.Has i) (hkept : i ∈ kept source 0 cuts.toList) :
    Block.LineStays source choices blocks l := by
  have hwhole : ∀ j, l.Has j → j ∈ kept source 0 cuts.toList := fun j hj =>
    hready.whole (Or.inl (Or.inl rfl)) (whole_of_ownLines hends hown) hl hi hj hkept
  have huncut : ∀ j, l.Has j → ¬ Block.Gone choices blocks j := by
    intro j hj hgonej
    obtain ⟨c, hc, hhas⟩ := (hgone j).2 hgonej
    exact hready.not_cut_of_mem_kept j (hwhole j hj) c hc hhas
  have hsize : l.start < l.stop := Nat.lt_of_le_of_lt hi.1 hi.2
  refine ⟨fun s hs => ?_, fun b hb body hbody hinside => ?_, ?_⟩
  · have hspan := hlaid.order.2 s hs
    by_contra hmeets
    have hj : l.Has (max s.start l.start) := ⟨Nat.le_max_right .., by omega⟩
    refine huncut _ hj (Or.inl ⟨s, hs, Nat.le_max_left .., by omega⟩)
  · refine huncut i hi (Or.inr ⟨b, hb, Block.unselected_iff.2 ⟨body, hbody, ?_⟩⟩)
    exact ⟨Nat.le_trans hinside.1 hi.1, Nat.lt_of_lt_of_le hi.2 hinside.2⟩
  · rintro ⟨-, hzero, hend⟩
    -- The first cut starts with the text, so reading goes on after the line terminator.
    have hmem := hwhole 0 ⟨Nat.le_of_eq hzero, by omega⟩
    cases hlist : cuts.toList with
    | nil => simp [hlist] at hfirst
    | cons c rest =>
      rw [hlist] at hmem hready
      have hstart : c.start = 0 := by simpa [hlist] using hfirst
      rcases List.mem_append.1 hmem with hfront | hlater
      · have := Ready.mem_front hfront
        omega
      · have hresume := hready.resume.le_of_mem_kept 0 hlater
        obtain ⟨n, hmark⟩ := exists_lineEndAt hend
        have hskip := lt_skipLineEnd hmark
        have hstop := stop_le_resume source 0 c
        have hleads : startsLine source (trimLeft source 0 c.start) = true := by
          rw [hstart]
          rfl
        rw [resume, if_pos hleads] at hresume hstop
        have hzero : c.stop = 0 := by omega
        rw [hzero] at hresume
        omega

end

/-- A script without directives is all of its lines. -/
theorem flatMap_lines (source : Text) (choices : Choices) :
    source = ((lineRanges source).filter (Block.LineStays source choices [] ·)).flatMap
      fun l => source.slice l.start l.stop := by
  have hstays : ∀ l ∈ lineRanges source, decide (Block.LineStays source choices [] l) = true := by
    intro l _
    simp [Block.LineStays]
  have hall : (List.range' 0 source.length).Pairwise (· < ·) := List.pairwise_lt_range'
  rw [List.filter_eq_self.2 hstays]
  refine eq_flatMap_slice hall ?_ (Text.lineRanges_ordered source)
    (fun l hl => (Text.isLine_of_mem hl).stop_le) fun i => ?_
  · rw [map_range' _ _ _ (by omega), List.drop_zero, List.take_length]
  · rw [List.mem_range'_1, Nat.zero_add]
    constructor
    · exact fun hi => Text.exists_line hi.2
    · rintro ⟨l, hl, hi⟩
      exact ⟨Nat.zero_le i, Nat.lt_of_lt_of_le hi.2 (Text.isLine_of_mem hl).stop_le⟩

/-- What is emitted for a script whose directives stand on lines of their own is a choice of its
    lines, in order and with their terminators: those that no directive stands in and that do not lie
    in the body of a branch that was not selected; when there are directives, an empty first line
    goes too. -/
theorem emit_filters_lines {source : Text} {blocks : List Block} {choices : Choices}
    (hparse : (Block.parse source).2 = .ok blocks)
    (hchoices : ∀ b ∈ Block.preorderList blocks, b.CanTake (choices.taken? b))
    (hown : ∀ d ∈ Directive.scan source, OwnLines source d.span) :
    ∃ cuts, Block.cuts? choices blocks = some cuts ∧
      emit source cuts =
        ((lineRanges source).filter (Block.LineStays source choices blocks ·)).flatMap
          fun l => source.slice l.start l.stop := by
  obtain ⟨cuts, hcuts, hapart, hends, hgone⟩ := Block.cuts_of_parse hparse hchoices
  refine ⟨cuts, hcuts, ?_⟩
  by_cases hnone : blocks = []
  · subst hnone
    rw [Block.cuts?, Uncut.cut?, Uncut.cut?, Option.some.injEq] at hcuts
    subst hcuts
    exact flatMap_lines source choices
  · have hlaid := Block.parse_laid hparse
    have hready := ready_of_ends hlaid hapart hends
    have hfirst := Block.cuts_first hchoices hcuts
    obtain ⟨b, bs, rfl⟩ := List.exists_cons_of_ne_nil hnone
    have hclosing := Block.closing_mem_spans b bs
    have hsome : Block.spans (b :: bs) ≠ [] := List.ne_nil_of_mem hclosing
    have hnonempty : ¬ cuts.isEmpty = true := by
      intro hempty
      refine Cuts.not_has_of_isEmpty hempty b.closing.start ((hgone _).2 (Or.inl ?_))
      exact ⟨b.closing, hclosing, Nat.le_refl _, hlaid.order.2 _ hclosing⟩
    have hownspans : ∀ s ∈ Block.spans (b :: bs), OwnLines source s := by
      intro s hs
      rw [Block.spans_of_parse hparse] at hs
      obtain ⟨d, hd, rfl⟩ := List.mem_map.1 hs
      exact hown d hd
    rw [emit, if_neg hnonempty]
    refine eq_flatMap_slice hready.kept_sorted hready.map_kept
      ((Text.lineRanges_ordered source).filter _)
      (fun l hl => (Text.isLine_of_mem (List.mem_of_mem_filter hl)).stop_le) fun i => ?_
    simp only [List.mem_filter, decide_eq_true_eq]
    constructor
    · intro hkept
      obtain ⟨l, hl, hi⟩ := Text.exists_line (hready.lt_length_of_mem_kept hkept)
      exact ⟨l, ⟨hl, stays_of_kept hlaid hends hgone hownspans hready hfirst (Text.isLine_of_mem hl)
        hi hkept⟩, hi⟩
    · rintro ⟨l, ⟨hl, hstays⟩, hi⟩
      have hline := Text.isLine_of_mem hl
      have hlt : i < source.length := Nat.lt_of_lt_of_le hi.2 hline.stop_le
      rcases hready.accounted (Nat.zero_le i) hlt with hkept | hcut | htrimmed | hended
      · exact hkept
      · exact absurd hcut (not_has_of_stays hlaid hgone hstays hi)
      · exact absurd htrimmed (not_trimmed_of_stays hlaid hends hline hstays hi)
      · exact absurd hended (not_ended_of_stays hlaid hends hsome hline hstays hi)

/-- A script whose directives stand on lines of their own, after an empty line. -/
def ownLinesSample : Text := "\r\n // #if a\nx\r// #else\ny\n/*\n#endif*/\nz"

theorem emit_filters_lines_sample :
    ∃ blocks, (Block.parse ownLinesSample).2 = .ok blocks ∧
      (∀ b ∈ Block.preorderList blocks, b.CanTake (Choices.taken? [(3, 0)] b)) ∧
      (∀ d ∈ Directive.scan ownLinesSample, OwnLines ownLinesSample d.span) ∧
      ∃ cuts, Block.cuts? [(3, 0)] blocks = some cuts ∧
        emit ownLinesSample cuts = Text.ofString "x\rz" := by
  obtain ⟨blocks, hparse, hcheck⟩ := Block.parse_of_check
    (show (Block.parse ownLinesSample).2.toOption.any (fun blocks =>
        decide (∀ b ∈ Block.preorderList blocks, b.CanTake (Choices.taken? [(3, 0)] b)) &&
        decide (((lineRanges ownLinesSample).filter
          (Block.LineStays ownLinesSample [(3, 0)] blocks ·)).flatMap
            (fun l => ownLinesSample.slice l.start l.stop) = Text.ofString "x\rz")) = true by
      decide +kernel)
  rw [Bool.and_eq_true, decide_eq_true_eq, decide_eq_true_eq] at hcheck
  have hplace : ∀ d ∈ Directive.scan ownLinesSample,
      startsLine ownLinesSample (trimLeft ownLinesSample 0 d.span.start) = true ∧
        (d.span.stop = ownLinesSample.length ∨
          skipLineEnd ownLinesSample d.span.stop ≠ d.span.stop) := by
    decide +kernel
  have hown : ∀ d ∈ Directive.scan ownLinesSample, OwnLines ownLinesSample d.span :=
    fun d hd => ownLines_of_check (hplace d hd).1 (hplace d hd).2
  obtain ⟨cuts, hcuts, hemit⟩ := emit_filters_lines hparse hcheck.1 hown
  exact ⟨blocks, hparse, hcheck.1, hown, cuts, hcuts, hemit.trans hcheck.2⟩

end Cut

end GuardedText
