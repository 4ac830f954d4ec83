import GuardedText.Cut.Emit
import GuardedText.Proofs.Block.Cuts

/-
  What remains of a text loses no code. The offsets that remain are listed by `Cut.kept`; the text
  that remains is read off them (`Cut.Ready.map_kept`). Reading never goes past the start of the
  next cut (`Cut.Ready.resume`), because a cut starts with a slash and a line terminator holds none.
  So the offsets are in order, none is cut, and whatever else is left out is white space right before
  a cut or one line terminator right after it (`Cut.Ready.accounted`).
-/

namespace GuardedText.Cut

/-! ## Trimming -/

theorem trimLeft_le (text : Text) (limit stop : Nat) : trimLeft text limit stop ≤ stop := by
  induction stop with
  | zero => exact Nat.le_refl 0
  | succ stop ih =>
    rw [trimLeft]
    split
    · exact Nat.le_succ_of_le ih
    · exact Nat.le_refl _

theorem le_trimLeft {text : Text} {limit stop : Nat} (h : limit ≤ stop) :
    limit ≤ trimLeft text limit stop := by
  induction stop with
  | zero => exact h
  | succ stop ih =>
    rw [trimLeft]
    split
    · rename_i hmore
      exact ih (Nat.le_of_lt_succ hmore.1)
    · exact h

/-- White space runs from one offset up to another. -/
def Blank (text : Text) (start stop : Nat) : Prop :=
  ∀ j, start ≤ j → j < stop → ∃ c, text[j]? = some c ∧ c.isHorizontal = true

theorem blank_trimLeft (text : Text) (limit stop : Nat) :
    Blank text (trimLeft text limit stop) stop := by
  induction stop with
  | zero => intro j _ hj; omega
  | succ stop ih =>
    intro j hfrom hj
    rw [trimLeft] at hfrom
    split at hfrom
    · rename_i hmore
      rcases Nat.lt_succ_iff_lt_or_eq.1 hj with hj | rfl
      · exact ih j hfrom hj
      · simpa [Option.any_eq_true] using hmore.2
    · omega

/-! ## Line terminators -/

/-- A line terminator of `n` code points stands at an offset: CR LF, or LF, CR, LS or PS. -/
inductive LineEndAt (text : Text) (offset : Nat) : Nat → Prop where
  | pair {c d : CodePoint} : text[offset]? = some c → text[offset + 1]? = some d →
      c.val = 0x0D → d.val = 0x0A → LineEndAt text offset 2
  | single {c : CodePoint} : text[offset]? = some c → c.val ∈ [0x0A, 0x0D, 0x2028, 0x2029] →
      (∀ d, text[offset + 1]? = some d → ¬ (c.val = 0x0D ∧ d.val = 0x0A)) → LineEndAt text offset 1

/-- A line starts at an offset, or with white space before it. -/
def LeadsLine (text : Text) (offset : Nat) : Prop :=
  ∃ start ≤ offset, Blank text start offset ∧
    (start = 0 ∨ ∃ c, text[start - 1]? = some c ∧ c.val ∈ [0x0A, 0x0D, 0x2028, 0x2029])

theorem isLineEnd_iff {c : CodePoint} :
    c.isLineEnd = true ↔ c.val ∈ [0x0A, 0x0D, 0x2028, 0x2029] := by
  simp [CodePoint.isLineEnd, or_assoc]

theorem leadsLine_of_startsLine {text : Text} {limit offset : Nat}
    (h : startsLine text (trimLeft text limit offset) = true) : LeadsLine text offset := by
  refine ⟨_, trimLeft_le text limit offset, blank_trimLeft text limit offset, ?_⟩
  cases hstart : trimLeft text limit offset with
  | zero => exact Or.inl rfl
  | succ start =>
    rw [hstart, startsLine, Option.any_eq_true] at h
    obtain ⟨c, hc, hend⟩ := h
    exact Or.inr ⟨c, hc, isLineEnd_iff.1 hend⟩

theorem skipLineEnd_spec (text : Text) (offset : Nat) :
    skipLineEnd text offset = offset ∨
      ∃ n, LineEndAt text offset n ∧ skipLineEnd text offset = offset + n := by
  unfold skipLineEnd
  split
  · rename_i c d hc hd
    split
    · rename_i hpair
      rw [Bool.and_eq_true, beq_iff_eq, beq_iff_eq] at hpair
      exact Or.inr ⟨2, .pair hc hd hpair.1 hpair.2, rfl⟩
    · rename_i hpair
      split
      · rename_i hend
        refine Or.inr ⟨1, .single hc (isLineEnd_iff.1 hend) fun e he => ?_, rfl⟩
        rw [hd, Option.some.injEq] at he
        subst he
        simpa using hpair
      · exact Or.inl rfl
  · rename_i c hc hd
    split
    · rename_i hend
      exact Or.inr ⟨1, .single hc (isLineEnd_iff.1 hend) (by simp [hd]), rfl⟩
    · exact Or.inl rfl
  · exact Or.inl rfl

/-- Reading goes on right after a cut, or after the line terminator there if the cut leads a
    line. -/
theorem resume_spec (text : Text) (offset : Nat) (cut : Range) :
    resume text offset cut = cut.stop ∨
      ∃ n, LineEndAt text cut.stop n ∧ LeadsLine text cut.start ∧
        resume text offset cut = cut.stop + n := by
  unfold resume
  split
  · rename_i hstart
    rcases skipLineEnd_spec text cut.stop with hsame | ⟨n, hend, hskip⟩
    · exact Or.inl hsame
    · exact Or.inr ⟨n, hend, leadsLine_of_startsLine hstart, hskip⟩
  · exact Or.inl rfl

/-! ## Reading -/

/-- Reading a text from an offset, with the cuts that follow. -/
structure Ready (text : Text) (offset : Nat) (cuts : List Range) : Prop where
  ahead : ∀ c ∈ cuts, offset ≤ c.start
  gaps : cuts.Pairwise fun a b => a.stop < b.start
  ranges : ∀ c ∈ cuts, c.start ≤ c.stop ∧ c.stop ≤ text.length
  slash : ∀ c ∈ cuts, c.start = 0 ∨ text[c.start]? = some CodePoint.slash

theorem stop_le_resume (text : Text) (offset : Nat) (cut : Range) :
    cut.stop ≤ resume text offset cut := by
  rcases resume_spec text offset cut with hstop | ⟨n, -, -, hstop⟩ <;> omega

/-- Reading goes on before the next cut: a line terminator holds no slash. -/
theorem Ready.resume {text : Text} {offset : Nat} {cut : Range} {cuts : List Range}
    (h : Ready text offset (cut :: cuts)) : Ready text (resume text offset cut) cuts := by
  obtain ⟨hnext, hgaps⟩ := List.pairwise_cons.1 h.gaps
  refine ⟨fun c hc => ?_, hgaps, fun c hc => h.ranges c (List.mem_cons_of_mem _ hc),
    fun c hc => h.slash c (List.mem_cons_of_mem _ hc)⟩
  have hlt := hnext c hc
  rcases resume_spec text offset cut with hstop | ⟨n, hend, -, hstop⟩
  · omega
  · cases hend with
    | single => omega
    | @pair a b ha hb hcr hlf =>
      have hne : c.start ≠ cut.stop + 1 := by
        intro heq
        rcases h.slash c (List.mem_cons_of_mem _ hc) with hzero | hslash
        · omega
        · rw [heq, hb, Option.some.injEq] at hslash
          rw [hslash] at hlf
          exact absurd hlf (by decide)
      omega

/-- The offsets of a text that remain. -/
def kept (text : Text) (offset : Nat) : List Range → List Nat
  | [] => List.range' offset (text.length - offset)
  | cut :: cuts =>
    List.range' offset (trimLeft text offset cut.start - offset) ++
      kept text (resume text offset cut) cuts

theorem map_range' (text : Text) (offset n : Nat) (h : offset + n ≤ text.length) :
    (List.range' offset n).map (fun i => text[i]?) = ((text.drop offset).take n).map some := by
  induction n generalizing offset with
  | zero => simp
  | succ n ih =>
    have hlt : offset < text.length := by omega
    rw [List.range'_succ, List.map_cons, ih (offset + 1) (by omega), List.drop_eq_getElem_cons hlt,
      List.take_succ_cons, List.map_cons, List.getElem?_eq_getElem hlt]

/-- Offsets at which a text is read are offsets of it. -/
theorem lt_length_of_mem {text out : Text} {kept : List Nat}
    (h : kept.map (fun i => text[i]?) = out.map some) {i : Nat} (hi : i ∈ kept) :
    i < text.length := by
  have hmem : text[i]? ∈ kept.map fun i => text[i]? := List.mem_map.2 ⟨i, hi, rfl⟩
  rw [h] at hmem
  obtain ⟨c, -, hc⟩ := List.mem_map.1 hmem
  exact (List.getElem?_eq_some_iff.1 hc.symm).1

namespace Ready

variable {text : Text} {offset : Nat} {cuts : List Range}

/-- What remains is read off the offsets that remain. -/
theorem map_kept (h : Ready text offset cuts) :
    (kept text offset cuts).map (fun i => text[i]?) = (remains text offset cuts).map some := by
  induction cuts generalizing offset with
  | nil =>
    rw [kept, remains]
    rcases Nat.le_total offset text.length with hle | hle
    · rw [map_range' _ _ _ (by omega), List.take_of_length_le (Nat.le_of_eq List.length_drop)]
    · rw [List.drop_eq_nil_of_le hle, Nat.sub_eq_zero_of_le hle]
      rfl
  | cons cut cuts ih =>
    have hcut := h.ahead cut List.mem_cons_self
    have hrange := h.ranges cut List.mem_cons_self
    have hfrom : offset ≤ trimLeft text offset cut.start := le_trimLeft hcut
    have hto := trimLeft_le text offset cut.start
    rw [kept, remains, List.map_append, List.map_append, ih h.resume, Text.slice,
      map_range' _ _ _ (by omega)]

/-- Offsets that are read before a cut. -/
theorem mem_front {i : Nat} {cut : Range}
    (hi : i ∈ List.range' offset (trimLeft text offset cut.start - offset)) :
    offset ≤ i ∧ i < cut.start := by
  have := trimLeft_le text offset cut.start
  rw [List.mem_range'_1] at hi
  omega

theorem le_of_mem_kept (h : Ready text offset cuts) : ∀ i ∈ kept text offset cuts, offset ≤ i := by
  induction cuts generalizing offset with
  | nil =>
    intro i hi
    rw [kept, List.mem_range'_1] at hi
    exact hi.1
  | cons cut cuts ih =>
    intro i hi
    have hcut := h.ahead cut List.mem_cons_self
    have := (h.ranges cut List.mem_cons_self).1
    have := stop_le_resume text offset cut
    rcases List.mem_append.1 hi with hi | hi
    · exact (mem_front hi).1
    · have := ih h.resume i hi
      omega

/-- The offsets that remain are in order. -/
theorem kept_sorted (h : Ready text offset cuts) : (kept text offset cuts).Pairwise (· < ·) := by
  induction cuts generalizing offset with
  | nil => exact List.pairwise_lt_range'
  | cons cut cuts ih =>
    refine List.pairwise_append.2 ⟨List.pairwise_lt_range', ih h.resume, fun i hi j hj => ?_⟩
    have := (mem_front hi).2
    have := (h.ranges cut List.mem_cons_self).1
    have := stop_le_resume text offset cut
    have := h.resume.le_of_mem_kept j hj
    omega

/-- No offset that remains is cut. -/
theorem not_cut_of_mem_kept (h : Ready text offset cuts) :
    ∀ i ∈ kept text offset cuts, ∀ c ∈ cuts, ¬ c.Has i := by
  induction cuts generalizing offset with
  | nil => simp
  | cons cut cuts ih =>
    intro i hi c hc hhas
    have hgap := (List.pairwise_cons.1 h.gaps).1
    have hcut := h.ahead cut List.mem_cons_self
    have := (h.ranges cut List.mem_cons_self).1
    have := stop_le_resume text offset cut
    rcases List.mem_append.1 hi with hi | hi
    · have hbefore := (mem_front hi).2
      rcases List.mem_cons.1 hc with rfl | hc
      · exact Nat.not_le_of_lt hbefore hhas.1
      · have := hgap c hc
        have := hhas.1
        omega
    · rcases List.mem_cons.1 hc with rfl | hc
      · have := h.resume.le_of_mem_kept i hi
        have := hhas.2
        omega
      · exact ih h.resume i hi c hc hhas

/-- Reading never goes past the start of the next cut. -/
theorem foldl_resume {before : List Range} (h : Ready text offset (before ++ cuts)) :
    Ready text (before.foldl (Cut.resume text) offset) cuts := by
  induction before generalizing offset with
  | nil => exact h
  | cons cut before ih => exact ih h.resume

end Ready

/-- An offset of white space in the run that ends at a cut. -/
def Trimmed (text : Text) (cuts : List Range) (i : Nat) : Prop :=
  ∃ c ∈ cuts, i < c.start ∧ Blank text i c.start

/-- An offset in the line terminator after a cut that leads a line. -/
def Ended (text : Text) (cuts : List Range) (i : Nat) : Prop :=
  ∃ c ∈ cuts, LeadsLine text c.start ∧ ∃ n, LineEndAt text c.stop n ∧ c.stop ≤ i ∧ i < c.stop + n

namespace Ready

variable {text : Text} {offset : Nat} {cuts : List Range}

/-- Every offset from here on remains, is cut, is trimmed before a cut or ends the line of one. -/
theorem accounted (h : Ready text offset cuts) {i : Nat} (hfrom : offset ≤ i)
    (hto : i < text.length) :
    i ∈ kept text offset cuts ∨ (∃ c ∈ cuts, c.Has i) ∨ Trimmed text cuts i ∨
      Ended text cuts i := by
  induction cuts generalizing offset with
  | nil =>
    left
    rw [kept, List.mem_range'_1]
    omega
  | cons cut cuts ih =>
    have hmem : cut ∈ cut :: cuts := List.mem_cons_self
    by_cases hlater : Cut.resume text offset cut ≤ i
    · rcases ih h.resume hlater with hkept | ⟨c, hc, hhas⟩ | ⟨c, hc, htrim⟩ | ⟨c, hc, hend⟩
      · exact Or.inl (List.mem_append_right _ hkept)
      · exact Or.inr (Or.inl ⟨c, List.mem_cons_of_mem _ hc, hhas⟩)
      · exact Or.inr (Or.inr (Or.inl ⟨c, List.mem_cons_of_mem _ hc, htrim⟩))
      · exact Or.inr (Or.inr (Or.inr ⟨c, List.mem_cons_of_mem _ hc, hend⟩))
    · by_cases hstop : cut.stop ≤ i
      · rcases resume_spec text offset cut with hsame | ⟨n, hend, hleads, hresume⟩
        · omega
        · exact Or.inr (Or.inr (Or.inr ⟨cut, hmem, hleads, n, hend, hstop, by omega⟩))
      · by_cases hstart : cut.start ≤ i
        · exact Or.inr (Or.inl ⟨cut, hmem, hstart, by omega⟩)
        · by_cases htrim : trimLeft text offset cut.start ≤ i
          · refine Or.inr (Or.inr (Or.inl ⟨cut, hmem, by omega, fun j hij hj => ?_⟩))
            exact blank_trimLeft text offset cut.start j (Nat.le_trans htrim hij) hj
          · refine Or.inl (List.mem_append_left _ ?_)
            rw [List.mem_range'_1]
            omega

end Ready

/-- Cuts of blocks are ready to be read from the start of their script. -/
theorem ready_of_ends {source : Text} {blocks : List Block} {cuts : Cuts}
    (hlaid : Block.Laid source blocks) (hapart : cuts.Apart)
    (hends : cuts.Ends (fun i => i = 0 ∨ ∃ s ∈ Block.spans blocks, s.start = i)
      fun i => i = 0 ∨ ∃ s ∈ Block.spans blocks, s.stop = i) :
    Ready source 0 cuts.toList := by
  refine ⟨fun c _ => Nat.zero_le _, hapart.gaps, fun c hc => ⟨hapart.ranges c hc, ?_⟩,
    fun c hc => ?_⟩
  · rcases (hends c hc).2 with hzero | ⟨s, hs, hstop⟩
    · omega
    · rw [← hstop]
      exact (hlaid.comment s hs).bounded
  · rcases (hends c hc).1 with hzero | ⟨s, hs, hstart⟩
    · exact Or.inl hzero
    · rw [← hstart]
      exact Or.inr (hlaid.comment s hs).slash

/-- What is emitted loses no code: the code points that remain are in order and none is cut, and
    every other one that is not cut is white space in the run before a cut, or in the line
    terminator after a cut that leads a line. Reading never goes past the start of the next cut. -/
theorem emit_loses_no_code {source : Text} {blocks : List Block} {choices : Choices}
    (hparse : (Block.parse source).2 = .ok blocks)
    (hchoices : ∀ b ∈ Block.preorderList blocks, b.CanTake (choices.taken? b)) :
    ∃ cuts, Block.cuts? choices blocks = some cuts ∧
      (∃ kept : List Nat, kept.Pairwise (· < ·) ∧
        kept.map (fun i => source[i]?) = (emit source cuts).map some ∧
        (∀ i ∈ kept, ¬ cuts.Has i) ∧
        ∀ i < source.length, ¬ cuts.Has i → i ∉ kept →
          Trimmed source cuts.toList i ∨ Ended source cuts.toList i) ∧
      ∀ before cut after, cuts.toList = before ++ cut :: after →
        before.foldl (resume source) 0 ≤ cut.start := by
  obtain ⟨cuts, hcuts, hapart, hends, -⟩ := Block.cuts_of_parse hparse hchoices
  have hready := ready_of_ends (Block.parse_laid hparse) hapart hends
  refine ⟨cuts, hcuts, ?_, fun before cut after hsplit => ?_⟩
  · unfold emit
    split
    · rename_i hempty
      refine ⟨List.range' 0 source.length, List.pairwise_lt_range', ?_,
        fun i _ => Cuts.not_has_of_isEmpty hempty i, fun i hi _ hkept => ?_⟩
      · rw [map_range' _ _ _ (by omega), List.drop_zero, List.take_length]
      · exact absurd (List.mem_range'_1.2 ⟨Nat.zero_le i, by omega⟩) hkept
    · refine ⟨kept source 0 cuts.toList, hready.kept_sorted, hready.map_kept, ?_, ?_⟩
      · rintro i hi ⟨c, hc, hhas⟩
        exact hready.not_cut_of_mem_kept i hi c hc hhas
      · intro i hi hcut hkept
        rcases hready.accounted (Nat.zero_le i) hi with h | h | h
        · exact absurd h hkept
        · exact absurd h hcut
        · exact h
  · rw [hsplit] at hready
    exact hready.foldl_resume.ahead cut List.mem_cons_self

/-- A directive on a line of its own, with white space before it. -/
theorem emit_loses_no_code_lines :
    ∃ blocks, (Block.parse " /*#if a*/\nx\n /*#endif*/\ny").2 = .ok blocks ∧
      (∀ b ∈ Block.preorderList blocks, b.CanTake (Choices.taken? [(1, 0)] b)) ∧
      ∃ cuts, Block.cuts? [(1, 0)] blocks = some cuts ∧
        ∀ before cut after, cuts.toList = before ++ cut :: after →
          before.foldl (resume " /*#if a*/\nx\n /*#endif*/\ny") 0 ≤ cut.start := by
  obtain ⟨blocks, hparse, hcheck⟩ := Block.parse_of_check
    (show (Block.parse " /*#if a*/\nx\n /*#endif*/\ny").2.toOption.any (fun blocks =>
      decide (∀ b ∈ Block.preorderList blocks, b.CanTake (Choices.taken? [(1, 0)] b))) = true by
      decide +kernel)
  have hchoices := of_decide_eq_true hcheck
  obtain ⟨cuts, hcuts, -, hread⟩ := emit_loses_no_code hparse hchoices
  exact ⟨blocks, hparse, hchoices, cuts, hcuts, hread⟩

end GuardedText.Cut
