import GuardedText.Proofs.Block.Conform
import GuardedText.Proofs.Block.Walk

/-
  Marking blocks with a report that fits. The report conforms (`Run.Fits.conforms`), so every block
  that was reached is marked once with the branch it took, though not in document order, and the
  report is never refused (`Mark.ofReport_fits`). When no two blocks start at the same offset, the
  choices that the marks amount to are what the walk told (`Mark.taken_choices`).
-/

namespace GuardedText

open Run (Fits told)

/-! ## Marks that are due -/

namespace Mark

/-- The mark of a block that took a branch. -/
def stamp (b : Block) (k : Int) : Mark := ⟨b.span, .number (.int k)⟩

/-- The marks of some blocks, for those of which something is told. -/
def stamps (bs : List Block) (taken : List (Option Int)) : List Mark :=
  (bs.zip taken).filterMap fun item => item.2.map (stamp item.1)

theorem stamps_append {bs cs : List Block} {taken more : List (Option Int)}
    (h : bs.length = taken.length) :
    stamps (bs ++ cs) (taken ++ more) = stamps bs taken ++ stamps cs more := by
  rw [stamps, List.zip_append h, List.filterMap_append]
  rfl

theorem stamps_unreached (arms : List Arm) :
    stamps (arms.flatMap fun arm => Block.preorderBody arm.body) (unreached arms) = [] := by
  rw [stamps, unreached, List.filterMap_eq_nil_iff]
  intro item hitem
  have hnone := (List.of_mem_zip hitem).2
  obtain ⟨_, _, hnone⟩ := List.mem_map.1 hnone
  rw [← hnone]
  rfl

end Mark

theorem length_unreached (arms : List Arm) :
    (unreached arms).length = (arms.flatMap fun arm => Block.preorderBody arm.body).length := by
  rw [unreached, List.length_map]

namespace Block.Takes

variable {b : Block} {k : Int} {before after : List Arm} {body : Option (List Block)}
  {inner : List (Option Int)}

theorem length_told (h : b.Takes k before body after)
    (hinner : (preorderBody body).length = inner.length) :
    b.preorder.length = (some k :: (told k before after inner).2).length := by
  rw [preorder_eq, h.blocks_arms]
  simp [told, length_unreached, hinner]

/-- What is due for a block and those after it is its own mark, what is due for the blocks in the
    branch taken and what is due for those after it. -/
theorem stamps_told (h : b.Takes k before body after)
    (hinner : (preorderBody body).length = inner.length) (bs : List Block)
    (taken : List (Option Int)) :
    Mark.stamps (preorderList (b :: bs)) (some k :: ((told k before after inner).2 ++ taken)) =
      Mark.stamp b k ::
        (Mark.stamps (preorderBody body) inner ++ Mark.stamps (preorderList bs) taken) := by
  have hblock : Mark.stamps b.preorder (some k :: (told k before after inner).2) =
      Mark.stamp b k :: Mark.stamps (preorderBody body) inner := by
    have hrest : Mark.stamps ((before.flatMap fun arm => preorderBody arm.body) ++
        (preorderBody body ++ after.flatMap fun arm => preorderBody arm.body))
        (told k before after inner).2 = Mark.stamps (preorderBody body) inner := by
      rw [told, Mark.stamps_append (length_unreached before).symm, Mark.stamps_append hinner,
        Mark.stamps_unreached, Mark.stamps_unreached, List.append_nil, List.nil_append]
    rw [preorder_eq, h.blocks_arms, ← hrest]
    rfl
  rw [preorderList_cons, ← List.cons_append, Mark.stamps_append (h.length_told hinner), hblock,
    List.cons_append]

end Block.Takes

namespace Run.Fits

variable {bs : List Block} {entries : List Report} {taken : List (Option Int)}

/-- There is something to tell of every block. -/
theorem length_taken (h : Fits bs entries taken) :
    (Block.preorderList bs).length = taken.length := by
  induction h with
  | nil => simp
  | leaf htakes hrest ih =>
    have hnone : (Block.preorderBody none).length = ([] : List (Option Int)).length := by simp
    have hblock := htakes.length_told hnone
    rw [Block.preorderList_cons, ← List.cons_append, List.length_append, List.length_append, hblock,
      ih]
  | node htakes hinner hrest ihinner ih =>
    have hblock := htakes.length_told ((Block.preorderBody_some _).symm ▸ ihinner)
    rw [Block.preorderList_cons, ← List.cons_append, List.length_append, List.length_append, hblock,
      ih]

end Run.Fits

/-- A report that fits conforms, and reaches the blocks of which something is told. -/
theorem Run.Fits.conforms {bs : List Block} {entries : List Report} {taken : List (Option Int)}
    (h : Fits bs entries taken) : Report.conformsAll entries bs = true ∧
      (Report.reachedAll entries bs).map Mark.made = Mark.stamps (Block.preorderList bs) taken := by
  induction h with
  | nil => exact ⟨rfl, rfl⟩
  | @leaf b bs k before after entries taken htakes hrest ih =>
    have hnone : (Block.preorderBody none).length = ([] : List (Option Int)).length := by simp
    have hbranch : Report.isBranchOf (.number (.int k)) b = true := decide_eq_true htakes.bounds
    refine ⟨?_, ?_⟩
    · rw [Report.conformsAll, ih.1, Report.conformsTo, hbranch]
      rfl
    · rw [htakes.stamps_told hnone, Report.reachedAll, List.map_append, ih.2]
      rfl
  | @node b bs cs k before after entries nested taken inner htakes hinner hrest ihinner ih =>
    have hbody : (Block.preorderBody (some cs)).length = inner.length := by
      rw [Block.preorderBody_some]
      exact hinner.length_taken
    have hbranch : Report.isBranchOf (.number (.int k)) b = true := decide_eq_true htakes.bounds
    have hcs : (Report.branch? (.number (.int k))).bind b.bodyAt = some cs := htakes.bodyAt
    refine ⟨?_, ?_⟩
    · rw [Report.conformsAll, ih.1, Report.conformsTo, hbranch, hcs, Option.all_some,
        Report.conforms, ihinner.1]
      rfl
    · rw [htakes.stamps_told hbody, Block.preorderBody_some, Report.reachedAll, List.map_append,
        ih.2, ← ihinner.2, Report.reachedFrom, hcs]
      rfl

namespace Mark

/-- A report that fits is never refused, and gives every block that was reached its mark. -/
theorem ofReport_fits {bs : List Block} {entries : List Report} {taken : List (Option Int)}
    (h : Fits bs entries taken) : ∃ marks, ofReport bs (.list entries) = (marks, none) ∧
      marks.Perm (stamps (Block.preorderList bs) taken) := by
  obtain ⟨hconforms, hreached⟩ := h.conforms
  obtain ⟨hverdict, hmarks⟩ := (runs_ofReport bs (.list entries)).exact
  have hnone : (ofReport bs (.list entries)).2 = none :=
    hverdict.2 ((Bool.and_true _).trans hconforms)
  refine ⟨(ofReport bs (.list entries)).1, Prod.ext rfl hnone, ?_⟩
  have hperm := hmarks hnone
  rw [List.flatMap_cons, List.flatMap_nil, List.append_nil, List.append_nil] at hperm
  exact (List.reverse_perm _).symm.trans (hreached ▸ hperm)

/-! ## Choices -/

theorem choices_stamps_cons (b : Block) (bs : List Block) (t : Option Int)
    (taken : List (Option Int)) :
    choices (stamps (b :: bs) (t :: taken)) =
      (t.map fun k => (b.start, k)).toList ++ choices (stamps bs taken) := by
  cases t <;> rfl

theorem keys_stamps_sublist (bs : List Block) (taken : List (Option Int)) :
    ((choices (stamps bs taken)).map Prod.fst).Sublist (bs.map Block.start) := by
  induction bs generalizing taken with
  | nil => simp [stamps, choices]
  | cons b bs ih =>
    cases taken with
    | nil => simp [stamps, choices]
    | cons t taken =>
      rw [choices_stamps_cons, List.map_append, List.map_cons]
      cases t with
      | none => exact (ih taken).cons _
      | some k => exact (ih taken).cons_cons _

theorem map_lookup_stamps {bs : List Block} {taken : List (Option Int)}
    (hlength : bs.length = taken.length) (hdistinct : (bs.map Block.start).Nodup) :
    bs.map (fun b => (choices (stamps bs taken)).lookup b.start) = taken := by
  induction bs generalizing taken with
  | nil => exact (List.length_eq_zero_iff.1 hlength.symm).symm
  | cons b bs ih =>
    cases taken with
    | nil => simp at hlength
    | cons t taken =>
      obtain ⟨hfirst, hrest⟩ := List.nodup_cons.1 hdistinct
      rw [List.map_cons, choices_stamps_cons]
      refine List.cons_eq_cons.2 ⟨?_, ?_⟩
      · cases t with
        | none =>
          change (choices (stamps bs taken)).lookup b.start = none
          rw [List.lookup_eq_none_iff]
          intro item hitem
          rw [bne_iff_ne]
          intro heq
          rw [heq] at hfirst
          exact hfirst ((keys_stamps_sublist bs taken).subset (List.mem_map.2 ⟨item, hitem, rfl⟩))
        | some k => exact List.lookup_cons_self
      · refine Eq.trans (List.map_congr_left fun c hc => ?_) (ih (by simpa using hlength) hrest)
        have hne : (c.start == b.start) = false := by
          rw [beq_eq_false_iff_ne]
          intro heq
          exact hfirst (heq ▸ List.mem_map.2 ⟨c, hc, rfl⟩)
        cases t with
        | none => rfl
        | some k =>
          change List.lookup c.start ((b.start, k) :: _) = _
          rw [List.lookup_cons, hne]
          rfl

/-- The choices that the marks of a walk amount to are what the walk told. -/
theorem taken_choices {bs : List Block} {taken : List (Option Int)} {marks : List Mark}
    (hmarks : marks.Perm (stamps bs taken)) (hlength : bs.length = taken.length)
    (hdistinct : (bs.map Block.start).Nodup) :
    bs.map (choices marks).taken? = taken := by
  have hkeys := hdistinct.sublist (keys_stamps_sublist bs taken)
  calc bs.map (choices marks).taken?
    _ = bs.map (fun b => (choices (stamps bs taken)).lookup b.start) :=
      List.map_congr_left fun b _ => lookup_perm (hmarks.map _) hkeys b.start
    _ = taken := map_lookup_stamps hlength hdistinct

end Mark

end GuardedText
