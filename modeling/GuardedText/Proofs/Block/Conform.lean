import Mathlib.Data.List.Nodup
import GuardedText.Compile
import GuardedText.Proofs.Block.Layout

/-
  Reports that conform to some blocks. Marking succeeds with these and no others, and marks exactly
  the blocks that the report reaches, each with the branch that its entry names, whichever of the
  lists that wait is taken next each time (`Mark.ofReport_exact`).
-/

namespace GuardedText

/-! ## Conforming reports -/

namespace Report

/-- Whether a report names a branch of a block; -1 is one even if there is no `#else`. -/
def isBranchOf (branch : Report) (b : Block) : Bool :=
  (branch.branch?).any fun k : Int => decide (-1 ≤ k ∧ k ≤ b.alternativeCount)

mutual

/-- Whether a report is a list with an entry for each of some blocks that conforms to it. -/
def conforms : Report → List Block → Bool
  | .list entries, bs => conformsAll entries bs
  | _, _ => false

/-- Whether entries conform to blocks, one to each. -/
def conformsAll : List Report → List Block → Bool
  | [], [] => true
  | r :: rs, b :: bs => r.conformsTo b && conformsAll rs bs
  | _, _ => false

/-- Whether an entry names a branch of a block and what it reports, if anything, conforms to the
blocks in the branch, if there are any. -/
def conformsTo : Report → Block → Bool
  | .entry branch children, b =>
    branch.isBranchOf b &&
      (children.isNull || ((branch.branch?).bind b.bodyAt).all fun bs => children.conforms bs)
  | _, _ => false

end

mutual

/-- The blocks that a report reaches, each with the branch that its entry names, in document
order. -/
def reached : Report → List Block → List (Block × Report)
  | .list entries, bs => reachedAll entries bs
  | _, _ => []

/-- What entries reach, each from its block. -/
def reachedAll : List Report → List Block → List (Block × Report)
  | r :: rs, b :: bs => r.reachedFrom b ++ reachedAll rs bs
  | _, _ => []

/-- What an entry reaches: its block and, if it reports anything, what that reaches of the blocks in
the branch that it names. -/
def reachedFrom : Report → Block → List (Block × Report)
  | .entry branch children, b =>
    (b, branch) :: if children.isNull then [] else
      ((branch.branch?).bind b.bodyAt).elim [] fun bs => children.reached bs
  | _, _ => []

end

end Report

/-! ## Blocks that are reached -/

namespace Block

theorem preorderBody_sublist {b : Block} {branch : Int} {bs : List Block}
    (h : b.bodyAt branch = some bs) : (b :: preorderList bs).Sublist b.preorder := by
  obtain ⟨arm, harm, hbody⟩ := Option.bind_eq_some_iff.1 h
  have hmem : preorderBody arm.body ∈ b.arms.map fun arm => preorderBody arm.body :=
    List.mem_map_of_mem (mem_arms_of_armAt harm)
  rw [hbody, preorderBody_some] at hmem
  rw [preorder_eq, List.flatMap_def]
  exact (List.sublist_flatten_of_mem hmem).cons_cons b

end Block

namespace Report

mutual

/-- The blocks that a report reaches are some of the blocks, in order. -/
theorem reached_sublist (r : Report) (bs : List Block) :
    ((r.reached bs).map Prod.fst).Sublist (Block.preorderList bs) := by
  match r with
  | .list entries =>
    rw [reached]
    exact reachedAll_sublist entries bs
  | .null | .bool _ | .number _ | .text _ | .mapping _ | .entry _ _ =>
    rw [reached]
    · exact List.nil_sublist _
    · exact fun _ h => nomatch h

theorem reachedAll_sublist (rs : List Report) (bs : List Block) :
    ((reachedAll rs bs).map Prod.fst).Sublist (Block.preorderList bs) := by
  match rs, bs with
  | r :: rs, b :: bs =>
    rw [reachedAll, List.map_append, Block.preorderList_cons]
    exact (reachedFrom_sublist r b).append (reachedAll_sublist rs bs)
  | [], _ => exact List.nil_sublist _
  | _ :: _, [] => exact List.nil_sublist _

theorem reachedFrom_sublist (r : Report) (b : Block) :
    ((r.reachedFrom b).map Prod.fst).Sublist b.preorder := by
  match r with
  | .entry branch children =>
    rw [reachedFrom, List.map_cons]
    have hself : [b].Sublist b.preorder := List.singleton_sublist.2 b.mem_preorder_self
    split
    · exact hself
    · cases hbody : (branch.branch?).bind b.bodyAt with
      | none => exact hself
      | some bs =>
        obtain ⟨k, -, hk⟩ := Option.bind_eq_some_iff.1 hbody
        exact ((reached_sublist children bs).cons_cons b).trans (Block.preorderBody_sublist hk)
  | .null | .bool _ | .number _ | .text _ | .mapping _ | .list _ =>
    rw [reachedFrom]
    · exact List.nil_sublist _
    · exact fun _ _ h => nomatch h

end

mutual

/-- Every block that a conforming report reaches has the branch that is named. -/
theorem isBranchOf_of_reached (r : Report) (bs : List Block) (h : r.conforms bs = true) :
    ∀ item ∈ r.reached bs, item.2.isBranchOf item.1 = true := by
  match r with
  | .list entries =>
    rw [conforms] at h
    rw [reached]
    exact isBranchOf_of_reachedAll entries bs h
  | .null | .bool _ | .number _ | .text _ | .mapping _ | .entry _ _ => cases h

theorem isBranchOf_of_reachedAll (rs : List Report) (bs : List Block)
    (h : conformsAll rs bs = true) :
    ∀ item ∈ reachedAll rs bs, item.2.isBranchOf item.1 = true := by
  match rs, bs with
  | r :: rs, b :: bs =>
    rw [conformsAll, Bool.and_eq_true] at h
    rw [reachedAll, List.forall_mem_append]
    exact ⟨isBranchOf_of_reachedFrom r b h.1, isBranchOf_of_reachedAll rs bs h.2⟩
  | [], [] => exact List.forall_mem_nil _
  | [], _ :: _ | _ :: _, [] => cases h

theorem isBranchOf_of_reachedFrom (r : Report) (b : Block) (h : r.conformsTo b = true) :
    ∀ item ∈ r.reachedFrom b, item.2.isBranchOf item.1 = true := by
  match r with
  | .entry branch children =>
    rw [conformsTo, Bool.and_eq_true, Bool.or_eq_true] at h
    rw [reachedFrom, List.forall_mem_cons]
    refine ⟨h.1, ?_⟩
    split
    · exact List.forall_mem_nil _
    · rename_i hreports
      cases hbody : (branch.branch?).bind b.bodyAt with
      | none => exact List.forall_mem_nil _
      | some bs =>
        have hinner := h.2.resolve_left hreports
        rw [hbody] at hinner
        exact isBranchOf_of_reached children bs hinner
  | .null | .bool _ | .number _ | .text _ | .mapping _ | .list _ => cases h

end

theorem conformsAll_of_length {rs : List Report} {bs : List Block} (h : rs.length ≠ bs.length) :
    conformsAll rs bs = false := by
  induction rs generalizing bs with
  | nil =>
    cases bs with
    | nil => exact absurd rfl h
    | cons b bs => rfl
  | cons r rs ih =>
    cases bs with
    | nil => rfl
    | cons b bs => rw [conformsAll, ih fun hrest => h (congrArg Nat.succ hrest), Bool.and_false]

end Report

/-! ## Marking one list -/

namespace Mark

/-- The mark of a block that is reached. -/
def made (item : Block × Report) : Mark := ⟨item.1.span, item.2⟩

end Mark

namespace Marking

/-- Blocks that wait to be marked, with what is reported on them. -/
abbrev Task := List Block × Report

/-- Whether what is reported on blocks that wait conforms to them. -/
def conforms (item : Task) : Bool := item.2.conforms item.1

/-- What is reached of blocks that wait. -/
def reached (item : Task) : List (Block × Report) := item.2.reached item.1

theorem bind_ok {α β : Type} {x : Marking α} {f : α → Marking β} {a : α} {marks marks' : List Mark}
    (h : x marks = .ok a marks') : (x >>= f) marks = f a marks' := by
  change EStateM.bind x f marks = _
  rw [EStateM.bind, h]

theorem bind_error {α β : Type} {x : Marking α} {f : α → Marking β} {misfit : Misfit}
    {marks marks' : List Mark} (h : x marks = .error misfit marks') :
    (x >>= f) marks = .error misfit marks' := by
  change EStateM.bind x f marks = _
  rw [EStateM.bind, h]

/-- A block is marked with the branch that its entry names, or the entry is refused. What is
reported on the blocks in it waits. -/
theorem block_outcome (b : Block) (r : Report) (marks : List Mark) :
    (∃ misfit, block b r marks = .error misfit marks ∧ r.conformsTo b = false) ∨
    (∃ branch, block b r marks = .ok () (Mark.made (b, branch) :: marks) ∧
      r.conformsTo b = (nested? b r).toList.all conforms ∧
      r.reachedFrom b = (b, branch) :: (nested? b r).toList.flatMap reached) := by
  cases r with
  | entry branch children =>
    cases hin : branch.isBranchOf b with
    | false =>
      have hnone : Report.conformsTo (.entry branch children) b = false := by
        rw [Report.conformsTo, hin, Bool.false_and]
      refine .inl ⟨.noBranch branch b.span.position.line, ?_, hnone⟩
      rw [block]
      cases hk : branch.branch? with
      | none => rfl
      | some k =>
        rw [Report.isBranchOf, hk, Option.any_some] at hin
        exact congrFun (if_neg (of_decide_eq_false hin)) marks
    | true =>
      refine .inr ⟨branch, ?_, ?_, ?_⟩
      · obtain ⟨k, hk, hbounds⟩ := (Option.any_eq_true ..).1 hin
        rw [block, hk]
        exact congrFun (if_pos (of_decide_eq_true hbounds)) marks
      · rw [Report.conformsTo, hin, Bool.true_and, nested?]
        cases children.isNull with
        | true => rfl
        | false =>
          cases (branch.branch?).bind b.bodyAt with
          | none => rfl
          | some bs => exact (Bool.and_true _).symm
      · rw [Report.reachedFrom, nested?]
        cases children.isNull with
        | true => rfl
        | false =>
          cases (branch.branch?).bind b.bodyAt with
          | none => rfl
          | some bs => exact congrArg _ (List.append_nil _).symm
  | _ => exact .inl ⟨_, rfl, rfl⟩

/-- The entries of some blocks mark them one by one, up to the first that is refused. What they
report on the blocks in these waits. -/
theorem list_outcome {bs : List Block} {entries : List Report}
    (hlength : entries.length = bs.length) (marks : List Mark) :
    (∃ misfit marks', list bs entries marks = .error misfit marks' ∧
      Report.conformsAll entries bs = false) ∨
    (∃ own, list bs entries marks = .ok () ((own.map Mark.made).reverse ++ marks) ∧
      Report.conformsAll entries bs = (nested bs entries).all conforms ∧
      (Report.reachedAll entries bs).Perm (own ++ (nested bs entries).flatMap reached)) := by
  induction bs generalizing entries marks with
  | nil =>
    obtain rfl := List.length_eq_zero_iff.1 hlength
    exact .inr ⟨[], rfl, rfl, .refl []⟩
  | cons b bs ih =>
    cases entries with
    | nil => cases hlength
    | cons r rs =>
      rw [list, Report.conformsAll, Report.reachedAll, nested]
      rcases block_outcome b r marks with
        ⟨misfit, hblock, hnot⟩ | ⟨branch, hblock, hfirst, hreached⟩
      · exact .inl ⟨misfit, marks, bind_error hblock, by rw [hnot, Bool.false_and]⟩
      · rw [bind_ok hblock, hfirst, hreached, List.all_append, List.flatMap_append]
        rcases ih (Nat.succ.inj hlength) (Mark.made (b, branch) :: marks) with
          ⟨misfit, marks', hlist, hnot⟩ | ⟨own, hlist, hrest, hperm⟩
        · exact .inl ⟨misfit, marks', hlist, by rw [hnot, Bool.and_false]⟩
        · refine .inr ⟨(b, branch) :: own, ?_, by rw [hrest], ?_⟩
          · rw [hlist, List.map_cons, List.reverse_cons, List.append_assoc]
            rfl
          · exact ((hperm.append_left _).trans (List.perm_append_comm_assoc ..)).cons _

/-- Marks one of the lists that wait, and gives the lists that it leads to. -/
def one : Task → Marking (List Task)
  | (bs, .list entries) => do
    if entries.length = bs.length then
      list bs entries
      return nested bs entries
    else throw (.malformed (.list entries))
  | (_, r) => throw (.malformed r)

theorem one_ok {item : Task} {found : List Task} {marks marks' : List Mark}
    (h : one item marks = .ok found marks') :
    ∃ bs entries, item = (bs, .list entries) ∧ found = nested bs entries := by
  match item, h with
  | (bs, .list entries), h =>
    refine ⟨bs, entries, rfl, ?_⟩
    rw [one] at h
    by_cases hlength : entries.length = bs.length
    · rw [if_pos hlength] at h
      cases hlist : list bs entries marks with
      | ok _ marks'' =>
        rw [bind_ok hlist] at h
        cases h
        rfl
      | error misfit marks'' =>
        rw [bind_error hlist] at h
        cases h
    · rw [if_neg hlength] at h
      cases h

theorem one_outcome (item : Task) (marks : List Mark) :
    (∃ misfit marks', one item marks = .error misfit marks' ∧ conforms item = false) ∨
    (∃ found own, one item marks = .ok found ((own.map Mark.made).reverse ++ marks) ∧
      conforms item = found.all conforms ∧
      (reached item).Perm (own ++ found.flatMap reached)) := by
  match item with
  | (bs, .list entries) =>
    rw [one, conforms, reached, Report.conforms, Report.reached]
    by_cases hlength : entries.length = bs.length
    · rw [if_pos hlength]
      rcases list_outcome hlength marks with
        ⟨misfit, marks', hlist, hnot⟩ | ⟨own, hlist, hfits, hperm⟩
      · exact .inl ⟨misfit, marks', bind_error hlist, hnot⟩
      · exact .inr ⟨nested bs entries, own, bind_ok hlist, hfits, hperm⟩
    · rw [if_neg hlength]
      exact .inl ⟨_, marks, rfl, Report.conformsAll_of_length hlength⟩
  | (bs, .null) | (bs, .bool _) | (bs, .number _) | (bs, .text _) | (bs, .mapping _)
  | (bs, .entry _ _) => exact .inl ⟨_, marks, rfl, rfl⟩

/-! ## Marking in any order -/

/-- A way to mark the lists that wait, any of which can be taken next: the marks made before it,
what is refused in the end, if anything, and the marks made then. -/
inductive Runs : List Task → List Mark → Option Misfit → List Mark → Prop where
  | done (marks : List Mark) : Runs [] marks none marks
  | refused {work rest : List Task} {item : Task} {misfit : Misfit} {marks marks' : List Mark} :
      work.Perm (item :: rest) →
      one item marks = .error misfit marks' → Runs work marks (some misfit) marks'
  | marked {work rest found : List Task} {item : Task} {verdict : Option Misfit}
      {marks marks' final : List Mark} : work.Perm (item :: rest) →
      one item marks = .ok found marks' → Runs (found ++ rest) marks' verdict final →
      Runs work marks verdict final

/-- Whichever list is taken next, marking succeeds if everything that waits conforms, and then what
is reached has been marked. -/
theorem Runs.exact {work : List Task} {marks final : List Mark} {verdict : Option Misfit}
    (h : Runs work marks verdict final) :
    (verdict = none ↔ work.all conforms = true) ∧
      (verdict = none → final.Perm ((work.flatMap reached).map Mark.made ++ marks)) := by
  induction h with
  | done marks => exact ⟨iff_of_true rfl rfl, fun _ => .refl marks⟩
  | @refused work rest item misfit marks marks' hperm hone =>
    rcases one_outcome item marks with ⟨_, _, -, hnot⟩ | ⟨_, _, hok, -⟩
    · refine ⟨iff_of_false (fun h => nomatch h) ?_, fun h => nomatch h⟩
      rw [hperm.all_eq, List.all_cons, hnot]
      exact Bool.false_ne_true
    · rw [hone] at hok
      cases hok
  | @marked work rest found item verdict marks marks' final hperm hone hruns ih =>
    rcases one_outcome item marks with ⟨_, _, herror, -⟩ | ⟨_, own, hok, hfits, hreached⟩
    · rw [hone] at herror
      cases herror
    · rw [hone] at hok
      cases hok
      rw [hperm.all_eq, List.all_cons, hfits, ← List.all_append]
      refine ⟨ih.1, fun h => (ih.2 h).trans ?_⟩
      -- What a step marks and what then waits to be reached is what waited before it.
      have hwork : (work.flatMap reached).Perm (own ++ (found ++ rest).flatMap reached) := by
        rw [List.flatMap_append, ← List.append_assoc]
        exact (hperm.flatMap_right reached).trans (hreached.append_right _)
      have hmoved : (((found ++ rest).flatMap reached).map Mark.made ++
          ((own.map Mark.made).reverse ++ marks)).Perm
          ((own ++ (found ++ rest).flatMap reached).map Mark.made ++ marks) := by
        rw [List.map_append, List.append_assoc]
        exact (List.perm_append_comm_assoc ..).trans ((List.reverse_perm _).append_right _)
      exact hmoved.trans ((hwork.symm.map Mark.made).append_right marks)

theorem Runs.perm {work others : List Task} {marks final : List Mark} {verdict : Option Misfit}
    (h : Runs work marks verdict final) (hperm : others.Perm work) :
    Runs others marks verdict final := by
  cases h with
  | done marks =>
    obtain rfl := hperm.eq_nil
    exact .done marks
  | refused hnext hone => exact .refused (hperm.trans hnext) hone
  | marked hnext hone hruns => exact .marked (hperm.trans hnext) hone hruns

/-- To take the list found last first is one of the ways. -/
theorem runs_all (work : List Task) (marks : List Mark) :
    match all work marks with
    | .ok _ final => Runs work marks none final
    | .error misfit final => Runs work marks (some misfit) final := by
  induction work using all.induct generalizing marks with
  | case1 =>
    rw [all]
    exact .done marks
  | case2 bs entries rest hlength ih =>
    rw [all, if_pos hlength]
    cases hlist : list bs entries marks with
    | error misfit marks' =>
      rw [bind_error hlist]
      refine .refused (.refl _) ?_
      rw [one, if_pos hlength]
      exact bind_error hlist
    | ok _ marks' =>
      have hone : one (bs, .list entries) marks = .ok (nested bs entries) marks' := by
        rw [one, if_pos hlength]
        exact bind_ok hlist
      have hturn : (nested bs entries ++ rest).Perm ((nested bs entries).reverse ++ rest) :=
        (List.reverse_perm _).symm.append_right rest
      have hrest := ih marks'
      rw [bind_ok hlist]
      cases hall : all ((nested bs entries).reverse ++ rest) marks' with
      | ok _ final =>
        rw [hall] at hrest
        exact .marked (.refl _) hone (hrest.perm hturn)
      | error misfit final =>
        rw [hall] at hrest
        exact .marked (.refl _) hone (hrest.perm hturn)
  | case3 bs entries rest hlength =>
    rw [all, if_neg hlength]
    refine .refused (.refl _) ?_
    rw [one, if_neg hlength]
    rfl
  | case4 bs r rest hr =>
    rw [all]
    · refine .refused (.refl _) ?_
      rw [one]
      · rfl
      · exact hr
    · exact hr

theorem pending_perm {work others : List Task} (h : work.Perm others) :
    pending work = pending others := by
  induction h with
  | nil => rfl
  | cons item h ih =>
    rw [pending, pending] at *
    simp only [List.map_cons, Block.weightBodies_cons, ih]
  | swap item other rest =>
    simp only [pending, List.map_cons, Block.weightBodies_cons]
    omega
  | trans h h' ih ih' => exact ih.trans ih'

/-- No way to mark the lists that wait goes on forever: each list leads to smaller ones. -/
theorem wellFounded_marked : WellFounded fun after before : List Task × List Mark =>
    ∃ item rest found, before.1.Perm (item :: rest) ∧ one item before.2 = .ok found after.2 ∧
      after.1 = found ++ rest := by
  refine Subrelation.wf ?_ (measure fun state : List Task × List Mark => pending state.1).wf
  rintro ⟨work', marks'⟩ ⟨work, marks⟩ ⟨item, rest, found, hperm, hone, rfl⟩
  change pending (found ++ rest) < pending work
  have hless : pending found < pending [item] := by
    obtain ⟨bs, entries, rfl, rfl⟩ := one_ok hone
    have hitem : pending [(bs, Report.list entries)] = Block.weightList bs + 1 := rfl
    exact hitem ▸ Nat.lt_succ_of_le (pending_nested bs entries)
  rw [pending_perm hperm, pending_append, ← List.singleton_append, pending_append]
  omega

end Marking

/-! ## Marking with a report -/

namespace Mark

theorem runs_ofReport (blocks : List Block) (report : Report) :
    Marking.Runs [(blocks, report)] [] (ofReport blocks report).2
      (ofReport blocks report).1.reverse := by
  have hruns := Marking.runs_all [(blocks, report)] []
  unfold ofReport
  cases hall : Marking.all [(blocks, report)] [] with
  | ok _ final =>
    rw [hall] at hruns
    exact (List.reverse_reverse final).symm ▸ hruns
  | error misfit final =>
    rw [hall] at hruns
    exact (List.reverse_reverse final).symm ▸ hruns

theorem lookup_of_mem {choices : Choices} (hdistinct : (choices.map Prod.fst).Nodup) {key : Nat}
    {k : Int} (h : (key, k) ∈ choices) : choices.lookup key = some k := by
  induction choices with
  | nil => simp at h
  | cons first rest ih =>
    obtain ⟨hfirst, hrest⟩ := List.nodup_cons.1 hdistinct
    rcases List.mem_cons.1 h with rfl | h
    · exact List.lookup_cons_self
    · have hne : (key == first.1) = false := by
        rw [beq_eq_false_iff_ne]
        rintro rfl
        exact hfirst (List.mem_map.2 ⟨_, h, rfl⟩)
      rw [List.lookup_cons, hne]
      exact ih hrest h

/-- The order of choices with distinct keys does not matter. -/
theorem lookup_perm {choices others : Choices} (hperm : choices.Perm others)
    (hdistinct : (others.map Prod.fst).Nodup) (key : Nat) :
    choices.lookup key = others.lookup key := by
  cases h : others.lookup key with
  | none =>
    rw [List.lookup_eq_none_iff] at h ⊢
    exact fun item hitem => h item (hperm.mem_iff.1 hitem)
  | some k =>
    obtain ⟨before, after, rfl, -⟩ := List.lookup_eq_some_iff.1 h
    exact lookup_of_mem ((hperm.map Prod.fst).nodup_iff.2 hdistinct) (hperm.mem_iff.2 (by simp))

/-- What the marks amount to for each block, when no two blocks start at the same offset. -/
theorem taken_of_reached {blocks : List Block} {report : Report} {marks : List Mark}
    (hconforms : report.conforms blocks = true)
    (hmarks : marks.Perm ((report.reached blocks).map made))
    (hdistinct : ((Block.preorderList blocks).map Block.start).Nodup) :
    (∀ item ∈ report.reached blocks, (choices marks).taken? item.1 = item.2.branch?) ∧
      ∀ b ∈ Block.preorderList blocks, b ∉ (report.reached blocks).map Prod.fst →
        (choices marks).taken? b = none := by
  have hsublist := report.reached_sublist blocks
  have hkeys : ((choices ((report.reached blocks).map made)).map Prod.fst).Nodup := by
    have hstarts := hdistinct.sublist (hsublist.map Block.start)
    rw [List.map_map] at hstarts
    rw [choices, List.map_map, List.map_map]
    exact hstarts
  have hlookup (b : Block) : (choices marks).taken? b =
      (choices ((report.reached blocks).map made)).lookup b.start :=
    lookup_perm (hmarks.map _) hkeys b.start
  constructor
  · intro item hitem
    obtain ⟨k, hk, -⟩ :=
      (Option.any_eq_true ..).1 (report.isBranchOf_of_reached blocks hconforms item hitem)
    have hmem : (item.1.start, k) ∈ choices ((report.reached blocks).map made) := by
      refine List.mem_map.2 ⟨made item, List.mem_map_of_mem hitem, ?_⟩
      rw [taken, made, hk]
      rfl
    rw [hlookup, lookup_of_mem hkeys hmem, hk]
  · intro b hb hnot
    rw [hlookup, List.lookup_eq_none_iff]
    intro choice hchoice
    obtain ⟨m, hm, rfl⟩ := List.mem_map.1 hchoice
    obtain ⟨item, hitem, rfl⟩ := List.mem_map.1 hm
    rw [bne_iff_ne]
    intro hsame
    have hblock : item.1 ∈ (report.reached blocks).map Prod.fst := List.mem_map_of_mem hitem
    have heq := List.inj_on_of_nodup_map hdistinct hb (hsublist.subset hblock) hsame
    exact hnot (heq ▸ hblock)

end Mark

end GuardedText
