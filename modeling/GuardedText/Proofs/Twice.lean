import GuardedText.Proofs.Cut.Remains
import GuardedText.Proofs.Evaluate
import GuardedText.Proofs.Result
import GuardedText.Proofs.Waiting

/-
  Compiling what was compiled. A text without directives is left alone, and one with directives loses
  their code points (`Cut.length_emit_lt`). So a second run leaves a text alone exactly when no directive
  remains in it, which is so whenever every comment of the text is one of the script. Code points that
  the cuts bring together can make another comment, with a directive in it (`compile_twice_joined`).
-/

namespace GuardedText

/-! ## The branches that a run chooses -/

open Block (preorderList preorderBody)
open Run (told)

theorem canTake_unreached (arms : List Arm) :
    ∀ p ∈ (arms.flatMap fun arm => preorderBody arm.body).zip (unreached arms),
      p.1.CanTake p.2 := by
  intro p hp k hk
  obtain ⟨_, -, hnone⟩ := List.mem_map.1 (List.of_mem_zip hp).2
  rw [hk] at hnone
  cases hnone

namespace Block.Takes

variable {b : Block} {k : Int} {before after : List Arm} {body : Option (List Block)}

theorem canTake (h : b.Takes k before body after) : b.CanTake (some k) := by
  rintro _ ⟨⟩
  have hbounds := h.bounds
  have htested := b.length_tested
  rw [arms_eq, List.length_append, List.length_map]
  omega

/-- A block can take its branch, and each block in it what is told of it. -/
theorem canTake_told (h : b.Takes k before body after) {inner : List (Option Int)}
    (hlength : (preorderBody body).length = inner.length)
    (hinner : ∀ p ∈ (preorderBody body).zip inner, p.1.CanTake p.2) :
    ∀ p ∈ b.preorder.zip (some k :: (told k before after inner).2), p.1.CanTake p.2 := by
  rw [preorder_eq, h.blocks_arms, told, List.zip_cons_cons,
    List.zip_append (length_unreached before).symm, List.zip_append hlength]
  refine List.forall_mem_cons.2 ⟨h.canTake, List.forall_mem_append.2 ⟨canTake_unreached before, ?_⟩⟩
  exact List.forall_mem_append.2 ⟨hinner, canTake_unreached after⟩

end Block.Takes

/-- Each block can take what is told of it. -/
theorem Run.Fits.canTake {bs : List Block} {entries : List Report} {taken : List (Option Int)}
    (h : Run.Fits bs entries taken) : ∀ p ∈ (preorderList bs).zip taken, p.1.CanTake p.2 := by
  induction h with
  | nil => simp
  | @leaf b bs k before after entries taken htakes hrest ih =>
    have hnone : (preorderBody none).length = ([] : List (Option Int)).length := by simp
    rw [Block.preorderList_cons, ← List.cons_append, List.zip_append (htakes.length_told hnone)]
    exact List.forall_mem_append.2 ⟨htakes.canTake_told hnone (by simp), ih⟩
  | @node b bs cs k before after entries nested taken inner htakes hinner hrest ihinner ih =>
    have hbody : (preorderBody (some cs)).length = inner.length := by
      rw [Block.preorderBody_some]
      exact hinner.length_taken
    rw [Block.preorderList_cons, ← List.cons_append, List.zip_append (htakes.length_told hbody)]
    exact List.forall_mem_append.2 ⟨htakes.canTake_told hbody (Block.preorderBody_some cs ▸ ihinner), ih⟩

namespace Compilation

/-- Blocks can take the branches that a run without failure finds for them. -/
theorem canTake_of_evaluate {waiting : Waiting} {context : Ref} {blocks : List Block} {w : World}
    (hdistinct : ((preorderList blocks).map Block.start).Nodup)
    (h : (evaluate waiting context blocks w).2.2.1 = none) :
    ∀ b ∈ preorderList blocks,
      b.CanTake ((Mark.choices (evaluate waiting context blocks w).2.1).taken? b) := by
  unfold evaluate at h ⊢
  dsimp only at h ⊢
  split at h
  · cases h
  · rename_i hwaits
    rw [if_neg hwaits]
    cases hwalk : walk waiting context blocks w with
    | error failure v =>
      rw [runProgram_of_error hwalk] at h
      cases h
    | ok taken v =>
      obtain ⟨entries, hfits, hrun⟩ := runProgram_of_ok hwalk
      obtain ⟨marks, hreport, hmarks⟩ := Mark.ofReport_fits hfits
      have htaken := Mark.taken_choices hmarks hfits.length_taken hdistinct
      have hzip := List.zip_map' (f := id) (g := (Mark.choices marks).taken?)
        (l := preorderList blocks)
      rw [List.map_id, htaken] at hzip
      rw [hrun]
      dsimp only
      rw [hreport]
      intro b hb
      refine hfits.canTake (b, (Mark.choices marks).taken? b) ?_
      rw [hzip]
      exact List.mem_map.2 ⟨b, hb, rfl⟩

end Compilation

/-! ## What remains of a script -/

/-- The offsets of the code points of a script that remain in a text: in order, and none in a
directive. -/
structure Keeps (source : Text) (kept : List Nat) (text : Text) : Prop where
  sorted : kept.Pairwise (· < ·)
  text : kept.map (fun i => source[i]?) = text.map some
  outside : ∀ i ∈ kept, ∀ d ∈ Directive.scan source, ¬ (d.span.start ≤ i ∧ i < d.span.stop)

section

variable {source text : Text}

theorem keeps_self (h : Directive.scan source = []) :
    Keeps source (List.range' 0 source.length) source := by
  refine ⟨List.pairwise_lt_range', ?_, fun i _ d hd => ?_⟩
  · rw [Cut.map_range' _ _ _ (by omega), List.drop_zero, List.take_length]
  · rw [h] at hd
    cases hd

theorem keeps_emit {blocks : List Block} {choices : Choices}
    (hparse : (Block.parse source).2 = .ok blocks)
    (hchoices : ∀ b ∈ preorderList blocks, b.CanTake (choices.taken? b)) :
    ∃ cuts kept, Block.cuts? choices blocks = some cuts ∧
      Keeps source kept (Cut.emit source cuts) := by
  obtain ⟨cuts, hcuts, hapart, hends, hgone⟩ := Block.cuts_of_parse hparse hchoices
  have hready := Cut.ready_of_ends (Block.parse_laid hparse) hapart hends
  have hspan : ∀ d ∈ Directive.scan source, ∀ i, d.span.start ≤ i ∧ i < d.span.stop →
      cuts.Has i := by
    intro d hd i hi
    refine (hgone i).2 (Or.inl ⟨d.span, ?_, hi⟩)
    rw [Block.spans_of_parse hparse]
    exact List.mem_map_of_mem hd
  by_cases hempty : cuts.isEmpty = true
  · refine ⟨cuts, List.range' 0 source.length, hcuts, ?_⟩
    have hnone : Directive.scan source = [] := by
      refine List.eq_nil_iff_forall_not_mem.2 fun d hd => ?_
      have hcomment := Directive.scan_commentAt hd
      exact Cuts.not_has_of_isEmpty hempty _
        (hspan d hd d.span.start ⟨Nat.le_refl _, hcomment.nonempty⟩)
    rw [Cut.emit, if_pos hempty]
    exact keeps_self hnone
  · refine ⟨cuts, Cut.kept source 0 cuts.toList, hcuts, hready.kept_sorted, ?_, ?_⟩
    · rw [Cut.emit, if_neg hempty]
      exact hready.map_kept
    · intro i hi d hd hin
      obtain ⟨c, hc, hhas⟩ := hspan d hd i hin
      exact hready.not_cut_of_mem_kept i hi c hc hhas

/-- A text that is compiled from a script remains of it. -/
theorem exists_keeps {waiting : Waiting} {context : Ref} {w : World}
    (h : (compile waiting context source w).1.result = .ok text) :
    ∃ kept, Keeps source kept text := by
  cases hparse : (Block.parse source).2 with
  | error failure =>
    simp only [compile, hparse] at h
    cases h
  | ok blocks =>
    by_cases hnil : blocks = []
    · rw [compile_nil hparse waiting context w hnil] at h
      cases h
      refine ⟨_, keeps_self ?_⟩
      have hspans := Block.spans_of_parse hparse
      rw [hnil, Block.spans_nil] at hspans
      exact List.map_eq_nil_iff.1 hspans.symm
    · obtain ⟨hresult, -, -⟩ := compile_cons hparse waiting context w hnil
      rw [hresult] at h
      split at h
      · cases h
      · rename_i hnone
        have hchoices := Compilation.canTake_of_evaluate
          (Block.parse_laid hparse).nodup_starts hnone
        obtain ⟨cuts, kept, hcuts, hkeeps⟩ := keeps_emit hparse hchoices
        unfold Compilation.reconstruct at h
        rw [hcuts] at h
        cases h
        exact ⟨kept, hkeeps⟩

namespace Keeps

variable {kept : List Nat} (h : Keeps source kept text)
include h

/-- A script with directives is longer than what remains of it. -/
theorem length_lt {d : Directive} (hd : d ∈ Directive.scan source) :
    text.length < source.length := by
  have hcomment := Directive.scan_commentAt hd
  have hstart : d.span.start < source.length :=
    Nat.lt_of_lt_of_le hcomment.nonempty hcomment.bounded
  have hlength : text.length = kept.length := by
    have := congrArg List.length h.text
    rw [List.length_map, List.length_map] at this
    exact this.symm
  have hfresh : d.span.start ∉ kept := fun hmem =>
    h.outside _ hmem d hd ⟨Nat.le_refl _, hcomment.nonempty⟩
  have hdistinct : (d.span.start :: kept).Nodup :=
    List.nodup_cons.2 ⟨hfresh, h.sorted.imp fun hlt => Nat.ne_of_lt hlt⟩
  have hsubset : d.span.start :: kept ⊆ List.range source.length := by
    refine List.cons_subset.2 ⟨List.mem_range.2 hstart, fun i hi => ?_⟩
    exact List.mem_range.2 (Cut.lt_length_of_mem h.text hi)
  have hle := (List.subperm_of_subset hdistinct hsubset).length_le
  rw [List.length_cons, List.length_range] at hle
  omega

/-- A text holds no directive if each of its comments is one of the script. -/
theorem scan_eq_nil (hcomments : ∀ c ∈ Comment.find text, ∃ c' ∈ Comment.find source,
      kept[c.start]? = some c'.start ∧ c'.text = c.text ∧ c'.block = c.block) :
    Directive.scan text = [] := by
  refine List.eq_nil_iff_forall_not_mem.2 fun d hd => ?_
  unfold Directive.scan at hd
  obtain ⟨c, hc, hdirective⟩ := List.mem_filterMap.1 hd
  obtain ⟨found, hfound, -⟩ := Option.map_eq_some_iff.1 hdirective
  obtain ⟨c', hc', hstart, htext, hblock⟩ := hcomments c hc
  rw [← htext, ← hblock] at hfound
  have hcut : (⟨found.1, ⟨c'.start, c'.stop, Position.locate (Text.lineStarts source) c'.start⟩,
      found.2⟩ : Directive) ∈ Directive.scan source := by
    refine List.mem_filterMap.2 ⟨c', hc', ?_⟩
    rw [hfound]
    rfl
  have hcomment := Directive.scan_commentAt hcut
  exact h.outside _ (List.mem_of_getElem? hstart) _ hcut ⟨Nat.le_refl _, hcomment.nonempty⟩

end Keeps

end

/-! ## A second run -/

/-- A script without directives is left alone. -/
theorem compile_of_scan_nil {source : Text} (h : Directive.scan source = []) (waiting : Waiting)
    (context : Ref) (w : World) :
    (compile waiting context source w).1.result = .ok source ∧
      (compile waiting context source w).1.blocks = [] ∧
      (compile waiting context source w).2 = w := by
  have hparse : (Block.parse source).2 = .ok [] := by
    rw [Block.parse, h]
    rfl
  rw [compile_nil hparse waiting context w rfl]
  exact ⟨rfl, rfl, rfl⟩

/-- A second run, over the text that the first one gave and the world that it left, gives that text
again and leaves the world as it is exactly when the text holds no directive; and it holds none if each
of its comments is a comment of the script. -/
theorem compile_twice {waiting : Waiting} {context : Ref} {source text : Text} {w : World}
    (h : (compile waiting context source w).1.result = .ok text) :
    let w' := (compile waiting context source w).2
    let again := compile waiting context text w'
    (again.1.result = .ok text ∧ again.2 = w' ↔ Directive.scan text = []) ∧
    (Directive.scan text = [] → again.1.blocks = []) ∧
    ∃ kept, Keeps source kept text ∧
      ((∀ c ∈ Comment.find text, ∃ c' ∈ Comment.find source,
        kept[c.start]? = some c'.start ∧ c'.text = c.text ∧ c'.block = c.block) →
        Directive.scan text = []) := by
  intro w' again
  obtain ⟨kept, hkept⟩ := exists_keeps h
  refine ⟨⟨fun hagain => ?_, fun hnone => ?_⟩, fun hnone => ?_, kept, hkept, hkept.scan_eq_nil⟩
  · obtain ⟨kept', hkept'⟩ := exists_keeps hagain.1
    refine List.eq_nil_iff_forall_not_mem.2 fun d hd => ?_
    exact absurd (hkept'.length_lt hd) (Nat.lt_irrefl _)
  · obtain ⟨hresult, -, hworld⟩ := compile_of_scan_nil hnone waiting context w'
    exact ⟨hresult, hworld⟩
  · exact (compile_of_scan_nil hnone waiting context w').2.1

/-- A comment stays in a branch that is taken. -/
theorem compile_twice_comment :
    let first := compile .forbidden 0 "/*#if 1*/x//y\n/*#endif*/" {}
    let second := compile .forbidden 0 "x//y\n" first.2
    first.1.result = .ok "x//y\n" ∧ second.1.result = .ok "x//y\n" ∧ second.2 = first.2 := by
  have hfirst : (compile .forbidden 0 "/*#if 1*/x//y\n/*#endif*/" {}).1.result = .ok "x//y\n" :=
    Except.eq_ok_of_toOption (by decide +kernel)
  have hnone : Directive.scan "x//y\n" = [] :=
    List.isEmpty_iff.1 (by decide +kernel)
  obtain ⟨⟨-, hagain⟩, -⟩ := compile_twice hfirst
  exact ⟨hfirst, hagain hnone⟩

/-- Two slashes that the cut of an `#if` brings together make another comment. -/
theorem compile_twice_joined :
    (compile .forbidden 0 "a / /* #if 1 *// #if X\n// #endif\n" {}).1.result.toOption =
      some "a // #if X\n" ∧
    (compile .forbidden 0 "a // #if X\n"
      (compile .forbidden 0 "a / /* #if 1 *// #if X\n// #endif\n" {}).2).1.result.toOption =
      none := by
  decide +kernel

end GuardedText
