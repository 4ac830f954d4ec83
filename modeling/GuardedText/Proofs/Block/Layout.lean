import Mathlib.Data.List.Flatten
import GuardedText.Proofs.Block.Spelling
import GuardedText.Proofs.Comment.Place

/-
  Where the directives of blocks stand. The blocks of a script are spelled by comments that follow
  one another (`Block.parse_laid`). So no two blocks start at the same offset, the branches of a
  block follow one another, and the blocks in a branch stand between its directive and the next one
  of the block (`Block.stands_arms`).
-/

namespace GuardedText

/-- Spans that hold something and follow one another. -/
def InOrder (spans : List Span) : Prop :=
  spans.Pairwise (fun a b => a.stop ≤ b.start) ∧ ∀ s ∈ spans, s.start < s.stop

namespace InOrder

variable {spans others : List Span}

theorem sublist (h : InOrder spans) (hsub : others.Sublist spans) : InOrder others :=
  ⟨h.1.sublist hsub, fun s hs => h.2 s (hsub.subset hs)⟩

theorem append (h : InOrder (spans ++ others)) :
    InOrder spans ∧ InOrder others ∧ ∀ a ∈ spans, ∀ b ∈ others, a.stop ≤ b.start :=
  ⟨h.sublist (List.sublist_append_left spans others),
    h.sublist (List.sublist_append_right spans others), (List.pairwise_append.1 h.1).2.2⟩

theorem nodup_starts (h : InOrder spans) : (spans.map Span.start).Nodup := by
  rw [List.Nodup, List.pairwise_map]
  refine List.Pairwise.imp_of_mem ?_ h.1
  intro a b ha _ hab heq
  have := h.2 a ha
  omega

end InOrder

namespace Block

/-- Where the directives of some blocks stand, in document order. -/
def spans (bs : List Block) : List Span := (piecesList bs).map Piece.span

/-- Where the directives in the body of a branch stand. -/
def spansBody (body : Option (List Block)) : List Span := (piecesBody body).map Piece.span

/-- Where the directives of a branch stand. -/
def armSpans (arm : Arm) : List Span := arm.span :: spansBody arm.body

@[simp] theorem spansBody_none : spansBody none = [] := by simp [spansBody]

@[simp] theorem spansBody_some (bs : List Block) : spansBody (some bs) = spans bs := by
  simp [spansBody, spans]

theorem spans_pieces (b : Block) :
    b.pieces.map Piece.span = b.arms.flatMap armSpans ++ [b.closing] := by
  have hspan : Piece.span = Prod.fst ∘ untagged := rfl
  rw [hspan, ← List.map_map, pieces_eq, List.map_append, List.map_flatMap]
  congr 2
  funext arm
  simp [armPieces, armSpans, spansBody, Function.comp_def, untagged]

@[simp] theorem spans_nil : spans [] = [] := by simp [spans]

theorem spans_cons (b : Block) (bs : List Block) :
    spans (b :: bs) = b.arms.flatMap armSpans ++ [b.closing] ++ spans bs := by
  rw [spans, piecesList_cons, List.map_append, spans_pieces]
  rfl

theorem spans_getD (body : Option (List Block)) : spans (body.getD []) = spansBody body := by
  cases body <;> simp

/-- A directive of some blocks opens a branch of the first one, stands in one of its branches,
    closes it, or belongs to the other blocks. -/
theorem mem_spans_cons {b : Block} {bs : List Block} {s : Span} :
    s ∈ spans (b :: bs) ↔
      (∃ arm ∈ b.arms, s = arm.span ∨ s ∈ spansBody arm.body) ∨ s = b.closing ∨ s ∈ spans bs := by
  simp [spans_cons, armSpans]

theorem closing_mem_spans (b : Block) (bs : List Block) : b.closing ∈ spans (b :: bs) :=
  mem_spans_cons.2 (Or.inr (Or.inl rfl))

/-- The directives of some blocks stand in a script as comments that follow one another. -/
structure Laid (source : Text) (bs : List Block) : Prop where
  order : InOrder (spans bs)
  comment : ∀ s ∈ spans bs, CommentAt source s.start s.stop

/-- The directives of the blocks of a script are those of the script. -/
theorem spans_of_parse {source : Text} {blocks : List Block} (h : (parse source).2 = .ok blocks) :
    spans blocks = (Directive.scan source).map Directive.span := by
  rw [spans, (spelled_of_ofDirectives h).1, List.map_map]
  rfl

/-- The blocks of a script are laid out in it. -/
theorem parse_laid {source : Text} {blocks : List Block} (h : (parse source).2 = .ok blocks) :
    Laid source blocks := by
  have hspans := spans_of_parse h
  have hcomment : ∀ s ∈ spans blocks, CommentAt source s.start s.stop := by
    intro s hs
    rw [hspans] at hs
    obtain ⟨d, hd, rfl⟩ := List.mem_map.1 hs
    exact Directive.scan_commentAt hd
  refine ⟨⟨?_, fun s hs => (hcomment s hs).nonempty⟩, hcomment⟩
  rw [hspans, List.pairwise_map]
  exact Directive.scan_ordered source

/-- A script whose blocks pass a check parses to blocks that do. -/
theorem parse_of_check {source : Text} {check : List Block → Bool}
    (h : (parse source).2.toOption.any check = true) :
    ∃ blocks, (parse source).2 = .ok blocks ∧ check blocks = true := by
  obtain ⟨blocks, hblocks, hcheck⟩ := (Option.any_eq_true check _).1 h
  refine ⟨blocks, ?_, hcheck⟩
  cases hparse : (parse source).2 with
  | error failure =>
    rw [hparse] at hblocks
    cases hblocks
  | ok parsed =>
    rw [hparse] at hblocks
    cases hblocks
    rfl

/-! ## Starts of blocks -/

theorem preorderList_sublist {bs : List Block}
    (h : ∀ b ∈ bs, (b.preorder.map span).Sublist (b.arms.flatMap armSpans ++ [b.closing])) :
    ((preorderList bs).map span).Sublist (spans bs) := by
  induction bs with
  | nil => simp
  | cons b bs ih =>
    obtain ⟨hb, hrest⟩ := List.forall_mem_cons.1 h
    rw [preorderList_cons, List.map_append, spans_cons]
    exact hb.append (ih hrest)

/-- The `#if`s of a block and of the blocks in it are among its directives, in the same order. -/
theorem preorder_sublist (b : Block) :
    (b.preorder.map span).Sublist (b.arms.flatMap armSpans ++ [b.closing]) := by
  induction b using arm_induction with
  | step b ih =>
    have hbody : ∀ arm ∈ b.arms,
        ((preorderBody arm.body).map span).Sublist (spansBody arm.body) := by
      intro arm harm
      cases hbs : arm.body with
      | none => simp
      | some bs =>
        rw [preorderBody_some, spansBody_some]
        exact preorderList_sublist (ih arm harm bs hbs)
    obtain ⟨hfirst, hrest⟩ := List.forall_mem_cons.1 hbody
    rw [preorder_eq, arms, List.flatMap_cons, List.flatMap_cons, List.map_cons, List.map_append,
      List.map_flatMap]
    refine (List.Sublist.cons_cons b.span ?_).trans (List.sublist_append_left _ _)
    refine hfirst.append (List.Sublist.flatMap_right _ fun arm harm => ?_)
    exact (hrest arm harm).cons arm.span

/-- No two blocks of a script start at the same offset. -/
theorem Laid.nodup_starts {source : Text} {blocks : List Block} (h : Laid source blocks) :
    ((preorderList blocks).map start).Nodup := by
  have hsub := preorderList_sublist fun b (_ : b ∈ blocks) => b.preorder_sublist
  have hstart : start = Span.start ∘ span := rfl
  rw [hstart, ← List.map_map]
  exact h.order.nodup_starts.sublist (hsub.map Span.start)

/-! ## Branches in order -/

/-- Where the directive with a number of some branches starts; after the last one the `#endif`. -/
def station (arms : List Arm) (closing : Span) (j : Nat) : Nat :=
  (arms[j]?).elim closing.start (·.span.start)

theorem start_eq_station (b : Block) : b.start = station b.arms b.closing 0 := rfl

theorem station_mem (arms : List Arm) (closing : Span) (j : Nat) :
    ∃ s ∈ arms.flatMap armSpans ++ [closing], s.start = station arms closing j := by
  cases harm : arms[j]? with
  | none => exact ⟨closing, by simp, by simp [station, harm]⟩
  | some arm =>
    refine ⟨arm.span, List.mem_append_left _ (List.mem_flatMap.2 ⟨arm, ?_, ?_⟩), ?_⟩
    · exact List.mem_of_getElem? harm
    · exact List.mem_cons_self
    · simp [station, harm]

theorem station_mem_spans (b : Block) (bs : List Block) (j : Nat) :
    ∃ s ∈ spans (b :: bs), s.start = station b.arms b.closing j := by
  obtain ⟨s, hs, hstart⟩ := station_mem b.arms b.closing j
  exact ⟨s, spans_cons b bs ▸ List.mem_append_left _ hs, hstart⟩

/-- A branch of a block: its directive holds something, and the blocks in it follow one another
    between its directive and the next one of the block. -/
structure Stands (arm : Arm) (next : Nat) : Prop where
  nonempty : arm.span.start < arm.span.stop
  ended : arm.span.stop ≤ next
  order : InOrder (spansBody arm.body)
  inside : ∀ s ∈ spansBody arm.body, arm.span.stop ≤ s.start ∧ s.stop ≤ next

theorem stands_arms {arms : List Arm} {closing : Span} :
    InOrder (arms.flatMap armSpans ++ [closing]) → ∀ {j : Nat} {arm : Arm},
    arms[j]? = some arm → Stands arm (station arms closing (j + 1)) := by
  induction arms with
  | nil => intro _ j arm harm; simp at harm
  | cons first rest ih =>
    intro h j arm harm
    rw [List.flatMap_cons, List.append_assoc] at h
    obtain ⟨hfirst, hrest, hbetween⟩ := h.append
    cases j with
    | succ j => exact ih hrest harm
    | zero =>
      obtain rfl : first = arm := by simpa using harm
      obtain ⟨s, hs, hstation⟩ := station_mem rest closing 0
      have hnext : ∀ t ∈ armSpans first, t.stop ≤ station rest closing 0 := by
        intro t ht
        rw [← hstation]
        exact hbetween t ht s hs
      obtain ⟨hinside, hordered⟩ := List.pairwise_cons.1 hfirst.1
      refine ⟨hfirst.2 _ List.mem_cons_self, hnext _ List.mem_cons_self,
        hfirst.sublist (List.sublist_cons_self _ _), fun t ht => ⟨hinside t ht, ?_⟩⟩
      exact hnext t (List.mem_cons_of_mem _ ht)

theorem station_of_arm {arms : List Arm} {closing : Span} {j : Nat} {arm : Arm}
    (h : arms[j]? = some arm) : station arms closing j = arm.span.start := by
  rw [station, h]
  rfl

theorem station_end (arms : List Arm) (closing : Span) :
    station arms closing arms.length = closing.start := by
  rw [station, List.getElem?_eq_none (Nat.le_refl _)]
  rfl

theorem station_mono {arms : List Arm} {closing : Span}
    (h : InOrder (arms.flatMap armSpans ++ [closing])) {i j : Nat} (hij : i ≤ j)
    (hj : j ≤ arms.length) : station arms closing i ≤ station arms closing j := by
  induction hij with
  | refl => exact Nat.le_refl _
  | @step j hij ih =>
    have harm := List.getElem?_eq_getElem (show j < arms.length by omega)
    have hstands := stands_arms h harm
    calc station arms closing i
      _ ≤ station arms closing j := ih (by omega)
      _ = arms[j].span.start := station_of_arm harm
      _ ≤ arms[j].span.stop := Nat.le_of_lt hstands.nonempty
      _ ≤ station arms closing (j + 1) := hstands.ended

theorem station_le_closing {arms : List Arm} {closing : Span}
    (h : InOrder (arms.flatMap armSpans ++ [closing])) {j : Nat} (hj : j ≤ arms.length) :
    station arms closing j ≤ closing.start :=
  station_end arms closing ▸ station_mono h hj (Nat.le_refl _)

/-- What stands from one directive of a block to another stands in the branches between. -/
theorem exists_arm_of_station {arms : List Arm} {closing : Span} {i j offset : Nat} (hij : i ≤ j)
    (hj : j ≤ arms.length) (hfrom : station arms closing i ≤ offset)
    (hto : offset < station arms closing j) :
    ∃ k arm, i ≤ k ∧ k < j ∧ arms[k]? = some arm ∧ arm.span.start ≤ offset ∧
      offset < station arms closing (k + 1) := by
  induction hij with
  | refl => omega
  | @step j hij ih =>
    have harm := List.getElem?_eq_getElem (show j < arms.length by omega)
    by_cases hlast : offset < station arms closing j
    · obtain ⟨k, arm, hik, hkj, hk⟩ := ih (by omega) hlast
      exact ⟨k, arm, hik, by omega, hk⟩
    · rw [station_of_arm harm] at hlast
      exact ⟨j, _, hij, by omega, harm, by omega, hto⟩

end Block

end GuardedText
