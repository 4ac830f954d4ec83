import GuardedText.Proofs.Block.Reading

/-
  What was read spells out the directives that were met. The stack of open blocks and the stack of
  branches stay level with each other, the branches of every open block are an `#if`, then
  `#elseif`s, then perhaps an `#else`, and flattened in order they are the directives so far
  (`Reading.Spells`). Every step keeps this (`CleanStep.spells`), so a whole reading does, and the
  directives that form blocks are exactly those of the grammar
  (`Block.ofDirectives_accepts_forests`).
-/

namespace GuardedText

/-! ## Branches of an open block -/

/-- The branches of an open block, the latest first, and whether the latest is that of an `#else`. -/
inductive LaidOut : Bool → List Scope → Prop where
  | opening (inner : Option (List Block)) : LaidOut false [⟨.opening, inner⟩]
  | alternative {scopes : List Scope} (test : Test) (inner : Option (List Block)) :
      LaidOut false scopes → LaidOut false (⟨.alternative test, inner⟩ :: scopes)
  | fallback {scopes : List Scope} (span : Span) (inner : Option (List Block)) :
      LaidOut false scopes → LaidOut true (⟨.fallback span, inner⟩ :: scopes)

/-- The directive that opened a branch of the block with this `#if`. -/
def Head.piece (opening : Test) : Head → Piece
  | .opening => ⟨.ifTag, opening.span, some opening.guard⟩
  | .alternative test => ⟨.elseifTag, test.span, some test.guard⟩
  | .fallback span => ⟨.elseTag, span, none⟩

/-- The directives of a branch. -/
def Scope.pieces (opening : Test) (s : Scope) : List Piece :=
  s.head.piece opening :: Block.piecesBody s.body

theorem Scope.pieces_nest (opening : Test) (s : Scope) (b : Block) :
    (s.nest b).pieces opening = s.pieces opening ++ b.pieces := by
  cases h : s.inner <;> simp [pieces, nest, body, h, Block.piecesList_append]

theorem Block.piecesBranches_append (xs ys : List Branch) :
    piecesBranches (xs ++ ys) = piecesBranches xs ++ piecesBranches ys := by
  induction xs with
  | nil => simp [piecesBranches]
  | cons x xs ih =>
    obtain ⟨test, body⟩ := x
    simp [piecesBranches, ih]

namespace LaidOut

theorem nest {e : Bool} {s : Scope} {scopes : List Scope} (h : LaidOut e (s :: scopes)) (b : Block) :
    LaidOut e (s.nest b :: scopes) := by
  cases h with
  | opening inner => exact .opening _
  | alternative test inner h => exact .alternative test _ h
  | fallback span inner h => exact .fallback span _ h

theorem no_fallback {scopes : List Scope} (h : LaidOut false scopes) :
    scopes.findSome? Scope.fallback? = none := by
  generalize he : false = e at h
  induction h with
  | opening inner => rfl
  | alternative test inner h ih => exact ih he
  | fallback span inner h ih => cases he

/-- The branches of a block in order spell the block. -/
theorem pieces {e : Bool} {scopes : List Scope} (h : LaidOut e scopes) (opening : Test) :
    scopes.reverse.flatMap (Scope.pieces opening) =
      ⟨.ifTag, opening.span, some opening.guard⟩ ::
        (Block.piecesBody (scopes.findSome? Scope.openingBody?) ++
          (Block.piecesBranches (scopes.reverse.filterMap Scope.branch?) ++
            Block.piecesFallback (scopes.findSome? Scope.fallback?))) := by
  induction h with
  | opening inner =>
    cases inner <;>
      simp [Scope.pieces, Head.piece, Scope.openingBody?, Scope.body, Scope.branch?,
        Scope.fallback?, Block.piecesBranches, Block.piecesFallback, List.filterMap_cons]
  | alternative test inner h ih =>
    have hnone := h.no_fallback
    rw [hnone] at ih
    simp [ih, hnone, List.findSome?_cons, Block.piecesBranches_append, Scope.pieces, Head.piece,
      Scope.openingBody?, Scope.branch?, Scope.fallback?, Block.piecesBranches,
      Block.piecesFallback, Scope.body]
  | fallback span inner h ih =>
    rw [h.no_fallback] at ih
    simp [ih, List.findSome?_cons, List.filterMap_cons, Scope.pieces, Head.piece,
      Scope.openingBody?, Scope.branch?, Scope.fallback?, Block.piecesFallback, Scope.body]

end LaidOut

theorem Block.piecesAlternatives_orAbsent (branches : List Branch) :
    piecesAlternatives (OpenBlock.orAbsent branches) = piecesBranches branches := by
  cases branches <;> simp [OpenBlock.orAbsent, piecesAlternatives, piecesBranches]

/-- A closed block is spelled by its branches and its `#endif`. -/
theorem OpenBlock.pieces_close {b : OpenBlock} {s : Scope} (h : LaidOut b.hasElse (s :: b.done))
    (closing : Span) : (b.close (some s) closing).pieces =
      (s :: b.done).reverse.flatMap (Scope.pieces b.test) ++ [⟨.endifTag, closing, none⟩] := by
  rw [h.pieces]
  simp [close, Block.pieces, Block.piecesAlternatives_orAbsent]

/-! ## Well-made blocks -/

/-- A block that was read without a mistake: it stands in for nothing, and lists that hold nothing
    are absent. -/
structure Block.WellMade (b : Block) : Prop where
  standIn : b.standIn = false
  alternatives : b.alternatives ≠ some []
  bodies : ∀ arm ∈ b.arms, arm.body ≠ some []

/-- A branch with well-made blocks only. -/
def Scope.WellMade (s : Scope) : Prop :=
  s.inner ≠ some [] ∧ ∀ bs, s.inner = some bs → ∀ c ∈ Block.preorderList bs, c.WellMade

namespace Scope

theorem wellMade_opened (head : Head) : (opened head).WellMade := by
  simp [WellMade, opened]

theorem WellMade.nest {s : Scope} {b : Block} (h : s.WellMade)
    (hb : ∀ c ∈ b.preorder, c.WellMade) : (s.nest b).WellMade := by
  refine ⟨by simp [Scope.nest], fun bs hbs c hc => ?_⟩
  cases hbs
  rw [Block.preorderList_cons, List.mem_append] at hc
  rcases hc with hc | hc
  · exact hb c hc
  · cases hinner : s.inner with
    | none => simp [hinner] at hc
    | some inner => exact h.2 inner hinner c (by simpa [hinner] using hc)

theorem WellMade.body_ne {s : Scope} (h : s.WellMade) : s.body ≠ some [] := by
  intro hbody
  obtain ⟨inner, hinner, hnil⟩ := Option.map_eq_some_iff.1 hbody
  rw [List.reverse_eq_nil_iff.1 hnil] at hinner
  exact h.1 hinner

theorem WellMade.mem_body {s : Scope} (h : s.WellMade) {bs : List Block} (hbs : s.body = some bs) :
    ∀ c ∈ Block.preorderList bs, c.WellMade := by
  obtain ⟨inner, hinner, rfl⟩ := Option.map_eq_some_iff.1 hbs
  intro c hc
  obtain ⟨b, hb, hcb⟩ := Block.mem_preorderList.1 hc
  exact h.2 inner hinner c (Block.mem_preorderList.2 ⟨b, List.mem_reverse.1 hb, hcb⟩)

end Scope

namespace Scope

theorem body_of_openingBody {s : Scope} {bs : List Block} (h : s.openingBody? = some bs) :
    s.body = some bs := by
  unfold openingBody? at h
  split at h
  · exact h
  · cases h

theorem body_of_branch {s : Scope} {branch : Branch} (h : s.branch? = some branch) :
    branch.body = s.body := by
  unfold branch? at h
  split at h <;> cases h
  rfl

theorem body_of_fallback {s : Scope} {f : Fallback} (h : s.fallback? = some f) :
    f.body = s.body := by
  unfold fallback? at h
  split at h <;> cases h
  rfl

end Scope

namespace OpenBlock

/-- The body of a branch of a closed block is that of one of the branches that were read. -/
theorem body_of_mem_close_arms {b : OpenBlock} {s : Scope} {closing : Span} {arm : Arm}
    (h : arm ∈ (b.close (some s) closing).arms) {bs : List Block} (hbs : arm.body = some bs) :
    ∃ t ∈ s :: b.done, t.body = some bs := by
  simp only [Block.arms, close, Block.body, Block.alternatives, Block.fallback, List.mem_cons,
    List.mem_append, List.mem_map, Option.mem_toList, Option.map_eq_some_iff] at h
  rcases h with rfl | ⟨branch, hbranch, rfl⟩ | ⟨f, hf, rfl⟩
  · obtain ⟨t, ht, hopening⟩ := List.exists_of_findSome?_eq_some hbs
    exact ⟨t, ht, Scope.body_of_openingBody hopening⟩
  · have hmem : branch ∈ ((some s).toList ++ b.done).reverse.filterMap Scope.branch? := by
      generalize ((some s).toList ++ b.done).reverse.filterMap Scope.branch? = branches at hbranch ⊢
      cases branches with
      | nil => simp [orAbsent] at hbranch
      | cons first rest => exact hbranch
    obtain ⟨t, ht, hb⟩ := List.mem_filterMap.1 hmem
    exact ⟨t, List.mem_reverse.1 ht, (Scope.body_of_branch hb).symm.trans hbs⟩
  · obtain ⟨t, ht, hfallback⟩ := List.exists_of_findSome?_eq_some hf
    exact ⟨t, ht, (Scope.body_of_fallback hfallback).symm.trans hbs⟩

/-- A block closed after well-made branches is well made, and so are the blocks in it. -/
theorem wellMade_close {b : OpenBlock} {s : Scope} (hb : b.standIn = false)
    (hs : ∀ t ∈ s :: b.done, t.WellMade) (closing : Span) :
    ∀ c ∈ (b.close (some s) closing).preorder, c.WellMade := by
  intro c hc
  rcases Block.mem_preorder.1 hc with rfl | ⟨arm, harm, bs, hbs, hcs⟩
  · refine ⟨hb, ?_, fun arm harm hnil => ?_⟩
    · change orAbsent (((some s).toList ++ b.done).reverse.filterMap Scope.branch?) ≠ some []
      cases ((some s).toList ++ b.done).reverse.filterMap Scope.branch? <;> simp [orAbsent]
    · obtain ⟨t, ht, htb⟩ := body_of_mem_close_arms harm hnil
      exact (hs t ht).body_ne htb
  · obtain ⟨t, ht, htb⟩ := body_of_mem_close_arms harm hbs
    exact (hs t ht).mem_body htb c hcs

end OpenBlock

/-! ## What was read -/

/-- Open blocks and the branch that is being read of each, the innermost first, with the directives
    that they spell. -/
inductive Levels : List OpenBlock → List Scope → List Piece → Prop where
  | nil : Levels [] [] []
  | cons {b : OpenBlock} {bs : List OpenBlock} {s : Scope} {scopes : List Scope}
      {pieces : List Piece} : Levels bs scopes pieces → LaidOut b.hasElse (s :: b.done) →
      b.standIn = false → (∀ t ∈ s :: b.done, t.WellMade) →
      Levels (b :: bs) (s :: scopes) (pieces ++ (s :: b.done).reverse.flatMap (Scope.pieces b.test))

namespace Reading

/-- What was read spells these directives. -/
structure Spells (r : Reading) (pieces : List Piece) : Prop where
  closed : ∀ c ∈ Block.preorderList r.top, c.WellMade
  spelled : ∃ inner, Levels r.opened r.scopes inner ∧
    pieces = Block.piecesList r.top.reverse ++ inner

theorem spells_start : Spells {} [] := ⟨by simp, [], .nil, by simp⟩

theorem Spells.push {r : Reading} {pieces : List Piece} (h : r.Spells pieces) (test : Test) :
    (r.push test false).Spells (pieces ++ [⟨.ifTag, test.span, some test.guard⟩]) := by
  obtain ⟨hclosed, inner, hlevels, rfl⟩ := h
  refine ⟨hclosed, _, .cons hlevels (.opening none) rfl ?_, ?_⟩
  · simpa [OpenBlock.opened] using Scope.wellMade_opened .opening
  · simp [Reading.push, OpenBlock.opened, Scope.opened, Scope.pieces, Scope.body, Head.piece]

/-- The branch that is being read is left for the next one. -/
theorem Spells.turn {r : Reading} {pieces : List Piece} (h : r.Spells pieces) {head : Head}
    {b : OpenBlock} {bs : List OpenBlock} (ho : r.opened = b :: bs)
    (hlaid : ∀ scopes, LaidOut b.hasElse scopes →
      LaidOut (b.hasElse || head.isFallback) (Scope.opened head :: scopes)) :
    (r.turn head).Spells (pieces ++ [head.piece b.test]) := by
  obtain ⟨hclosed, inner, hlevels, rfl⟩ := h
  rw [ho] at hlevels
  generalize hscopes : r.scopes = scopes at hlevels
  cases hlevels with
  | @cons _ _ s scopes pieces houter hblock hreal hmade =>
    refine ⟨hclosed, pieces ++ (Scope.opened head :: s :: b.done).reverse.flatMap
      (Scope.pieces b.test), ?_, ?_⟩
    · simp only [Reading.turn, ho, hscopes, List.modifyHead_cons, List.head?_cons,
        Option.toList_some, List.singleton_append, List.tail_cons]
      exact .cons houter (hlaid _ hblock) hreal
        (List.forall_mem_cons.2 ⟨Scope.wellMade_opened head, hmade⟩)
    · simp [Reading.turn, Scope.opened, Scope.pieces, Scope.body]

theorem Spells.readEndif {r : Reading} {pieces : List Piece} (h : r.Spells pieces)
    {b : OpenBlock} {bs : List OpenBlock} (ho : r.opened = b :: bs) (d : Directive) :
    (r.readEndif d).Spells (pieces ++ [⟨.endifTag, d.span, none⟩]) := by
  obtain ⟨hclosed, inner, hlevels, rfl⟩ := h
  rw [ho] at hlevels
  generalize hscopes : r.scopes = scopes at hlevels
  cases hlevels with
  | @cons _ _ s scopes pieces houter hblock hreal hmade =>
    have hpieces := OpenBlock.pieces_close hblock d.span
    have hwell := OpenBlock.wellMade_close hreal hmade d.span
    cases houter with
    | nil =>
      simp only [Reading.readEndif, ho, hscopes, List.head?_cons, List.tail_cons]
      refine ⟨?_, [], .nil, ?_⟩
      · intro c hc
        rw [Block.preorderList_cons, List.mem_append] at hc
        exact hc.elim (hwell c) (hclosed c)
      · simp [Block.piecesList_append, hpieces]
    | @cons outer _ around _ before hrest hlaid houterReal haround =>
      simp only [Reading.readEndif, ho, hscopes, List.head?_cons, List.tail_cons]
      obtain ⟨hinnermost, hdone⟩ := List.forall_mem_cons.1 haround
      refine ⟨hclosed, _, .cons hrest (hlaid.nest _) houterReal
        (List.forall_mem_cons.2 ⟨hinnermost.nest hwell, hdone⟩), ?_⟩
      simp [Scope.pieces_nest, hpieces]

/-- A step adds its directive to what is spelled. -/
theorem CleanStep.spells {r r' : Reading} {d : Directive} {pieces : List Piece}
    (h : CleanStep r d r') (hr : r.Spells pieces) : r'.Spells (pieces ++ [d.piece]) := by
  have hmet : (r.met d).Spells pieces := ⟨hr.closed, hr.spelled⟩
  cases h with
  | opens g htag hg =>
    rw [d.piece_guarded (by simp [htag, Tag.takesGuard]) hg, htag]
    exact hmet.push ⟨d.span, g⟩
  | alternates g b bs htag hg ho helse =>
    rw [d.piece_guarded (by simp [htag, Tag.takesGuard]) hg, htag]
    refine hmet.turn ho fun scopes hlaid => ?_
    rw [helse] at hlaid ⊢
    exact .alternative ⟨d.span, g⟩ none hlaid
  | fallsBack b bs htag ho helse =>
    rw [d.piece_unguarded (by simp [htag, Tag.takesGuard]), htag]
    refine hmet.turn ho fun scopes hlaid => ?_
    rw [helse] at hlaid ⊢
    exact .fallback d.span none hlaid
  | closes b bs htag ho =>
    rw [d.piece_unguarded (by simp [htag, Tag.takesGuard]), htag]
    exact hmet.readEndif ho d

theorem CleanRun.spells {r r' : Reading} {ds : List Directive} (h : CleanRun r ds r') :
    ∀ {pieces : List Piece}, r.Spells pieces → r'.Spells (pieces ++ ds.map Directive.piece) := by
  induction h with
  | nil r => exact fun hr => by simpa using hr
  | cons hstep hrun ih => exact fun hr => by simpa using ih (hstep.spells hr)

end Reading

namespace Block

/-- The blocks that directives form spell them, and are well made. -/
theorem spelled_of_ofDirectives {ds : List Directive} {blocks : List Block}
    (h : (ofDirectives ds).2 = .ok blocks) :
    piecesList blocks = ds.map Directive.piece ∧ ∀ b ∈ preorderList blocks, b.WellMade := by
  obtain ⟨r, hrun, hopened, rfl⟩ := ofDirectives_eq_ok_iff.1 h
  obtain ⟨hclosed, inner, hlevels, hpieces⟩ := hrun.spells Reading.spells_start
  rw [hopened] at hlevels
  generalize r.scopes = scopes at hlevels
  cases hlevels
  refine ⟨by simpa using hpieces.symm, fun b hb => hclosed b ?_⟩
  obtain ⟨c, hc, hbc⟩ := mem_preorderList.1 hb
  exact mem_preorderList.2 ⟨c, List.mem_reverse.1 hc, hbc⟩

/-- Directives form blocks exactly when their tags are a forest and every guard compiles; flattened,
    the blocks are the directives again, each with its place and the guard that its payload
    compiles to, and no block stands in for another or keeps an empty list. -/
theorem ofDirectives_accepts_forests (ds : List Directive) :
    ((∃ blocks, (ofDirectives ds).2 = .ok blocks) ↔
      IsForest (ds.map Directive.tag) ∧
        ∀ d ∈ ds, d.tag = .ifTag ∨ d.tag = .elseifTag →
          d.payload ≠ [] ∧ ∃ g, Guard.compile d.payload = .ok g) ∧
    ∀ blocks, (ofDirectives ds).2 = .ok blocks →
      piecesList blocks = ds.map Directive.piece ∧ ∀ b ∈ preorderList blocks, b.WellMade := by
  refine ⟨⟨?_, ?_⟩, fun blocks => spelled_of_ofDirectives⟩
  · rintro ⟨blocks, h⟩
    have hforest := isForest_piecesList blocks
    rw [(spelled_of_ofDirectives h).1, List.map_map] at hforest
    obtain ⟨r, hrun, -, -⟩ := ofDirectives_eq_ok_iff.1 h
    refine ⟨hforest, fun d hd htag => ?_⟩
    have htakes : d.tag.takesGuard = true := by
      rcases htag with htag | htag <;> rw [htag] <;> rfl
    obtain ⟨g, hpayload, hg⟩ := hrun.nesting.2 d hd htakes
    exact ⟨hpayload, g, hg⟩
  · rintro ⟨hforest, hguards⟩
    have hguarded : ∀ d ∈ ds, d.Guarded := by
      intro d hd htakes
      have htag : d.tag = .ifTag ∨ d.tag = .elseifTag := by
        cases h : d.tag <;> simp [h, Tag.takesGuard] at htakes ⊢
      obtain ⟨hpayload, g, hg⟩ := hguards d hd htag
      exact ⟨g, hpayload, hg⟩
    have hnest := Nesting.run_forest hforest (Reading.nesting {})
    obtain ⟨r, hrun⟩ := Reading.exists_cleanRun hnest hguarded
    refine ⟨_, ofDirectives_eq_ok_iff.2 ⟨r, hrun, ?_, rfl⟩⟩
    have hend : r.nesting = [] := Option.some.inj (hrun.nesting.1.symm.trans hnest)
    exact List.map_eq_nil_iff.1 hend

end Block

end GuardedText
