import GuardedText.Proofs.Block.Shape

/-
  The grammar of directives: a forest is a sequence of blocks, and a block is an `#if` with a forest,
  any number of `#elseif`s with a forest each, perhaps an `#else` with a forest, and an `#endif`.
  The directives of every block follow the grammar (`isForest_piecesList`), and a stack of the open
  blocks, each with whether it has met its `#else`, runs through every forest and comes back to where
  it was (`Nesting.run_forest`).
-/

namespace GuardedText

mutual

/-- A sequence of blocks. -/
inductive IsForest : List Tag → Prop where
  | nil : IsForest []
  | cons {block rest : List Tag} : IsBlock block → IsForest rest → IsForest (block ++ rest)

/-- An `#if` with everything up to its `#endif`. -/
inductive IsBlock : List Tag → Prop where
  | mk {body alternatives otherwise : List Tag} : IsForest body → AreAlternatives alternatives →
      IsOtherwise otherwise →
      IsBlock (.ifTag :: (body ++ (alternatives ++ (otherwise ++ [.endifTag]))))

/-- Any number of `#elseif`s, each with a forest. -/
inductive AreAlternatives : List Tag → Prop where
  | nil : AreAlternatives []
  | cons {body rest : List Tag} : IsForest body → AreAlternatives rest →
      AreAlternatives (.elseifTag :: (body ++ rest))

/-- Perhaps an `#else` with a forest. -/
inductive IsOtherwise : List Tag → Prop where
  | absent : IsOtherwise []
  | present {body : List Tag} : IsForest body → IsOtherwise (.elseTag :: body)

end

/-! ## Blocks follow the grammar -/

namespace Block

mutual

theorem isBlock_pieces : ∀ b : Block, IsBlock (b.pieces.map Piece.tag)
  | .mk test body alternatives fallback closing _ => by
    simp only [pieces, List.map_cons, List.map_append, List.map_nil]
    exact .mk (isForest_piecesBody body) (areAlternatives_pieces alternatives)
      (isOtherwise_piecesFallback fallback)

theorem isForest_piecesBody : ∀ body : Option (List Block),
    IsForest ((piecesBody body).map Piece.tag)
  | none => by simpa [piecesBody] using IsForest.nil
  | some bs => by simpa [piecesBody] using isForest_piecesList bs

/-- The directives of some blocks form a forest. -/
theorem isForest_piecesList : ∀ bs : List Block, IsForest ((piecesList bs).map Piece.tag)
  | [] => by simpa [piecesList] using IsForest.nil
  | b :: bs => by
    simp only [piecesList, List.map_append]
    exact .cons (isBlock_pieces b) (isForest_piecesList bs)

theorem areAlternatives_pieces : ∀ alternatives : Option (List Branch),
    AreAlternatives ((piecesAlternatives alternatives).map Piece.tag)
  | none => by simpa [piecesAlternatives] using AreAlternatives.nil
  | some branches => by simpa [piecesAlternatives] using areAlternatives_branches branches

theorem areAlternatives_branches : ∀ branches : List Branch,
    AreAlternatives ((piecesBranches branches).map Piece.tag)
  | [] => by simpa [piecesBranches] using AreAlternatives.nil
  | .mk test body :: branches => by
    simp only [piecesBranches, List.map_cons, List.map_append]
    exact .cons (isForest_piecesBody body) (areAlternatives_branches branches)

theorem isOtherwise_piecesFallback : ∀ fallback : Option Fallback,
    IsOtherwise ((piecesFallback fallback).map Piece.tag)
  | none => by simpa [piecesFallback] using IsOtherwise.absent
  | some (.mk span body) => by
    simp only [piecesFallback, List.map_cons]
    exact .present (isForest_piecesBody body)

end

end Block

/-! ## Nesting -/

/-- The open blocks, the innermost first: whether each has met its `#else`. -/
abbrev Nesting := List Bool

namespace Nesting

/-- The open blocks after a directive, if it may stand there. -/
def step : Nesting → Tag → Option Nesting
  | opened, .ifTag => some (false :: opened)
  | false :: outer, .elseifTag => some (false :: outer)
  | false :: outer, .elseTag => some (true :: outer)
  | _ :: outer, .endifTag => some outer
  | _, _ => none

/-- The open blocks after some directives, if each may stand where it does. -/
def run (opened : Nesting) : List Tag → Option Nesting
  | [] => some opened
  | tag :: tags => (opened.step tag).bind fun opened => run opened tags

theorem run_append (opened : Nesting) (tags more : List Tag) :
    opened.run (tags ++ more) = (opened.run tags).bind fun opened => run opened more := by
  induction tags generalizing opened with
  | nil => rfl
  | cons tag tags ih => simp [run, ih, Option.bind_assoc]

mutual

/-- A forest may stand anywhere and leaves the open blocks as they were. -/
theorem run_forest {tags : List Tag} : IsForest tags → ∀ opened : Nesting,
    opened.run tags = some opened
  | .nil, _ => rfl
  | .cons hblock hrest, opened => by
    rw [run_append, run_block hblock opened]
    exact run_forest hrest opened

theorem run_block {tags : List Tag} : IsBlock tags → ∀ opened : Nesting,
    opened.run tags = some opened
  | .mk hbody halternatives hotherwise, opened => by
    change run (false :: opened) (_ ++ (_ ++ (_ ++ [.endifTag]))) = _
    rw [run_append, run_forest hbody, Option.bind_some, run_append, run_alternatives halternatives,
      Option.bind_some]
    exact run_otherwise hotherwise opened

theorem run_alternatives {tags : List Tag} : AreAlternatives tags → ∀ outer : Nesting,
    run (false :: outer) tags = some (false :: outer)
  | .nil, _ => rfl
  | .cons hbody hrest, outer => by
    change run (false :: outer) (_ ++ _) = _
    rw [run_append, run_forest hbody, Option.bind_some]
    exact run_alternatives hrest outer

theorem run_otherwise {tags : List Tag} : IsOtherwise tags → ∀ outer : Nesting,
    run (false :: outer) (tags ++ [.endifTag]) = some outer
  | .absent, _ => rfl
  | .present hbody, outer => by
    change run (true :: outer) (_ ++ [.endifTag]) = _
    rw [run_append, run_forest hbody]
    rfl

end

end Nesting

end GuardedText
