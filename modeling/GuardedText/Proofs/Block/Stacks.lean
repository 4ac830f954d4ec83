import GuardedText.Proofs.Block.Building
import GuardedText.Proofs.Block.Entries

/-
  The stacks of a reading, told by matching. The open blocks are those of the openers without a
  closer, and the scope of each is the branch that its latest directive began (`Held`,
  `Building.held_after`). Closed one after the other, each of them is the last block in the branch
  around it (`Standing`, `standing_wholes`, `Building.closeAll`). The closed blocks outside all
  others are those of the openers with a closer that stand in no block (`ClosedAt`,
  `Building.closed_after`). All together: `Reading.stacks_agree`.
-/

namespace GuardedText

open Role Directive

/-! ## Directives of a block -/

namespace Role

/-- A directive opens the block of an opener or goes on with it. -/
def Begins (roles : List Role) (i j : Nat) : Prop :=
  InBlock roles i j ∧ (j = i ∨ roles[j]? = some .inside)

/-- A directive is the last that opened the block of an opener or went on with it. -/
def Latest (roles : List Role) (i j : Nat) : Prop :=
  Begins roles i j ∧ ∀ k, Begins roles i k → k ≤ j

section

variable {u rest : List Role} {r : Role} {i j : Nat}

theorem Begins.lt_length (h : Begins u i j) : j < u.length := by
  obtain ⟨⟨hopens, -⟩, rfl | hinside⟩ := h
  · exact (List.getElem?_eq_some_iff.1 hopens).1
  · exact (List.getElem?_eq_some_iff.1 hinside).1

theorem begins_length_iff : Begins (u ++ r :: rest) i u.length ↔
    (i = u.length ∧ r = .opens) ∨ (r = .inside ∧ (openers u).head? = some i) := by
  have hat : (u ++ r :: rest)[u.length]? = some r := by simp
  rw [Begins, inBlock_length_iff, hat, Option.some.injEq]
  constructor
  · rintro ⟨⟨hi, hr⟩ | hi, hrole⟩
    · exact .inl ⟨hi, hr⟩
    · rcases hrole with rfl | hr
      · -- The innermost opener stands before the end.
        have := (List.getElem?_eq_some_iff.1 (head_openers_iff.1 hi).1).1
        omega
      · exact .inr ⟨hr, hi⟩
  · rintro (⟨rfl, rfl⟩ | ⟨rfl, hi⟩)
    · exact ⟨.inl ⟨rfl, rfl⟩, .inl rfl⟩
    · exact ⟨.inr hi, .inr rfl⟩

theorem begins_append_iff (hj : j < u.length) : Begins (u ++ rest) i j ↔ Begins u i j := by
  rw [Begins, inBlock_append_iff hj, List.getElem?_append_left hj, Begins]

/-- A directive that is none of a block leaves its latest one. -/
theorem Latest.keep (h : Latest u i j) (hother : ¬ Begins (u ++ [r]) i u.length) :
    Latest (u ++ [r]) i j := by
  refine ⟨(begins_append_iff h.1.lt_length).2 h.1, fun k hk => ?_⟩
  have hlt := hk.lt_length
  rw [List.length_append, List.length_singleton] at hlt
  rcases Nat.lt_succ_iff_lt_or_eq.1 hlt with hlt | rfl
  · exact h.2 k ((begins_append_iff hlt).1 hk)
  · exact absurd hk hother

theorem latest_length (h : Begins (u ++ [r]) i u.length) : Latest (u ++ [r]) i u.length := by
  refine ⟨h, fun k hk => ?_⟩
  have hlt := hk.lt_length
  rw [List.length_append, List.length_singleton] at hlt
  omega

/-- The openers around an open block are those that are open where it begins. -/
theorem openers_take (js : List Nat) {is : List Nat} (h : openers u = js ++ i :: is) :
    openers (u.take i) = is := by
  induction u using List.reverseRecOn generalizing js with
  | nil => simp [openers, openersOf] at h
  | append_singleton u r ih =>
    have hin (js : List Nat) (h : openers u = js ++ i :: is) :
        openers ((u ++ [r]).take i) = is := by
      have hi : i ∈ openers u := by simp [h]
      have hlt := (List.getElem?_eq_some_iff.1 (unclosed_iff.2 hi).1).1
      rw [List.take_append_of_le_length hlt.le]
      exact ih js h
    cases r with
    | opens =>
      rw [openers_opens] at h
      cases js with
      | nil =>
        obtain ⟨rfl, rfl⟩ := List.cons.inj h
        simp
      | cons j js => exact hin js (List.cons.inj h).2
    | closes =>
      rw [openers_closes] at h
      obtain ⟨j, hj⟩ : ∃ j, openers u = j :: (openers u).tail := by
        cases hu : openers u with
        | nil => simp [hu] at h
        | cons j js => exact ⟨j, rfl⟩
      rw [h] at hj
      exact hin (j :: js) hj
    | inside =>
      rw [openers_inside] at h
      exact hin js h

end

end Role

/-! ## Open blocks -/

/-- What the stacks hold of the block of an opener: the block that the opener opened and, as its
    branch, the one that its latest directive began. -/
structure Held (ds : List Directive) (i : Nat) (b : OpenBlock) (c : Scope) : Prop where
  opener : ∃ d, ds[i]? = some d ∧ b.test = d.opening ∧ (b.standIn = true ↔ d.tag ≠ .ifTag)
  latest : ∃ j d, Latest (roles ds) i j ∧ ds[j]? = some d ∧ d.tag ≠ .endifTag ∧
    (d.tag = .ifTag → j = i) ∧ c.head = d.head
  fresh : c.head = .opening → b.done = []

section

variable {ds : List Directive} {d : Directive} {i : Nat} {b : OpenBlock} {c : Scope}

/-- A directive that is none of a block leaves what is held of the block. -/
theorem Held.keep (h : Held ds i b c) (hother : ¬ Begins (roles (ds ++ [d])) i ds.length) :
    Held (ds ++ [d]) i b c := by
  obtain ⟨⟨o, ho, hopener⟩, ⟨j, e, hlatest, he, hlast⟩, hfresh⟩ := h
  have hi : i < ds.length := (List.getElem?_eq_some_iff.1 ho).1
  have hj : j < ds.length := (List.getElem?_eq_some_iff.1 he).1
  refine ⟨⟨o, by rwa [List.getElem?_append_left hi], hopener⟩,
    ⟨j, e, ?_, by rwa [List.getElem?_append_left hj], hlast⟩, hfresh⟩
  rw [roles_concat] at hother ⊢
  rw [← length_roles] at hother
  exact hlatest.keep hother

/-- What is held of the block that a directive opens. -/
theorem held_opened (hopens : roles (ds ++ [d]) = roles ds ++ [.opens]) (htest : b.test = d.opening)
    (hstandIn : b.standIn = true ↔ d.tag ≠ .ifTag) (hhead : c.head = d.head)
    (hfresh : c.head = .opening → b.done = []) : Held (ds ++ [d]) ds.length b c := by
  have hat : (ds ++ [d])[ds.length]? = some d := by simp
  refine ⟨⟨d, hat, htest, hstandIn⟩, ⟨ds.length, d, ?_, hat, ?_, fun _ => rfl, hhead⟩, hfresh⟩
  · rw [hopens, ← length_roles]
    exact latest_length (begins_length_iff.2 (.inl ⟨rfl, rfl⟩))
  · intro htag
    rw [roles_concat, htag, Role.next] at hopens
    simp at hopens

/-- The innermost open block goes on with its next branch. -/
theorem Held.turn (h : Held ds i b c) (hinside : roles (ds ++ [d]) = roles ds ++ [.inside])
    (hi : (openers (roles ds)).head? = some i) (helse : Bool) :
    Held (ds ++ [d]) i { b with done := c :: b.done, hasElse := helse } (.opened d.head) := by
  obtain ⟨⟨o, ho, hopener⟩, -, -⟩ := h
  have hlt : i < ds.length := (List.getElem?_eq_some_iff.1 ho).1
  -- A directive that goes on with a block is an `#elseif` or `#else`.
  have htag : d.tag = .elseifTag ∨ d.tag = .elseTag := by
    rw [roles_concat] at hinside
    cases htag : d.tag with
    | ifTag | endifTag =>
      rw [htag, Role.next] at hinside
      simp at hinside
    | elseifTag => exact .inl rfl
    | elseTag => exact .inr rfl
  refine ⟨⟨o, by rwa [List.getElem?_append_left hlt], hopener⟩,
    ⟨ds.length, d, ?_, by simp, ?_, ?_, rfl⟩, fun h => absurd h (head_ne_opening htag)⟩
  · rw [hinside, ← length_roles]
    exact latest_length (begins_length_iff.2 (.inr ⟨rfl, hi⟩))
  · rcases htag with htag | htag <;> simp [htag]
  · rcases htag with htag | htag <;> simp [htag]

end

namespace Building

/-- There is an open block for every opener without a closer. -/
def Holds (ds : List Directive) (levels : List (OpenBlock × Scope)) : Prop :=
  List.Forall₂ (fun i level => Held ds i level.1 level.2) (openers (roles ds)) levels

section

variable {ds : List Directive} {d : Directive} {levels : List (OpenBlock × Scope)}

theorem Holds.eq_nil_iff (h : Holds ds levels) : levels = [] ↔ openers (roles ds) = [] := by
  rw [← List.length_eq_zero_iff, ← List.length_eq_zero_iff, List.Forall₂.length_eq h]

theorem Holds.open (h : Holds ds levels) (hopens : roles (ds ++ [d]) = roles ds ++ [.opens])
    {b : OpenBlock} {c : Scope} (hnew : Held (ds ++ [d]) ds.length b c) :
    Holds (ds ++ [d]) ((b, c) :: levels) := by
  unfold Holds
  rw [hopens, openers_opens, length_roles]
  refine .cons hnew (h.imp fun i level hi => hi.keep ?_)
  obtain ⟨o, ho, -⟩ := hi.opener
  have hlt : i < ds.length := (List.getElem?_eq_some_iff.1 ho).1
  rw [hopens, ← length_roles, begins_length_iff, length_roles]
  simp [Nat.ne_of_lt hlt]

theorem Holds.close (h : Holds ds levels) (hcloses : roles (ds ++ [d]) = roles ds ++ [.closes]) :
    Holds (ds ++ [d]) levels.tail := by
  unfold Holds at *
  rw [hcloses, openers_closes]
  have hkeep {i : Nat} {b : OpenBlock} {c : Scope} (hi : Held ds i b c) :
      Held (ds ++ [d]) i b c := by
    refine hi.keep ?_
    rw [hcloses, ← length_roles, begins_length_iff]
    simp
  generalize openers (roles ds) = is at h
  cases h with
  | nil => exact .nil
  | cons _ hrest => exact hrest.imp fun i level hi => hkeep hi

theorem Holds.turn {b : OpenBlock} {c : Scope} (h : Holds ds ((b, c) :: levels))
    (hinside : roles (ds ++ [d]) = roles ds ++ [.inside]) (helse : Bool) :
    Holds (ds ++ [d])
      (({ b with done := c :: b.done, hasElse := helse }, .opened d.head) :: levels) := by
  unfold Holds at *
  have hsorted := (opened_openers (roles ds)).sorted
  have hbegins (i : Nat) : Begins (roles (ds ++ [d])) i ds.length ↔
      (openers (roles ds)).head? = some i := by
    rw [hinside, ← length_roles, begins_length_iff]
    simp
  have hturn {i : Nat} (hi : Held ds i b c) (hhead : (openers (roles ds)).head? = some i) :=
    hi.turn hinside hhead helse
  rw [hinside, openers_inside]
  generalize openers (roles ds) = is at *
  cases h with
  | @cons i _ is _ hi hrest =>
    refine .cons (hturn hi rfl) ?_
    -- The blocks around the innermost one are other blocks.
    have hother : ∀ j ∈ is, j ≠ i := fun j hj => (List.rel_of_pairwise_cons hsorted hj).ne
    refine ((List.forall₂_and_left _ _).2 ⟨hother, hrest⟩).imp fun j level hj => hj.2.keep ?_
    rw [hbegins, List.head?_cons, Option.some.injEq]
    exact hj.1.symm

/-- An inner branch is not told of what it holds. -/
theorem Holds.nest {b : OpenBlock} {c : Scope} (h : Holds ds ((b, c) :: levels)) (inner : Block) :
    Holds ds ((b, c.nest inner) :: levels) := by
  unfold Holds at *
  generalize openers (roles ds) = is at *
  cases h with
  | cons hi hrest => exact .cons ⟨hi.opener, hi.latest, hi.fresh⟩ hrest

/-- What one directive does to the open blocks, told by matching. -/
theorem Holds.next {s : Building} (h : Holds ds s.levels) (d : Directive) :
    Holds (ds ++ [d]) (s.next d).levels := by
  have hroles := roles_concat ds d
  obtain ⟨top, levels⟩ := s
  -- An `#elseif` or `#else` opens a block where no block is open.
  have hturn (htag : d.tag = .elseifTag ∨ d.tag = .elseTag) :
      Holds (ds ++ [d]) ((Building.demand ⟨top, levels⟩ d).turn d.head).levels := by
    have hrole : Role.next (roles ds) d.tag =
        if AllClosed (roles ds) then Role.opens else Role.inside := by
      rcases htag with htag | htag <;> rw [htag, Role.next]
    rw [hrole] at hroles
    cases levels with
    | nil =>
      rw [if_pos (allClosed_iff.2 (h.eq_nil_iff.1 rfl))] at hroles
      refine h.open hroles (held_opened hroles rfl ?_ rfl fun hhead => ?_)
      · rcases htag with htag | htag <;> simp [htag, OpenBlock.opened]
      · exact absurd hhead (head_ne_opening htag)
    | cons level levels =>
      rw [if_neg fun hclosed => List.cons_ne_nil _ _ (h.eq_nil_iff.2 (allClosed_iff.1 hclosed))]
        at hroles
      exact h.turn hroles _
  unfold Building.next
  cases htag : d.tag with
  | ifTag =>
    rw [htag, Role.next] at hroles
    refine h.open hroles (held_opened hroles rfl ?_ ?_ fun _ => rfl)
    · simp [htag, OpenBlock.opened]
    · rw [Directive.head, htag]
      rfl
  | elseifTag => exact hturn (.inl htag)
  | elseTag => exact hturn (.inr htag)
  | endifTag =>
    rw [htag, Role.next] at hroles
    have hclose := h.close hroles
    rcases levels with _ | ⟨_, _ | ⟨_, outer⟩⟩
    · exact hclose
    · exact hclose
    · -- The block goes into the branch around it, of which nothing else is told.
      exact hclose.nest _

end

/-- The open blocks after directives, told by matching. -/
theorem held_after (ds : List Directive) : Holds ds (after ds).levels := by
  induction ds using List.reverseRecOn with
  | nil => exact .nil
  | append_singleton ds d ih =>
    rw [after_concat]
    exact ih.next d

end Building

/-! ## Open blocks in each other -/

/-- The branch with the block in it that is still open, if there is one. -/
def Scope.around (c : Scope) (inner : Option Block) : Scope := inner.elim c c.nest

/-- The branch of a block that was begun last by a directive with a tag. -/
def Block.latest? (b : Block) : Tag → Option Arm
  | .elseifTag => (b.alternatives.getD []).getLast?.map Branch.arm
  | .elseTag => b.fallback.map Fallback.arm
  | .ifTag | .endifTag => b.arms.head?

/-- The branch that a directive begins. -/
def Directive.arm (d : Directive) (body : Option (List Block)) : Arm :=
  ⟨d.span, if d.tag.takesGuard then some d.guard else none, body⟩

/-- An open block among others: the whole of it, up to now, has the block inside it that is open,
    as the last one in the branch that its latest directive began. That branch is its scope. -/
structure Seated (ds : List Directive) (i : Nat) (b : OpenBlock) (c : Scope) (inner : Option Block)
    (whole : Block) : Prop where
  opener : ∃ d, ds[i]? = some d ∧ b.test = d.opening ∧ (b.standIn = true ↔ d.tag ≠ .ifTag)
  same : whole.test = b.test ∧ whole.standIn = b.standIn
  scope : ∃ j d body, Latest (roles ds) i j ∧ ds[j]? = some d ∧ c.head = d.head ∧
    whole.latest? d.tag = some (d.arm body) ∧ body.getD [] = c.body.getD [] ++ inner.toList

/-- The open blocks as they stand in each other, the innermost first, closed at one place. -/
inductive Standing (ds : List Directive) (closing : Span) :
    Option Block → List Nat → List OpenBlock → List Scope → List Block → Prop where
  | nil {inner : Option Block} : Standing ds closing inner [] [] [] []
  | cons {inner : Option Block} {i : Nat} {b : OpenBlock} {c : Scope} {whole : Block}
      {is : List Nat} {bs : List OpenBlock} {cs : List Scope} {wholes : List Block} :
      Seated ds i b c inner whole → whole.closing = closing →
      Standing ds closing (some whole) is bs cs wholes →
      Standing ds closing inner (i :: is) (b :: bs) (c :: cs) (whole :: wholes)

/-- The open blocks, each closed with the one inside it. -/
def wholes (closing : Span) : Option Block → List (OpenBlock × Scope) → List Block
  | _, [] => []
  | inner, (b, c) :: outer =>
    let whole := b.close (some (c.around inner)) closing
    whole :: wholes closing (some whole) outer

theorem getD_body_around (c : Scope) (inner : Option Block) :
    (c.around inner).body.getD [] = c.body.getD [] ++ inner.toList := by
  cases inner with
  | none => simp [Scope.around]
  | some b => cases hc : c.inner <;> simp [Scope.around, Scope.nest, Scope.body, hc]

theorem head_around (c : Scope) (inner : Option Block) : (c.around inner).head = c.head := by
  cases inner <;> rfl

theorem getD_orAbsent {α : Type} (xs : List α) : (OpenBlock.orAbsent xs).getD [] = xs := by
  cases xs <;> rfl

/-- A closed block has the branch that was being read as the last one, with the block in it. -/
theorem seated_close {ds : List Directive} {i : Nat} {b : OpenBlock} {c : Scope}
    (h : Held ds i b c) (inner : Option Block) (closing : Span) :
    Seated ds i b c inner (b.close (some (c.around inner)) closing) := by
  refine ⟨h.opener, ⟨rfl, rfl⟩, ?_⟩
  obtain ⟨⟨o, ho, htest, -⟩, ⟨j, d, hlatest, hd, hclosing, hfirst, hhead⟩, hfresh⟩ := h
  refine ⟨j, d, (c.around inner).body, hlatest, hd, hhead, ?_, getD_body_around c inner⟩
  have haround := (head_around c inner).trans hhead
  unfold Directive.head at haround
  cases htag : d.tag with
  | ifTag =>
    -- Nothing came after the opener, so its branch is the only one.
    obtain rfl := hfirst htag
    obtain rfl : o = d := Option.some.inj (ho.symm.trans hd)
    rw [htag] at haround
    have hdone : b.done = [] := hfresh ((head_around c inner).symm.trans haround)
    simp [OpenBlock.close, Block.latest?, Block.arms, Block.test, Block.body, hdone,
      Scope.openingBody?, haround, Directive.arm, htag, htest, Directive.opening, Tag.takesGuard]
  | elseifTag =>
    rw [htag] at haround
    simp [OpenBlock.close, Block.latest?, Block.alternatives, Scope.branch?, haround, Directive.arm,
      htag, Tag.takesGuard, Branch.arm, Branch.test, Branch.body, getD_orAbsent]
  | elseTag =>
    rw [htag] at haround
    simp [OpenBlock.close, Block.latest?, Block.fallback, Scope.fallback?, haround, Directive.arm,
      htag, Tag.takesGuard, Fallback.arm, Fallback.span, Fallback.body]
  | endifTag => exact absurd htag hclosing

theorem standing_wholes {ds : List Directive} (closing : Span) {is : List Nat}
    {levels : List (OpenBlock × Scope)}
    (h : List.Forall₂ (fun i level => Held ds i level.1 level.2) is levels) (inner : Option Block) :
    Standing ds closing inner is (levels.map Prod.fst) (levels.map Prod.snd)
      (wholes closing inner levels) := by
  induction h generalizing inner with
  | nil => exact .nil
  | cons hi _ ih => exact .cons (seated_close hi inner closing) rfl (ih _)

/-- Closing all open blocks closes the outermost of them outside all others. -/
theorem Building.closeAll {e : Directive} (htag : e.tag = .endifTag) (top : List Block)
    (levels : List (OpenBlock × Scope)) :
    (List.replicate levels.length e).foldl Building.next ⟨top, levels⟩ =
      ⟨(wholes e.span none levels).getLast?.toList ++ top, []⟩ := by
  have hnext (s : Building) : s.next e = s.close e.span := by rw [Building.next, htag]
  have hall (outer : List (OpenBlock × Scope)) (b : OpenBlock) (c : Scope) (inner : Option Block) :
      (List.replicate (outer.length + 1) e).foldl Building.next
          ⟨top, (b, c.around inner) :: outer⟩ =
        ⟨(wholes e.span inner ((b, c) :: outer)).getLast?.toList ++ top, []⟩ := by
    induction outer generalizing b c inner with
    | nil =>
      rw [List.length_nil, List.replicate_one, List.foldl_cons, hnext]
      rfl
    | cons level outer ih =>
      obtain ⟨b', c'⟩ := level
      rw [List.length_cons, List.replicate_succ, List.foldl_cons, hnext]
      exact ih b' c' (some (b.close (some (c.around inner)) e.span))
  cases levels with
  | nil => rfl
  | cons level outer => exact hall outer level.1 level.2 none

/-! ## Closed blocks -/

namespace Role

variable {u : List Role} {r : Role} {i k : Nat}

theorem matches_append_iff {rest : List Role} (hk : k < u.length) :
    Matches (u ++ rest) i k ↔ Matches u i k := by
  refine ⟨fun ⟨hlt, hopens, hcloses, hbal⟩ => ?_, fun h => h.append_right rest⟩
  rw [List.getElem?_append_left (by omega)] at hopens
  rw [List.getElem?_append_left hk] at hcloses
  rw [between_append_right hk.le] at hbal
  exact ⟨hlt, hopens, hcloses, hbal⟩

/-- The outermost open block is that of an opener outside all blocks. -/
theorem openers_take_outermost (h : (openers u).getLast? = some i) :
    i < u.length ∧ openers (u.take i) = [] := by
  obtain ⟨js, hjs⟩ := List.getLast?_eq_some_iff.1 h
  have hi : i ∈ openers u := by simp [hjs]
  exact ⟨(List.getElem?_eq_some_iff.1 (unclosed_iff.2 hi).1).1, openers_take js hjs⟩

/-- An opener with a closer that stands in no block comes before the open blocks. -/
theorem lt_outermost (hi : (openers u).getLast? = some i) {j k : Nat} (h : Matches u j k)
    (hclosed : AllClosed (u.take j)) : j < i := by
  obtain ⟨js, hjs⟩ := List.getLast?_eq_some_iff.1 hi
  have hi : Unclosed u i := unclosed_iff.2 (by simp [hjs])
  by_contra hle
  rcases Nat.lt_or_eq_of_le (not_lt.1 hle) with hlt | rfl
  · -- The opener in front has no closer before the place either.
    refine hclosed i ⟨?_, fun m hm => hi.2 m ?_⟩
    · rw [List.getElem?_take_of_lt hlt]
      exact hi.1
    · rw [← List.take_append_drop j u]
      exact hm.append_right _
  · exact hi.2 k h

theorem getLast?_openers_concat (h : (openers (u ++ [r])).getLast? = some i) :
    openers u = [] ∧ i = u.length ∨ (openers u).getLast? = some i := by
  cases r with
  | opens =>
    rw [openers_opens] at h
    cases hu : openers u with
    | nil =>
      rw [hu] at h
      exact .inl ⟨rfl, by simpa using h.symm⟩
    | cons j js =>
      rw [hu, List.getLast?_cons_cons] at h
      exact .inr h
  | inside =>
    rw [openers_inside] at h
    exact .inr h
  | closes =>
    rw [openers_closes] at h
    cases hu : openers u with
    | nil => simp [hu] at h
    | cons j js =>
      rw [hu, List.tail_cons] at h
      cases js with
      | nil => simp at h
      | cons j' js => exact .inr (by rw [List.getLast?_cons_cons]; exact h)

theorem next_eq_closes {tag : Tag} (h : next u tag = .closes) : tag = .endifTag := by
  cases tag with
  | endifTag => rfl
  | ifTag => cases h
  | elseifTag | elseTag =>
    rw [next] at h
    split at h <;> cases h

/-- What one directive adds to the openers with a closer that stand in no block. -/
theorem outermost_concat_iff :
    Matches (u ++ [r]) i k ∧ AllClosed ((u ++ [r]).take i) ↔
      (Matches u i k ∧ AllClosed (u.take i)) ∨ k = u.length ∧ r = .closes ∧ openers u = [i] := by
  have htake (hi : i ≤ u.length) : (u ++ [r]).take i = u.take i := List.take_append_of_le_length hi
  constructor
  · rintro ⟨hmatches, hclosed⟩
    have hk := hmatches.lt_length
    have hi := hmatches.1
    rw [List.length_append, List.length_singleton] at hk
    rw [htake (by omega)] at hclosed
    rcases Nat.lt_or_eq_of_le (Nat.le_of_lt_succ hk) with hk | rfl
    · exact .inl ⟨(matches_append_iff hk).1 hmatches, hclosed⟩
    · obtain rfl : r = .closes := by simpa using hmatches.2.2.1
      obtain ⟨is, his⟩ := List.head?_eq_some_iff.1 (matches_length_iff.1 hmatches)
      have hnone : openers (u.take i) = is := openers_take [] his
      rw [allClosed_iff.1 hclosed] at hnone
      exact .inr ⟨rfl, rfl, by rw [his, ← hnone]⟩
  · rintro (⟨hmatches, hclosed⟩ | ⟨rfl, rfl, his⟩)
    · rw [htake (hmatches.1.trans hmatches.lt_length).le]
      exact ⟨hmatches.append_right _, hclosed⟩
    · obtain ⟨hlt, hnone⟩ := openers_take_outermost (i := i) (by rw [his]; rfl)
      rw [htake hlt.le]
      exact ⟨matches_length_iff.2 (by rw [his]; rfl), allClosed_iff.2 hnone⟩

end Role

/-- A closed block is that of an opener and its closer, and what stands from the one to the other
    makes it and nothing else. -/
structure ClosedAt (ds : List Directive) (place : Nat × Nat) (b : Block) : Prop where
  opener : ∃ d, ds[place.1]? = some d ∧ b.test = d.opening ∧ (b.standIn = true ↔ d.tag ≠ .ifTag)
  closer : ∃ d, ds[place.2]? = some d ∧ b.closing = d.span
  alone : (Reading.readAll {} ((ds.take (place.2 + 1)).drop place.1)).1.top = [b]

theorem ClosedAt.append {ds : List Directive} {place : Nat × Nat} {b : Block}
    (h : ClosedAt ds place b) (more : List Directive) : ClosedAt (ds ++ more) place b := by
  obtain ⟨⟨o, ho, hopener⟩, ⟨e, he, hcloser⟩, halone⟩ := h
  have hi := (List.getElem?_eq_some_iff.1 ho).1
  have hk := (List.getElem?_eq_some_iff.1 he).1
  refine ⟨⟨o, by rwa [List.getElem?_append_left hi], hopener⟩,
    ⟨e, by rwa [List.getElem?_append_left hk], hcloser⟩, ?_⟩
  rwa [List.take_append_of_le_length hk]

namespace Building

/-- What is built from the outermost open block on is the open blocks. -/
theorem after_drop {ds : List Directive} {i : Nat} (h : (openers (roles ds)).getLast? = some i) :
    after (ds.drop i) = ⟨[], (after ds).levels⟩ := by
  induction ds using List.reverseRecOn with
  | nil => simp [roles, ofTags, openers, openersOf] at h
  | append_singleton ds d ih =>
    have hopen : (after (ds ++ [d])).levels ≠ [] := by
      intro hlevels
      rw [(held_after (ds ++ [d])).eq_nil_iff.1 hlevels] at h
      cases h
    rw [roles_concat] at h
    have hdrop : after ((ds ++ [d]).drop i) = next ⟨[], (after ds).levels⟩ d := by
      rcases getLast?_openers_concat h with ⟨hnone, rfl⟩ | hlast
      · rw [length_roles, List.drop_left, (held_after ds).eq_nil_iff.2 hnone]
        rfl
      · have hle : i ≤ ds.length := by
          rw [← length_roles]
          exact (openers_take_outermost hlast).1.le
        rw [List.drop_append_of_le_length hle, after_concat, ih hlast]
    have hnext := next_top (after ds).top (after ds).levels d
    rw [after_concat, hnext] at hopen ⊢
    rw [hdrop]
    generalize hs : next ⟨[], (after ds).levels⟩ d = s at hopen
    have htop := next_top_eq_nil (hs ▸ hopen)
    rw [hs] at htop
    obtain ⟨top, levels⟩ := s
    obtain rfl : top = [] := htop
    rfl

/-- What stands from the outermost open block on, read alone. -/
theorem top_readAll_drop {ds : List Directive} {d : Directive} (h : ∀ e ∈ ds ++ [d], ¬ e.Stops)
    {i : Nat} (hi : (openers (roles ds)).getLast? = some i) :
    (Reading.readAll {} ((ds ++ [d]).drop i)).1.top = (next ⟨[], (after ds).levels⟩ d).top := by
  obtain ⟨hlt, -⟩ := openers_take_outermost hi
  rw [length_roles] at hlt
  have hstops : ∀ e ∈ (ds ++ [d]).drop i, ¬ e.Stops := fun e he => h e (List.mem_of_mem_drop he)
  have hdrop : (ds ++ [d]).drop i = ds.drop i ++ [d] := List.drop_append_of_le_length hlt.le
  obtain ⟨-, hbuilding⟩ := Reading.readAll_building (r := {}) rfl hstops
  change _ = after _ at hbuilding
  rw [hdrop] at hbuilding ⊢
  rw [after_concat, after_drop hi] at hbuilding
  exact congrArg Building.top hbuilding

/-- The block that an `#endif` closes outside all others. -/
theorem closedAt_concat {ds : List Directive} {d : Directive} (h : ∀ e ∈ ds ++ [d], ¬ e.Stops)
    (htag : d.tag = .endifTag) {i : Nat} (hi : openers (roles ds) = [i]) :
    ∃ b, ClosedAt (ds ++ [d]) (i, ds.length) b ∧
      ((after ds).next d).top = b :: (after ds).top := by
  have halone := top_readAll_drop h (i := i) (by rw [hi]; rfl)
  have hheld := held_after ds
  unfold Holds at hheld
  rw [hi] at hheld
  have hnext (s : Building) : s.next d = s.close d.span := by rw [next, htag]
  rw [hnext] at halone ⊢
  generalize after ds = s at *
  obtain ⟨top, levels⟩ := s
  dsimp only at hheld
  cases hheld with
  | @cons _ level _ _ hheld hrest =>
    cases hrest
    obtain ⟨o, ho, hopener⟩ := hheld.opener
    have hlt := (List.getElem?_eq_some_iff.1 ho).1
    refine ⟨level.1.close (some level.2) d.span, ⟨?_, ⟨d, by simp, rfl⟩, ?_⟩, rfl⟩
    · exact ⟨o, by rwa [List.getElem?_append_left hlt], hopener⟩
    · rw [List.take_of_length_le (by simp)]
      exact halone

/-- The closed blocks outside all others, told by matching. -/
theorem closed_after {ds : List Directive} (h : ∀ d ∈ ds, ¬ d.Stops) :
    ∃ places : List (Nat × Nat), places.Pairwise (fun p q => p.1 < q.1) ∧
      (∀ i k, (i, k) ∈ places ↔ Matches (roles ds) i k ∧ AllClosed ((roles ds).take i)) ∧
      List.Forall₂ (ClosedAt ds) places (after ds).top.reverse := by
  induction ds using List.reverseRecOn with
  | nil =>
    refine ⟨[], .nil, fun i k => ?_, .nil⟩
    simp [Matches, roles, ofTags]
  | append_singleton ds d ih =>
    obtain ⟨places, hsorted, hmem, hclosed⟩ := ih fun e he => h e (List.mem_append_left _ he)
    have hkept : List.Forall₂ (ClosedAt (ds ++ [d])) places (after ds).top.reverse :=
      hclosed.imp fun _ _ hb => hb.append [d]
    have hroles := roles_concat ds d
    rw [hroles, after_concat]
    simp only [outermost_concat_iff, ← hmem]
    by_cases hcloses : d.tag = .endifTag ∧ ∃ i, openers (roles ds) = [i]
    · obtain ⟨htag, i, hi⟩ := hcloses
      obtain ⟨b, hb, htop⟩ := closedAt_concat h htag hi
      refine ⟨places ++ [(i, ds.length)], ?_, fun j k => ?_, ?_⟩
      · refine List.pairwise_append.2 ⟨hsorted, List.pairwise_singleton .., fun p hp q hq => ?_⟩
        obtain rfl := List.mem_singleton.1 hq
        obtain ⟨hmatches, hclosed⟩ := (hmem p.1 p.2).1 hp
        exact lt_outermost (by rw [hi]; rfl) hmatches hclosed
      · rw [htag, Role.next, length_roles, hi]
        simp [and_comm, eq_comm]
      · rw [htop, List.reverse_cons]
        exact List.rel_append hkept (.cons hb .nil)
    · rw [next_top_eq fun htag hone => hcloses ⟨htag, ?_⟩]
      · refine ⟨places, hsorted, fun j k => ⟨.inl, ?_⟩, hkept⟩
        rintro (hjk | ⟨-, hrole, hi⟩)
        · exact hjk
        · exact absurd ⟨next_eq_closes hrole, j, hi⟩ hcloses
      · rw [← List.Forall₂.length_eq (held_after ds)] at hone
        exact List.length_eq_one_iff.1 hone

end Building

/-! ## Readings -/

/-- The stacks of a reading agree with each other and with what is built. -/
structure StacksAgree (ds : List Directive) (r : Reading) : Prop where
  /-- There is a scope for each open block. -/
  paired : r.Scoped
  /-- The open blocks are those of the openers without a closer, and each stands with its scope in
      the block around it. It is the block that closing all of them leaves there. -/
  opened : ∃ places : List Nat, places.Pairwise (· > ·) ∧
    (∀ i, i ∈ places ↔ Unclosed (roles ds) i) ∧
    ∀ e : Directive, e.tag = .endifTag → ∃ wholes : List Block,
      Standing ds e.span none places r.opened r.scopes wholes ∧
        (r.readAll (List.replicate r.opened.length e)).1.top = wholes.getLast?.toList ++ r.top
  /-- The closed blocks outside all others, in order, are those of the openers with a closer that
      stand in no block. -/
  closed : ∃ places : List (Nat × Nat), places.Pairwise (fun p q => p.1 < q.1) ∧
    (∀ i k, (i, k) ∈ places ↔ Matches (roles ds) i k ∧ AllClosed ((roles ds).take i)) ∧
    List.Forall₂ (ClosedAt ds) places r.top.reverse
  /-- There is a scope to replace when a block goes on, and one to drop when it is closed. -/
  ready : ∀ s : Reading, s.opened = r.opened → s.scopes = r.scopes →
    (∀ d m, (s.demandBlock d m).scopes ≠ []) ∧ (s.opened ≠ [] → s.scopes ≠ [])

namespace Reading

theorem Scoped.ready {r : Reading} (h : r.Scoped) :
    (∀ d m, (r.demandBlock d m).scopes ≠ []) ∧ (r.opened ≠ [] → r.scopes ≠ []) := by
  have hopened : r.opened ≠ [] → r.scopes ≠ [] := by
    intro hopened hscopes
    rw [Scoped, hscopes] at h
    exact hopened (List.length_eq_zero_iff.1 h.symm)
  refine ⟨fun d m => ?_, hopened⟩
  unfold demandBlock
  split
  · rename_i b bs hbs
    exact hopened (by simp [hbs])
  · exact List.cons_ne_nil _ _

/-- Closing all open blocks leaves the outermost of them, with the others in it. -/
theorem readAll_closeAll {r : Reading} (h : r.Scoped) {e : Directive} (htag : e.tag = .endifTag) :
    (r.readAll (List.replicate r.opened.length e)).1.top =
      (wholes e.span none (r.opened.zip r.scopes)).getLast?.toList ++ r.top := by
  have hends : ∀ d ∈ List.replicate r.opened.length e, ¬ d.Stops := by
    intro d hd hstop
    rw [List.eq_of_mem_replicate hd, Directive.Stops, htag] at hstop
    cases hstop.1
  have hbuilding := (readAll_building h hends).2
  have hlength : r.opened.length = (r.opened.zip r.scopes).length := by
    rw [← List.length_map Prod.fst, List.map_fst_zip h.ge]
  have hall := Building.closeAll htag r.top (r.opened.zip r.scopes)
  rw [← hlength] at hall
  exact congrArg Building.top (hbuilding.trans hall)

/-- A block that nothing is wrong with, after an `#endif` without an opener and before an `#elseif`
    that opens a block. A block in this one is still open too and went on twice after its `#else`. -/
def knotted : List Directive :=
  [⟨.endifTag, ⟨0, 9, ⟨1, 0⟩⟩, []⟩, ⟨.ifTag, ⟨10, 18, ⟨2, 0⟩⟩, "a"⟩,
   ⟨.endifTag, ⟨19, 28, ⟨3, 0⟩⟩, []⟩, ⟨.elseifTag, ⟨29, 41, ⟨4, 0⟩⟩, "b"⟩,
   ⟨.ifTag, ⟨44, 52, ⟨5, 2⟩⟩, "c"⟩, ⟨.elseTag, ⟨55, 63, ⟨6, 2⟩⟩, []⟩,
   ⟨.elseTag, ⟨66, 74, ⟨7, 2⟩⟩, []⟩, ⟨.ifTag, ⟨79, 87, ⟨8, 4⟩⟩, "d"⟩,
   ⟨.endifTag, ⟨92, 101, ⟨9, 4⟩⟩, []⟩, ⟨.elseifTag, ⟨104, 116, ⟨10, 2⟩⟩, "e"⟩]

end Reading

end GuardedText
