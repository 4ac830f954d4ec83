import GuardedText.Proofs.Block.Outline

/-
  What a reading builds of blocks. It depends on the closed blocks outside all others and on the
  open blocks, each with the branch of it that is being read (`Building`), and on nothing else that
  is recorded: as long as there is a scope for each open block, a directive does to the reading what
  it does to the building and leaves a scope for each open block (`Reading.read_building`). So it is
  for a whole reading (`Reading.readAll_building`).
-/

namespace GuardedText

namespace Directive

/-- The guard of a directive, as it stands in a block. -/
def guard (d : Directive) : Guard := d.piece.guard.getD OpenBlock.noGuard

/-- The test of a block that a directive opens; a stand-in has no guard of its own. -/
def opening (d : Directive) : Test :=
  ⟨d.span, if d.tag = .ifTag then d.guard else OpenBlock.noGuard⟩

/-- The head of the branch that a directive begins. -/
def head (d : Directive) : Head :=
  match d.tag with
  | .elseifTag => .alternative ⟨d.span, d.guard⟩
  | .elseTag => .fallback d.span
  | .ifTag | .endifTag => .opening

theorem head_ne_opening {d : Directive} (htag : d.tag = .elseifTag ∨ d.tag = .elseTag) :
    d.head ≠ .opening := by
  rcases htag with htag | htag <;> simp [head, htag]

end Directive

/-! ## What is built -/

/-- What is built of blocks: the closed blocks outside all others, the latest first, and the open
    blocks, the innermost first, each with the branch of it that is being read. -/
structure Building where
  top : List Block := []
  levels : List (OpenBlock × Scope) := []

namespace Building

/-- A block is opened. -/
def push (s : Building) (test : Test) (standIn : Bool) : Building :=
  { s with levels := (.opened test standIn, .opened .opening) :: s.levels }

/-- A block is there to go on with: outside every block a stand-in is opened. -/
def demand (s : Building) (d : Directive) : Building :=
  match s.levels with
  | [] => s.push d.opening true
  | _ :: _ => s

/-- The innermost open block goes on with its next branch. -/
def turn (s : Building) (head : Head) : Building :=
  match s.levels with
  | [] => s
  | (b, c) :: outer =>
    { s with levels :=
      ({ b with done := c :: b.done, hasElse := b.hasElse || head.isFallback }, .opened head) ::
        outer }

/-- The innermost open block is closed and goes into the branch around it. -/
def close (s : Building) (closing : Span) : Building :=
  match s.levels with
  | [] => s
  | [(b, c)] => ⟨b.close (some c) closing :: s.top, []⟩
  | (b, c) :: (b', c') :: outer =>
    { s with levels := (b', c'.nest (b.close (some c) closing)) :: outer }

/-- What is built after a directive. -/
def next (s : Building) (d : Directive) : Building :=
  match d.tag with
  | .ifTag => s.push d.opening false
  | .elseifTag | .elseTag => (s.demand d).turn d.head
  | .endifTag => s.close d.span

/-- What is built after some directives. -/
def after (ds : List Directive) : Building := ds.foldl next {}

theorem after_concat (ds : List Directive) (d : Directive) :
    after (ds ++ [d]) = (after ds).next d := by
  rw [after, List.foldl_append, ← after]
  rfl

/-- What is closed outside all blocks stays, and nothing looks at it. -/
theorem next_top (top : List Block) (levels : List (OpenBlock × Scope)) (d : Directive) :
    next ⟨top, levels⟩ d =
      ⟨(next ⟨[], levels⟩ d).top ++ top, (next ⟨[], levels⟩ d).levels⟩ := by
  unfold next
  cases d.tag with
  | ifTag => rfl
  | elseifTag | elseTag => cases levels <;> rfl
  | endifTag =>
    match levels with
    | [] | [_] | _ :: _ :: _ => rfl

/-- Only an `#endif` of the one open block closes a block outside all others. -/
theorem next_top_eq {s : Building} {d : Directive}
    (h : d.tag = .endifTag → s.levels.length ≠ 1) : (s.next d).top = s.top := by
  obtain ⟨top, levels⟩ := s
  unfold next
  cases htag : d.tag with
  | ifTag => rfl
  | elseifTag | elseTag => cases levels <;> rfl
  | endifTag =>
    match levels with
    | [] | _ :: _ :: _ => rfl
    | [_] => exact absurd rfl (h htag)

/-- Where a block is left open, none was closed outside all others by this directive. -/
theorem next_top_eq_nil {levels : List (OpenBlock × Scope)} {d : Directive}
    (h : (next ⟨[], levels⟩ d).levels ≠ []) : (next ⟨[], levels⟩ d).top = [] := by
  refine next_top_eq fun htag hone => h ?_
  obtain ⟨level, rfl⟩ := List.length_eq_one_iff.1 hone
  rw [next, htag]
  rfl

end Building

namespace Reading

/-- What a reading has built of blocks. -/
def building (r : Reading) : Building := ⟨r.top, r.opened.zip r.scopes⟩

/-- There is a scope for each open block. -/
def Scoped (r : Reading) : Prop := r.scopes.length = r.opened.length

theorem guardOf_building {r r' : Reading} {d : Directive} {g : Option Guard}
    (htag : d.tag.takesGuard = true) (h : r.guardOf d = some (r', g)) :
    r'.opened = r.opened ∧ r'.scopes = r.scopes ∧ r'.top = r.top ∧
      g.getD OpenBlock.noGuard = d.guard := by
  have hguard : d.guard = (Guard.compile d.payload).toOption.getD OpenBlock.noGuard := by
    rw [Directive.guard, Directive.piece, if_pos htag]
  rw [hguard]
  unfold guardOf at h
  split at h
  · rename_i hpayload
    cases h
    rw [List.isEmpty_iff.1 hpayload]
    exact ⟨rfl, rfl, rfl, rfl⟩
  · split at h
    · rename_i hok
      cases h
      rw [hok]
      exact ⟨rfl, rfl, rfl, rfl⟩
    · cases h
    · rename_i herror
      cases h
      rw [herror]
      exact ⟨rfl, rfl, rfl, rfl⟩

/-- The next branch of a block, with or without complaints about its place. -/
theorem turnAt_building {r : Reading} (hscoped : r.Scoped) {d : Directive}
    (htag : d.tag ≠ .ifTag) (missing late : Mistake) (head : Head) :
    (r.turnAt d missing late head).Scoped ∧
      (r.turnAt d missing late head).building = (r.building.demand d).turn head := by
  have hopening : d.opening = ⟨d.span, OpenBlock.noGuard⟩ := by
    rw [Directive.opening, if_neg htag]
  obtain ⟨top, opened, scopes, complaints, notes⟩ := r
  unfold Scoped at hscoped
  cases opened with
  | nil =>
    obtain rfl := List.length_eq_zero_iff.1 hscoped
    exact ⟨rfl, by rw [building, building, Building.demand, hopening]; rfl⟩
  | cons b opened =>
    cases scopes with
    | nil => cases hscoped
    | cons c scopes =>
      -- A complaint in between changes neither stack.
      unfold turnAt demandBlock hasElse
      dsimp only
      split <;> exact ⟨hscoped, rfl⟩

theorem readEndif_building {r : Reading} (hscoped : r.Scoped) (d : Directive) :
    (r.readEndif d).Scoped ∧ (r.readEndif d).building = r.building.close d.span := by
  obtain ⟨top, opened, scopes, complaints, notes⟩ := r
  unfold Scoped at hscoped
  match opened, scopes with
  | [], [] => exact ⟨rfl, rfl⟩
  | [b], [c] => exact ⟨rfl, rfl⟩
  | b :: b' :: opened, c :: c' :: scopes =>
    exact ⟨Nat.succ.inj hscoped, rfl⟩

/-- What one directive does: there stays a scope for each open block, and what is built goes on. -/
theorem read_building {r r' : Reading} (hscoped : r.Scoped) {d : Directive}
    (h : r.read d = some r') : r'.Scoped ∧ r'.building = r.building.next d := by
  have hmet : (r.met d).Scoped := hscoped
  unfold read at h
  unfold Building.next
  rw [show r.building = (r.met d).building from rfl]
  change (match d.tag with
    | .ifTag => (r.met d).readIf d
    | .elseifTag => (r.met d).readElseif d
    | .elseTag => some ((r.met d).readElse d)
    | .endifTag => some ((r.met d).readEndif d)) = some r' at h
  generalize r.met d = r at h hmet
  cases htag : d.tag with
  | ifTag =>
    rw [htag] at h
    obtain ⟨⟨s, g⟩, hs, hr'⟩ := Option.bind_eq_some_iff.1 h
    cases hr'
    obtain ⟨hopened, hscopes, htop, hg⟩ := guardOf_building (by rw [htag]; rfl) hs
    refine ⟨?_, ?_⟩
    · simpa [Scoped, push, hopened, hscopes] using hmet
    · simp [building, push, hopened, hscopes, htop, hg, Building.push, Directive.opening, htag]
  | elseifTag =>
    rw [htag] at h
    obtain ⟨⟨s, g⟩, hs, hr'⟩ := Option.bind_eq_some_iff.1 h
    cases hr'
    obtain ⟨hopened, hscopes, htop, hg⟩ := guardOf_building (by rw [htag]; rfl) hs
    have hsame : s.building = r.building := by rw [building, hopened, hscopes, htop, building]
    have hscopes : s.Scoped := by rwa [Scoped, hopened, hscopes]
    have hhead : d.head = .alternative ⟨d.span, d.guard⟩ := by rw [Directive.head, htag]
    dsimp only
    rw [hg, hhead, ← hsame]
    exact turnAt_building hscopes (by rw [htag]; decide) ..
  | elseTag =>
    rw [htag] at h
    cases h
    have hhead : d.head = .fallback d.span := by rw [Directive.head, htag]
    dsimp only
    rw [hhead]
    exact turnAt_building hmet (by rw [htag]; decide) ..
  | endifTag =>
    rw [htag] at h
    cases h
    exact readEndif_building hmet d

/-- What directives do that hold no literal without a value. -/
theorem readAll_building {r : Reading} (hscoped : r.Scoped) {ds : List Directive}
    (h : ∀ d ∈ ds, ¬ d.Stops) :
    (r.readAll ds).1.Scoped ∧ (r.readAll ds).1.building = ds.foldl Building.next r.building := by
  induction ds generalizing r with
  | nil => exact ⟨hscoped, rfl⟩
  | cons d ds ih =>
    obtain ⟨hd, hds⟩ := List.forall_mem_cons.1 h
    obtain ⟨s, hs, -⟩ := r.read_outline hd
    obtain ⟨hsscoped, hbuilding⟩ := read_building hscoped hs
    rw [readAll, hs, List.foldl_cons, ← hbuilding]
    exact ih hsscoped hds

/-- What directives leave that are read to the end. -/
theorem building_of_readAll {ds : List Directive} {r : Reading} (h : readAll {} ds = (r, true)) :
    (∀ d ∈ ds, ¬ d.Stops) ∧ r.Scoped ∧ r.building = Building.after ds := by
  have hstops : ∀ d ∈ ds, ¬ d.Stops := by
    intro d hd hstop
    have hread := readAll_of_stops {} ⟨d, hd, hstop⟩
    rw [h] at hread
    cases hread
  have hbuilding := readAll_building (r := {}) rfl hstops
  rw [h] at hbuilding
  exact ⟨hstops, hbuilding⟩

end Reading

end GuardedText
