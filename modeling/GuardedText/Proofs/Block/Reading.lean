import GuardedText.Block.Parser
import GuardedText.Proofs.Block.Grammar

/-
  Reading directives without a mistake. A directive that causes no complaint does one of four things
  (`CleanStep`, `read_clean_iff`), and a reading that ends without a complaint is a run of such steps
  (`readAll_clean_iff`). There is such a run exactly when the nesting allows every directive and the
  guards compile (`CleanRun.nesting`, `exists_cleanRun`).
-/

namespace GuardedText

/-- Whether a directive is followed by a guard. -/
def Tag.takesGuard : Tag → Bool
  | .ifTag | .elseifTag => true
  | .elseTag | .endifTag => false

namespace Directive

/-- The payload of a directive is not empty and compiles to a guard. -/
def Compiles (d : Directive) (g : Guard) : Prop :=
  d.payload ≠ [] ∧ Guard.compile d.payload = .ok g

/-- A directive with the guard that its tag asks for. -/
def Guarded (d : Directive) : Prop := d.tag.takesGuard = true → ∃ g, d.Compiles g

/-- A directive as it stands in a block. -/
def piece (d : Directive) : Piece :=
  ⟨d.tag, d.span, if d.tag.takesGuard then (Guard.compile d.payload).toOption else none⟩

theorem piece_guarded {d : Directive} {g : Guard} (htag : d.tag.takesGuard = true)
    (h : d.Compiles g) : d.piece = ⟨d.tag, d.span, some g⟩ := by
  simp [piece, htag, h.2, Except.toOption]

theorem piece_unguarded {d : Directive} (htag : d.tag.takesGuard = false) :
    d.piece = ⟨d.tag, d.span, none⟩ := by
  simp [piece, htag]

end Directive

namespace Reading

/-! ## Complaints -/

@[simp] theorem complain_complaints (r : Reading) (m : Mistake) (p : Position) :
    (r.complain m p).complaints = ⟨m, p⟩ :: r.complaints := rfl

/-- What was read, with the note on a directive. -/
def met (r : Reading) (d : Directive) : Reading :=
  { r with notes := .directive d.tag d.span.position :: r.notes }

theorem guardOf_of_compiles (r : Reading) {d : Directive} {g : Guard} (h : d.Compiles g) :
    r.guardOf d = some (r, some g) := by
  unfold guardOf
  rw [if_neg (by simpa using h.1), h.2]

theorem guardOf_clean {r r' : Reading} {d : Directive} {g : Option Guard}
    (h : r.guardOf d = some (r', g)) (hclean : r'.complaints = []) :
    r' = r ∧ ∃ k, g = some k ∧ d.Compiles k := by
  unfold guardOf at h
  split at h
  · cases h
    simp at hclean
  · rename_i hpayload
    split at h
    · rename_i k hk
      cases h
      exact ⟨rfl, k, rfl, by simpa using hpayload, hk⟩
    · cases h
    · cases h
      simp at hclean

theorem demandBlock_clean {r : Reading} {d : Directive} {m : Mistake}
    (hclean : (r.demandBlock d m).complaints = []) :
    r.demandBlock d m = r ∧ ∃ b bs, r.opened = b :: bs := by
  cases ho : r.opened with
  | nil => simp [demandBlock, ho, push] at hclean
  | cons b bs => exact ⟨by simp [demandBlock, ho], b, bs, rfl⟩

/-- What a directive does that is read without a complaint. -/
inductive CleanStep (r : Reading) (d : Directive) : Reading → Prop where
  | opens (g : Guard) : d.tag = .ifTag → d.Compiles g →
      CleanStep r d ((r.met d).push ⟨d.span, g⟩ false)
  | alternates (g : Guard) (b : OpenBlock) (bs : List OpenBlock) : d.tag = .elseifTag →
      d.Compiles g → r.opened = b :: bs → b.hasElse = false →
      CleanStep r d ((r.met d).turn (.alternative ⟨d.span, g⟩))
  | fallsBack (b : OpenBlock) (bs : List OpenBlock) : d.tag = .elseTag → r.opened = b :: bs →
      b.hasElse = false → CleanStep r d ((r.met d).turn (.fallback d.span))
  | closes (b : OpenBlock) (bs : List OpenBlock) : d.tag = .endifTag → r.opened = b :: bs →
      CleanStep r d ((r.met d).readEndif d)

theorem turn_clean {r r' : Reading} {d : Directive} {missing late : Mistake} {head : Head}
    (h : r' = (let r := r.demandBlock d missing
      (if r.hasElse then r.complain late d.span.position else r).turn head))
    (hclean : r'.complaints = []) :
    r.complaints = [] ∧ ∃ b bs, r.opened = b :: bs ∧ b.hasElse = false ∧ r' = r.turn head := by
  dsimp only at h
  subst h
  split at hclean
  · simp [turn] at hclean
  · rename_i helse
    obtain ⟨hsame, b, bs, ho⟩ := demandBlock_clean (d := d) (m := missing) hclean
    rw [hsame] at helse hclean ⊢
    refine ⟨hclean, b, bs, ho, by simpa [hasElse, ho] using helse, ?_⟩
    rw [if_neg helse]

theorem readEndif_clean {r : Reading} {d : Directive} (hclean : (r.readEndif d).complaints = []) :
    ∃ b bs, r.opened = b :: bs ∧ r.complaints = [] := by
  cases ho : r.opened with
  | nil => simp [readEndif, ho] at hclean
  | cons b bs =>
    refine ⟨b, bs, rfl, ?_⟩
    simp only [readEndif, ho] at hclean
    split at hclean <;> exact hclean

/-- Reading a directive without a complaint is one of the four steps. -/
theorem read_clean_iff {r r' : Reading} {d : Directive} :
    r.read d = some r' ∧ r'.complaints = [] ↔ r.complaints = [] ∧ CleanStep r d r' := by
  constructor
  · rintro ⟨h, hclean⟩
    unfold read at h
    dsimp only at h
    split at h
    · rename_i htag
      obtain ⟨⟨s, g⟩, hg, hs⟩ := Option.bind_eq_some_iff.1 h
      cases hs
      obtain ⟨rfl, k, rfl, hk⟩ := guardOf_clean hg hclean
      exact ⟨hclean, .opens k htag hk⟩
    · rename_i htag
      obtain ⟨⟨s, g⟩, hg, hs⟩ := Option.bind_eq_some_iff.1 h
      cases hs
      obtain ⟨hc, b, bs, ho, helse, hturn⟩ := turn_clean rfl hclean
      obtain ⟨rfl, k, rfl, hk⟩ := guardOf_clean hg hc
      refine ⟨hc, ?_⟩
      rw [hturn]
      exact .alternates k b bs htag hk ho helse
    · rename_i htag
      cases h
      obtain ⟨hc, b, bs, ho, helse, hturn⟩ := turn_clean rfl hclean
      refine ⟨hc, ?_⟩
      rw [readElse, hturn]
      exact .fallsBack b bs htag ho helse
    · rename_i htag
      cases h
      obtain ⟨b, bs, ho, hc⟩ := readEndif_clean hclean
      exact ⟨hc, .closes b bs htag ho⟩
  · rintro ⟨hclean, hstep⟩
    cases hstep with
    | opens g htag hg =>
      refine ⟨?_, hclean⟩
      simp [read, htag, readIf, guardOf_of_compiles _ hg, met]
    | alternates g b bs htag hg ho helse =>
      refine ⟨?_, hclean⟩
      simp [read, htag, readElseif, guardOf_of_compiles _ hg, demandBlock, ho, hasElse, helse, met]
    | fallsBack b bs htag ho helse =>
      refine ⟨?_, hclean⟩
      simp [read, htag, readElse, demandBlock, ho, hasElse, helse, met]
    | closes b bs htag ho =>
      refine ⟨by simp [read, htag, met], ?_⟩
      simp only [readEndif, met, ho]
      split <;> exact hclean

/-! ## Readings -/

/-- A run of steps without a complaint. -/
inductive CleanRun : Reading → List Directive → Reading → Prop where
  | nil (r : Reading) : CleanRun r [] r
  | cons {r s t : Reading} {d : Directive} {ds : List Directive} : CleanStep r d s →
      CleanRun s ds t → CleanRun r (d :: ds) t

theorem readAll_clean_iff {r r' : Reading} {ds : List Directive} :
    r.readAll ds = (r', true) ∧ r'.complaints = [] ↔ r.complaints = [] ∧ CleanRun r ds r' := by
  induction ds generalizing r with
  | nil =>
    constructor
    · rintro ⟨h, hclean⟩
      cases h
      exact ⟨hclean, .nil _⟩
    · rintro ⟨hclean, hrun⟩
      cases hrun
      exact ⟨rfl, hclean⟩
  | cons d ds ih =>
    constructor
    · rintro ⟨h, hclean⟩
      rw [readAll] at h
      split at h
      · rename_i s hs
        obtain ⟨hsclean, hrun⟩ := ih.1 ⟨h, hclean⟩
        obtain ⟨hrclean, hstep⟩ := read_clean_iff.1 ⟨hs, hsclean⟩
        exact ⟨hrclean, .cons hstep hrun⟩
      · cases h
    · rintro ⟨hclean, hrun⟩
      cases hrun with
      | cons hstep hrest =>
        obtain ⟨hread, hsclean⟩ := read_clean_iff.2 ⟨hclean, hstep⟩
        rw [readAll, hread]
        exact ih.2 ⟨hsclean, hrest⟩

/-! ## Nesting -/

/-- Whether each open block has met its `#else`, the innermost first. -/
def nesting (r : Reading) : Nesting := r.opened.map OpenBlock.hasElse

theorem readEndif_opened {r : Reading} {d : Directive} {b : OpenBlock} {bs : List OpenBlock}
    (ho : r.opened = b :: bs) : (r.readEndif d).opened = bs := by
  simp only [readEndif, ho]
  split <;> rfl

theorem CleanStep.nesting {r r' : Reading} {d : Directive} (h : CleanStep r d r') :
    r.nesting.step d.tag = some r'.nesting ∧ d.Guarded := by
  cases h with
  | opens g htag hg =>
    exact ⟨by simp [htag, Nesting.step, Reading.nesting, push, met, OpenBlock.opened],
      fun _ => ⟨g, hg⟩⟩
  | alternates g b bs htag hg ho helse =>
    refine ⟨?_, fun _ => ⟨g, hg⟩⟩
    simp [htag, Nesting.step, Reading.nesting, turn, met, ho, helse, Head.isFallback]
  | fallsBack b bs htag ho helse =>
    refine ⟨?_, fun h => by simp [htag, Tag.takesGuard] at h⟩
    simp [htag, Nesting.step, Reading.nesting, turn, met, ho, helse, Head.isFallback]
  | closes b bs htag ho =>
    refine ⟨?_, fun h => by simp [htag, Tag.takesGuard] at h⟩
    have hm : (r.met d).opened = b :: bs := ho
    simp [htag, Nesting.step, Reading.nesting, readEndif_opened hm, ho]

/-- A directive that may stand where it does, with the guard it needs, is read. -/
theorem exists_cleanStep {r : Reading} {d : Directive} {opened : Nesting}
    (h : r.nesting.step d.tag = some opened) (hg : d.Guarded) : ∃ r', CleanStep r d r' := by
  cases htag : d.tag with
  | ifTag =>
    obtain ⟨g, hg⟩ := hg (by simp [htag, Tag.takesGuard])
    exact ⟨_, .opens g htag hg⟩
  | elseifTag =>
    obtain ⟨g, hg⟩ := hg (by simp [htag, Tag.takesGuard])
    cases ho : r.opened with
    | nil => simp [htag, Reading.nesting, ho, Nesting.step] at h
    | cons b bs =>
      cases helse : b.hasElse with
      | true => simp [htag, Reading.nesting, ho, Nesting.step, helse] at h
      | false => exact ⟨_, .alternates g b bs htag hg ho helse⟩
  | elseTag =>
    cases ho : r.opened with
    | nil => simp [htag, Reading.nesting, ho, Nesting.step] at h
    | cons b bs =>
      cases helse : b.hasElse with
      | true => simp [htag, Reading.nesting, ho, Nesting.step, helse] at h
      | false => exact ⟨_, .fallsBack b bs htag ho helse⟩
  | endifTag =>
    cases ho : r.opened with
    | nil => simp [htag, Reading.nesting, ho, Nesting.step] at h
    | cons b bs => exact ⟨_, .closes b bs htag ho⟩

theorem CleanRun.nesting {r r' : Reading} {ds : List Directive} (h : CleanRun r ds r') :
    r.nesting.run (ds.map Directive.tag) = some r'.nesting ∧ ∀ d ∈ ds, d.Guarded := by
  induction h with
  | nil r => exact ⟨rfl, by simp⟩
  | cons hstep hrun ih =>
    obtain ⟨hnext, hguarded⟩ := hstep.nesting
    refine ⟨?_, List.forall_mem_cons.2 ⟨hguarded, ih.2⟩⟩
    rw [List.map_cons, Nesting.run, hnext]
    exact ih.1

/-- Directives that may stand where they do, with the guards they need, are read. -/
theorem exists_cleanRun {r : Reading} {ds : List Directive} {opened : Nesting}
    (h : r.nesting.run (ds.map Directive.tag) = some opened) (hg : ∀ d ∈ ds, d.Guarded) :
    ∃ r', CleanRun r ds r' := by
  induction ds generalizing r with
  | nil => exact ⟨r, .nil r⟩
  | cons d ds ih =>
    rw [List.map_cons, Nesting.run] at h
    obtain ⟨next, hnext, hrest⟩ := Option.bind_eq_some_iff.1 h
    obtain ⟨hd, hds⟩ := List.forall_mem_cons.1 hg
    obtain ⟨s, hs⟩ := exists_cleanStep hnext hd
    rw [hs.nesting.1] at hnext
    cases hnext
    obtain ⟨t, ht⟩ := ih hrest hds
    exact ⟨t, .cons hs ht⟩

/-! ## The end of a reading -/

theorem length_complaints_foldl (bs : List OpenBlock) (r : Reading) :
    (bs.foldl (fun r b => r.complain .missingEndif b.test.span.position) r).complaints.length =
      bs.length + r.complaints.length := by
  induction bs generalizing r with
  | nil => simp
  | cons b bs ih =>
    rw [List.foldl_cons, ih, complain_complaints, List.length_cons, List.length_cons]
    omega

/-- A reading ends without a complaint exactly when it had none and no block is open. -/
theorem finish_clean_iff {r : Reading} :
    r.finish.complaints = [] ↔ r.opened = [] ∧ r.complaints = [] := by
  rw [← List.length_eq_zero_iff, finish, length_complaints_foldl, List.length_reverse,
    Nat.add_eq_zero_iff, List.length_eq_zero_iff, List.length_eq_zero_iff]

theorem finish_of_closed {r : Reading} (h : r.opened = []) : r.finish = r := by
  simp [finish, h]

end Reading

namespace Block

/-- Directives form blocks exactly when they are read to the end without a complaint. -/
theorem ofDirectives_eq_ok_iff {ds : List Directive} {blocks : List Block} :
    (ofDirectives ds).2 = .ok blocks ↔
      ∃ r, Reading.CleanRun {} ds r ∧ r.opened = [] ∧ blocks = r.top.reverse := by
  constructor
  · intro h
    unfold ofDirectives at h
    generalize hr : Reading.readAll {} ds = read at h
    obtain ⟨r, complete⟩ := read
    dsimp only at h
    split at h
    · rename_i hcomplete
      subst hcomplete
      split at h
      · rename_i hclean
        obtain ⟨hopened, hcomplaints⟩ := Reading.finish_clean_iff.1 (List.isEmpty_iff.1 hclean)
        obtain ⟨-, hrun⟩ := Reading.readAll_clean_iff.1 ⟨hr, hcomplaints⟩
        refine ⟨r, hrun, hopened, ?_⟩
        rw [Reading.finish_of_closed hopened] at h
        cases h
        rfl
      · cases h
    · cases h
  · rintro ⟨r, hrun, hopened, rfl⟩
    obtain ⟨hr, hclean⟩ := Reading.readAll_clean_iff.2 ⟨rfl, hrun⟩
    have hclosed : Reading.opened { r with notes := .scanned ds.length :: r.notes } = [] := hopened
    unfold ofDirectives
    rw [hr]
    dsimp only
    rw [if_pos rfl, Reading.finish_of_closed hclosed, if_pos (by simp [hclean])]

end Block

end GuardedText
