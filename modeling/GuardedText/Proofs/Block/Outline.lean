import GuardedText.Proofs.Block.Reading

/-
  What is wrong with directives. The complaints about a directive depend on its own text and on the
  open blocks, of which only two things matter: where a block was opened and whether it has met an
  `#else`. An `Outline` is what is left of the open blocks then. `Reading.read_outline` says what one
  directive does to the outline and to the complaints, `Reading.readAll_outline` what all of them do,
  and `Block.entries?_ofDirectives` that the entries are the complaints of the outline, unless a guard
  holds a literal without a value. An `#elseif` or `#else` outside every block causes its own entry and
  no other (`Block.entries?_orphan`).
-/

namespace GuardedText

namespace Directive

/-- The guard of a directive holds a literal without a value. -/
def Stops (d : Directive) : Prop :=
  d.tag.takesGuard = true ∧ d.payload ≠ [] ∧
    Guard.compile d.payload = .error (.rejected .badLiteral)

/-- What is wrong with the guard of a directive. -/
def guardMistake? (d : Directive) : Option Mistake :=
  if d.payload.isEmpty then some (.noGuard d.tag)
  else
    match Guard.compile d.payload with
    | .ok _ => none
    | .error e => some (.badGuard e.message)

theorem guardMistake?_of_compiles {d : Directive} {g : Guard} (h : d.Compiles g) :
    d.guardMistake? = none := by
  unfold guardMistake?
  rw [if_neg (by simpa using h.1), h.2]

/-- A guard that does not compile is a mistake. -/
theorem exists_guardMistake? {d : Directive} (h : ∀ g, ¬ d.Compiles g) :
    ∃ m, d.guardMistake? = some m ∧ m.kind = "invalid_expression" := by
  unfold guardMistake?
  split
  · exact ⟨_, rfl, rfl⟩
  · rename_i hpayload
    cases hguard : Guard.compile d.payload with
    | ok g => exact absurd ⟨by simpa using hpayload, hguard⟩ (h g)
    | error e => exact ⟨_, rfl, rfl⟩

theorem not_stops_of_compiles {d : Directive} {g : Guard} (h : d.Compiles g) : ¬ d.Stops := by
  rintro ⟨-, -, hstops⟩
  rw [h.2] at hstops
  cases hstops

/-- A directive whose guard is read holds no literal without a value. -/
theorem not_stops {d : Directive}
    (h : d.tag.takesGuard = true → (Guard.compile d.payload).toOption.isSome = true) :
    ¬ d.Stops := by
  rintro ⟨htag, -, hstops⟩
  have hread := h htag
  rw [hstops] at hread
  cases hread

end Directive

/-! ## Outlines -/

/-- What complaints see of an open block. -/
structure OpenAt where
  /-- Where the block was opened. -/
  position : Position
  /-- Whether it has met an `#else`. -/
  hasElse : Bool
  deriving DecidableEq, Repr

/-- The open blocks as complaints see them, the innermost first. -/
abbrev Outline := List OpenAt

namespace Outline

/-- What is wrong with the place of an `#elseif` or `#else`: outside every block one mistake, after the
    `#else` of its block another. -/
def misplaced (o : Outline) (missing late : Mistake) : List Mistake :=
  match o with
  | [] => [missing]
  | b :: _ => if b.hasElse then [late] else []

/-- What is wrong with a directive. -/
def mistakes (o : Outline) (d : Directive) : List Mistake :=
  match d.tag with
  | .ifTag => d.guardMistake?.toList
  | .elseifTag => d.guardMistake?.toList ++ o.misplaced .elseifWithoutIf .elseifAfterElse
  | .elseTag => o.misplaced .elseWithoutIf .duplicateElse
  | .endifTag => if o.isEmpty then [.endifWithoutIf] else []

/-- The open blocks with one to go on with. -/
def demand (o : Outline) (d : Directive) : Outline :=
  if o.isEmpty then [⟨d.span.position, false⟩] else o

/-- The open blocks after a directive. -/
def next (o : Outline) (d : Directive) : Outline :=
  match d.tag with
  | .ifTag => ⟨d.span.position, false⟩ :: o
  | .elseifTag => o.demand d
  | .elseTag => (o.demand d).modifyHead fun b => { b with hasElse := true }
  | .endifTag => o.tail

/-- The complaints about a directive. -/
def complaintsAt (o : Outline) (d : Directive) : List Complaint :=
  (o.mistakes d).map fun m => ⟨m, d.span.position⟩

/-- The complaints about some directives; blocks that are open at the end come last, the outermost
    first. -/
def complaints (o : Outline) : List Directive → List Complaint
  | [] => o.reverse.map fun b => ⟨.missingEndif, b.position⟩
  | d :: ds => o.complaintsAt d ++ (o.next d).complaints ds

/-- What is wrong with a guard is complained about. -/
theorem mem_complaints {ds : List Directive} {d : Directive} {m : Mistake} (hd : d ∈ ds)
    (htag : d.tag.takesGuard = true) (hm : d.guardMistake? = some m) (o : Outline) :
    ⟨m, d.span.position⟩ ∈ o.complaints ds := by
  induction ds generalizing o with
  | nil => cases hd
  | cons e ds ih =>
    rcases List.mem_cons.1 hd with rfl | hd
    · refine List.mem_append_left _ (List.mem_map.2 ⟨m, ?_, rfl⟩)
      unfold mistakes
      cases hkind : d.tag with
      | ifTag => simp [hm]
      | elseifTag => simp [hm]
      | elseTag => simp [hkind, Tag.takesGuard] at htag
      | endifTag => simp [hkind, Tag.takesGuard] at htag
    · exact List.mem_append_right _ (ih hd _)

end Outline

/-! ## Readings and their outlines -/

namespace Reading

/-- The open blocks as complaints see them. -/
def outline (r : Reading) : Outline := r.opened.map fun b => ⟨b.test.span.position, b.hasElse⟩

/-- What the complaints of a reading are after some mistakes of a directive. -/
def Adds (r r' : Reading) (d : Directive) (ms : List Mistake) : Prop :=
  r'.complaints = (ms.map fun m => ⟨m, d.span.position⟩).reverse ++ r.complaints

theorem Adds.trans {r r' r'' : Reading} {d : Directive} {ms ms' : List Mistake}
    (h : Adds r r' d ms) (h' : Adds r' r'' d ms') : Adds r r'' d (ms ++ ms') := by
  unfold Adds at *
  rw [h', h, List.map_append, List.reverse_append, List.append_assoc]

/-- A guard is read unless it holds a literal without a value. -/
theorem guardOf_outline (r : Reading) {d : Directive} (htag : d.tag.takesGuard = true)
    (h : ¬ d.Stops) : ∃ r' g, r.guardOf d = some (r', g) ∧ r'.opened = r.opened ∧
      Adds r r' d d.guardMistake?.toList := by
  unfold guardOf Directive.guardMistake?
  split
  · exact ⟨_, _, rfl, rfl, rfl⟩
  · rename_i hpayload
    cases hguard : Guard.compile d.payload with
    | ok g => exact ⟨_, _, rfl, rfl, rfl⟩
    | error e =>
      have hvalue : e ≠ .rejected .badLiteral := by
        rintro rfl
        exact h ⟨htag, by simpa using hpayload, hguard⟩
      refine ⟨r.complain (.badGuard e.message) d.span.position, none, ?_, rfl, rfl⟩
      split
      · cases ‹Except.error e = .ok _›
      · rename_i heq
        exact absurd (Except.error.inj heq) hvalue
      · rename_i heq
        rw [Except.error.inj heq]

theorem guardOf_of_stops (r : Reading) {d : Directive} (h : d.Stops) : r.guardOf d = none := by
  obtain ⟨-, hpayload, hguard⟩ := h
  unfold guardOf
  rw [if_neg (by simpa using hpayload), hguard]

/-- The next branch of a block, with the complaints about its place. -/
def turnAt (r : Reading) (d : Directive) (missing late : Mistake) (head : Head) : Reading :=
  let r := r.demandBlock d missing
  (if r.hasElse then r.complain late d.span.position else r).turn head

theorem turnAt_complaints (r : Reading) (d : Directive) (missing late : Mistake) (head : Head) :
    Adds r (r.turnAt d missing late head) d (r.outline.misplaced missing late) := by
  unfold turnAt demandBlock outline Adds
  cases ho : r.opened with
  | nil => rfl
  | cons b bs =>
    have helse : r.hasElse = b.hasElse := by simp [hasElse, ho]
    dsimp only
    rw [List.map_cons, Outline.misplaced, helse]
    split <;> rfl

theorem turnAt_outline (r : Reading) (d : Directive) (missing late : Mistake) (head : Head) :
    (r.turnAt d missing late head).outline =
      (r.outline.demand d).modifyHead fun b => { b with hasElse := b.hasElse || head.isFallback } := by
  unfold turnAt demandBlock outline
  cases ho : r.opened with
  | nil => simp [push, complain, hasElse, turn, ho, OpenBlock.opened, Outline.demand]
  | cons b bs =>
    dsimp only
    split <;> simp [turn, complain, ho, Outline.demand]

theorem readEndif_complaints (r : Reading) (d : Directive) :
    Adds r (r.readEndif d) d (if r.outline.isEmpty then [.endifWithoutIf] else []) := by
  unfold readEndif outline Adds
  cases ho : r.opened with
  | nil => rfl
  | cons b bs =>
    dsimp only [List.map_cons]
    split <;> rfl

theorem readEndif_outline (r : Reading) (d : Directive) :
    (r.readEndif d).outline = r.outline.tail := by
  unfold readEndif outline
  cases ho : r.opened with
  | nil => simp [complain, ho]
  | cons b bs =>
    dsimp only [List.map_cons, List.tail_cons]
    split <;> rfl

/-- What one directive does: its mistakes are complained about and the outline goes on. -/
theorem read_outline (r : Reading) {d : Directive} (h : ¬ d.Stops) :
    ∃ r', r.read d = some r' ∧ r'.outline = r.outline.next d ∧
      Adds r r' d (r.outline.mistakes d) := by
  cases htag : d.tag with
  | ifTag =>
    obtain ⟨s, g, hs, hopened, hadds⟩ := guardOf_outline (r.met d) (by rw [htag]; rfl) h
    refine ⟨s.push ⟨d.span, g.getD OpenBlock.noGuard⟩ false, ?_, ?_, ?_⟩
    · simp only [met, htag] at hs
      simp [read, htag, readIf, hs]
    · simp [outline, push, hopened, met, Outline.next, htag, OpenBlock.opened]
    · simp only [Outline.mistakes, htag]
      exact hadds
  | elseifTag =>
    obtain ⟨s, g, hs, hopened, hadds⟩ := guardOf_outline (r.met d) (by rw [htag]; rfl) h
    have houtline : s.outline = r.outline := by simp [outline, hopened, met]
    let head : Head := .alternative ⟨d.span, g.getD OpenBlock.noGuard⟩
    refine ⟨s.turnAt d .elseifWithoutIf .elseifAfterElse head, ?_, ?_, ?_⟩
    · simp only [met, htag] at hs
      simp [read, htag, readElseif, hs, turnAt, head]
    · rw [turnAt_outline, houtline]
      simp only [Outline.next, htag, head, Head.isFallback, Bool.or_false]
      exact congrFun List.modifyHead_id (r.outline.demand d)
    · have hplace := turnAt_complaints s d .elseifWithoutIf .elseifAfterElse head
      rw [houtline] at hplace
      simp only [Outline.mistakes, htag]
      exact Adds.trans hadds hplace
  | elseTag =>
    refine ⟨(r.met d).turnAt d .elseWithoutIf .duplicateElse (.fallback d.span), ?_, ?_, ?_⟩
    · simp [read, htag, readElse, turnAt, met]
    · rw [turnAt_outline]
      simp [Outline.next, htag, Head.isFallback, outline, met]
    · simp only [Outline.mistakes, htag]
      exact turnAt_complaints (r.met d) d .elseWithoutIf .duplicateElse (.fallback d.span)
  | endifTag =>
    refine ⟨(r.met d).readEndif d, by simp [read, htag, met], ?_, ?_⟩
    · rw [readEndif_outline]
      simp [Outline.next, htag, outline, met]
    · simp only [Outline.mistakes, htag]
      exact readEndif_complaints (r.met d) d

theorem read_of_stops (r : Reading) {d : Directive} (h : d.Stops) : r.read d = none := by
  have hguard := guardOf_of_stops (r.met d) h
  cases htag : d.tag with
  | ifTag =>
    simp only [met, htag] at hguard
    simp [read, htag, readIf, hguard]
  | elseifTag =>
    simp only [met, htag] at hguard
    simp [read, htag, readElseif, hguard]
  | elseTag => simp [Directive.Stops, htag, Tag.takesGuard] at h
  | endifTag => simp [Directive.Stops, htag, Tag.takesGuard] at h

theorem finish_complaints (r : Reading) :
    r.finish.complaints.reverse = r.complaints.reverse ++ r.outline.complaints [] := by
  have hfold : ∀ (bs : List OpenBlock) (r : Reading),
      (bs.foldl (fun r b => r.complain .missingEndif b.test.span.position) r).complaints.reverse =
        r.complaints.reverse ++ bs.map fun b => ⟨.missingEndif, b.test.span.position⟩ := by
    intro bs
    induction bs with
    | nil => simp
    | cons b bs ih =>
      intro r
      rw [List.foldl_cons, ih]
      simp
  rw [finish, hfold]
  simp [Outline.complaints, outline, Function.comp_def]

/-- What all directives do: the complaints at the end are those of the outline. -/
theorem readAll_outline (r : Reading) {ds : List Directive} (h : ∀ d ∈ ds, ¬ d.Stops) :
    ∃ r', r.readAll ds = (r', true) ∧ r'.complaints.reverse ++ r'.outline.complaints [] =
      r.complaints.reverse ++ r.outline.complaints ds := by
  induction ds generalizing r with
  | nil => exact ⟨r, rfl, rfl⟩
  | cons d ds ih =>
    obtain ⟨hd, hds⟩ := List.forall_mem_cons.1 h
    obtain ⟨s, hs, houtline, hadds⟩ := r.read_outline hd
    obtain ⟨r', hr', hcomplaints⟩ := ih s hds
    refine ⟨r', by rw [readAll, hs]; exact hr', ?_⟩
    rw [hcomplaints, houtline, hadds, List.reverse_append, List.reverse_reverse,
      List.append_assoc]
    rfl

/-- A literal without a value stops the reading. -/
theorem readAll_of_stops (r : Reading) {ds : List Directive} (h : ∃ d ∈ ds, d.Stops) :
    (r.readAll ds).2 = false := by
  induction ds generalizing r with
  | nil => simp at h
  | cons d ds ih =>
    by_cases hd : d.Stops
    · rw [readAll, read_of_stops r hd]
    · obtain ⟨s, hs, -⟩ := r.read_outline hd
      obtain ⟨e, he, hstops⟩ := h
      rcases List.mem_cons.1 he with rfl | he
      · exact absurd hstops hd
      · rw [readAll, hs]
        exact ih s ⟨e, he, hstops⟩

theorem readAll_append {r s : Reading} {pre : List Directive} (h : r.readAll pre = (s, true))
    (ds : List Directive) : r.readAll (pre ++ ds) = s.readAll ds := by
  induction pre generalizing r with
  | nil =>
    cases h
    rfl
  | cons d pre ih =>
    rw [List.cons_append, readAll]
    rw [readAll] at h
    split at h
    · exact ih h
    · cases h

end Reading

/-! ## Entries -/

namespace Block

/-- The entries about directives: none when they form blocks; there is no list of entries when a
    literal without a value stopped the reading. -/
def entries? : Except ParseFailure (List Block) → Option (List Complaint)
  | .ok _ => some []
  | .error (.mistakes complaints) => some complaints
  | .error .badLiteral => none

theorem ofDirectives_of_stops {ds : List Directive} (h : ∃ d ∈ ds, d.Stops) :
    (ofDirectives ds).2 = .error .badLiteral := by
  have hstop := Reading.readAll_of_stops {} h
  unfold ofDirectives
  generalize Reading.readAll {} ds = read at hstop
  obtain ⟨r, complete⟩ := read
  dsimp only at hstop ⊢
  rw [hstop]
  rfl

/-- Directives that form no blocks have a mistake, or a literal without a value. -/
theorem mistakes_ne_nil {ds : List Directive} {complaints : List Complaint}
    (h : (ofDirectives ds).2 = .error (.mistakes complaints)) : complaints ≠ [] := by
  unfold ofDirectives at h
  dsimp only at h
  split at h
  · split at h
    · cases h
    · rename_i hclean
      cases h
      simpa using hclean
  · cases h

/-- The entries of a reading that began with some directives. -/
theorem entries?_append {pre ds : List Directive} {r : Reading}
    (hpre : Reading.readAll {} pre = (r, true)) (h : ∀ d ∈ ds, ¬ d.Stops) :
    entries? (ofDirectives (pre ++ ds)).2 =
      some (r.complaints.reverse ++ r.outline.complaints ds) := by
  obtain ⟨r', hr', hcomplaints⟩ := r.readAll_outline h
  have hall := Reading.readAll_append hpre ds
  have hfinish := Reading.finish_complaints
    { r' with notes := .scanned (pre ++ ds).length :: r'.notes }
  replace hfinish := hfinish.trans hcomplaints
  unfold ofDirectives
  rw [hall, hr']
  dsimp only
  rw [if_pos rfl]
  split
  · rename_i hclean
    rw [List.isEmpty_iff.1 hclean] at hfinish
    exact congrArg some hfinish
  · exact congrArg some hfinish

/-- The entries are the complaints of the outline. -/
theorem entries?_ofDirectives {ds : List Directive} (h : ∀ d ∈ ds, ¬ d.Stops) :
    entries? (ofDirectives ds).2 = some (Outline.complaints [] ds) :=
  entries?_append (show Reading.readAll {} [] = ({}, true) from rfl) h

/-! ## Recovery -/

/-- What is said of an `#elseif` or `#else` outside every block. -/
def orphanMistake : Tag → Mistake
  | .elseifTag => .elseifWithoutIf
  | _ => .elseWithoutIf

section

variable {pre post : List Directive} {orphan opening : Directive} {r : Reading}

/-- A stand-in block goes on like the block of an `#if` at its place. -/
theorem complaints_orphan (horphan : orphan.tag = .elseifTag ∨ orphan.tag = .elseTag)
    (hopening : opening.tag = .ifTag) (hguard : ∃ g, opening.Compiles g)
    (hplace : opening.span.position = orphan.span.position) (post : List Directive) :
    ∃ before after,
      Outline.complaints [] (orphan :: post) =
        before ++ ⟨orphanMistake orphan.tag, orphan.span.position⟩ :: after ∧
      Outline.complaints [] (opening :: orphan :: post) = before ++ after := by
  obtain ⟨g, hg⟩ := hguard
  have hsilent : Outline.complaintsAt [] opening = [] := by
    simp [Outline.complaintsAt, Outline.mistakes, hopening, Directive.guardMistake?_of_compiles hg]
  have hopened : Outline.next [] opening = [⟨orphan.span.position, false⟩] := by
    simp [Outline.next, hopening, hplace]
  have hsame : Outline.next [⟨orphan.span.position, false⟩] orphan = Outline.next [] orphan := by
    rcases horphan with htag | htag <;> simp [Outline.next, htag, Outline.demand]
  refine ⟨Outline.complaintsAt [⟨orphan.span.position, false⟩] orphan,
    (Outline.next [] orphan).complaints post, ?_, ?_⟩
  · rw [Outline.complaints]
    rcases horphan with htag | htag <;>
      simp [Outline.complaintsAt, Outline.mistakes, htag, Outline.misplaced, orphanMistake]
  · rw [Outline.complaints, hsilent, List.nil_append, hopened, Outline.complaints, hsame]

/-- An `#elseif` or `#else` outside every block causes one entry, which says so. All other entries are
    those that there would be with an `#if` before it. -/
theorem entries?_orphan (hpre : Reading.readAll {} pre = (r, true)) (hclosed : r.opened = [])
    (horphan : orphan.tag = .elseifTag ∨ orphan.tag = .elseTag)
    (hopening : opening.tag = .ifTag) (hguard : ∃ g, opening.Compiles g)
    (hplace : opening.span.position = orphan.span.position) :
    ∃ n, entries? (ofDirectives (pre ++ opening :: orphan :: post)).2 =
        (entries? (ofDirectives (pre ++ orphan :: post)).2).map (·.eraseIdx n) ∧
      ∀ entries, entries? (ofDirectives (pre ++ orphan :: post)).2 = some entries →
        entries[n]? = some ⟨orphanMistake orphan.tag, orphan.span.position⟩ := by
  by_cases hstops : ∃ d ∈ orphan :: post, d.Stops
  · -- Neither reading comes to its end.
    obtain ⟨d, hd, hstop⟩ := hstops
    have hless : ∃ d ∈ pre ++ orphan :: post, d.Stops :=
      ⟨d, List.mem_append_right _ hd, hstop⟩
    have hmore : ∃ d ∈ pre ++ opening :: orphan :: post, d.Stops :=
      ⟨d, List.mem_append_right _ (List.mem_cons_of_mem _ hd), hstop⟩
    refine ⟨0, ?_, ?_⟩
    · rw [ofDirectives_of_stops hless, ofDirectives_of_stops hmore]
      rfl
    · rw [ofDirectives_of_stops hless]
      nofun
  · have hless : ∀ d ∈ orphan :: post, ¬ d.Stops := fun d hd hstop => hstops ⟨d, hd, hstop⟩
    have hmore : ∀ d ∈ opening :: orphan :: post, ¬ d.Stops := by
      obtain ⟨g, hg⟩ := hguard
      exact List.forall_mem_cons.2 ⟨Directive.not_stops_of_compiles hg, hless⟩
    have houtline : r.outline = [] := by simp [Reading.outline, hclosed]
    obtain ⟨before, after, halone, hboth⟩ :=
      complaints_orphan horphan hopening hguard hplace post
    rw [entries?_append hpre hless, entries?_append hpre hmore, houtline, halone, hboth,
      ← List.append_assoc, ← List.append_assoc]
    refine ⟨(r.complaints.reverse ++ before).length, ?_, ?_⟩
    · rw [Option.map_some, List.eraseIdx_append_of_length_le (Nat.le_refl _), Nat.sub_self,
        List.eraseIdx_cons_zero]
    · intro entries hentries
      cases hentries
      rw [List.getElem?_append_right (Nat.le_refl _), Nat.sub_self]
      rfl

end

/-- An `#endif` outside every block. -/
def strayPre : List Directive := [⟨.endifTag, ⟨0, 9, ⟨1, 0⟩⟩, []⟩]

/-- An `#else` and an `#endif` for a block that is open before them, and an `#if` that is never
    closed. -/
def strayPost : List Directive :=
  [⟨.elseTag, ⟨30, 37, ⟨3, 0⟩⟩, []⟩, ⟨.endifTag, ⟨40, 48, ⟨4, 0⟩⟩, []⟩,
   ⟨.ifTag, ⟨50, 57, ⟨5, 0⟩⟩, "b"⟩]

/-- An `#elseif` whose guard does not parse. -/
def strayElseif : Directive := ⟨.elseifTag, ⟨10, 25, ⟨2, 0⟩⟩, "1 +"⟩

/-- The `#if` that is missing before it. -/
def missingIf : Directive := ⟨.ifTag, ⟨10, 18, ⟨2, 0⟩⟩, "a"⟩

theorem entries?_orphan_stray :
    missingIf.span.position = strayElseif.span.position ∧
    entries? (ofDirectives (strayPre ++ strayElseif :: strayPost)).2 =
      some [⟨.endifWithoutIf, ⟨1, 0⟩⟩, ⟨.badGuard "Unexpected token (1:3)", ⟨2, 0⟩⟩,
        ⟨.elseifWithoutIf, ⟨2, 0⟩⟩, ⟨.missingEndif, ⟨5, 0⟩⟩] ∧
    ∃ n, entries? (ofDirectives (strayPre ++ missingIf :: strayElseif :: strayPost)).2 =
        (entries? (ofDirectives (strayPre ++ strayElseif :: strayPost)).2).map (·.eraseIdx n) ∧
      ∀ entries, entries? (ofDirectives (strayPre ++ strayElseif :: strayPost)).2 = some entries →
        entries[n]? = some ⟨.elseifWithoutIf, ⟨2, 0⟩⟩ := by
  have hguard : ∃ g, missingIf.Compiles g := by
    have hok : (Guard.compile missingIf.payload).toOption.isSome = true := by decide +kernel
    cases hcompile : Guard.compile missingIf.payload with
    | ok g => exact ⟨g, by decide, hcompile⟩
    | error e =>
      rw [hcompile] at hok
      cases hok
  refine ⟨rfl, by decide +kernel, ?_⟩
  exact entries?_orphan (show Reading.readAll {} strayPre = (_, true) from rfl) rfl (Or.inl rfl) rfl
    hguard rfl

end Block

end GuardedText
