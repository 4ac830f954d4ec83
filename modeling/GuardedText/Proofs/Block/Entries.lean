import Mathlib.Data.List.FinRange
import Mathlib.Data.List.Forall2
import Mathlib.Data.List.Sort
import GuardedText.Proofs.Block.Matching

/-
  The entries about directives, told by matching. The outline of a reading is the list of openers
  without a closer, each with whether an `#else` of its block was met (`Outline.stands_after`), so
  every mistake of place is one that matching tells (`Outline.mistakes_iff`). All entries together:
  `Block.entries?_matching`.
-/

namespace GuardedText

open Role

namespace Directive

/-- The roles of directives. -/
def roles (ds : List Directive) : List Role := ofTags (ds.map Directive.tag)

/-- The directive with a number is an `#else`. -/
def ElseAt (ds : List Directive) (j : Nat) : Prop := (ds[j]?).map Directive.tag = some .elseTag

/-- The block of a directive has met an `#else` before, outside the blocks in it. -/
def AfterElse (ds : List Directive) (i : Nat) : Prop :=
  ∃ o j, j < i ∧ ElseAt ds j ∧ InBlock (roles ds) o j ∧ InBlock (roles ds) o i

theorem length_roles (ds : List Directive) : (roles ds).length = ds.length := by
  rw [roles, length_ofTags, List.length_map]

theorem roles_concat (ds : List Directive) (d : Directive) :
    roles (ds ++ [d]) = roles ds ++ [Role.next (roles ds) d.tag] := by
  simp [roles, ofTags_concat]

theorem roles_append (ds more : List Directive) : ∃ rest, roles (ds ++ more) = roles ds ++ rest := by
  obtain ⟨rest, hrest⟩ := ofTags_append (ds.map Directive.tag) (more.map Directive.tag)
  exact ⟨rest, by rw [roles, List.map_append, hrest, roles]⟩

/-- The role of a directive is decided by those before it. -/
theorem roles_split (pre post : List Directive) (d : Directive) :
    ∃ rest, roles (pre ++ d :: post) = roles pre ++ Role.next (roles pre) d.tag :: rest := by
  obtain ⟨rest, hrest⟩ := roles_append (pre ++ [d]) post
  refine ⟨rest, ?_⟩
  rw [roles_concat] at hrest
  simpa using hrest

end Directive

namespace Role

open Directive

/-! ## The block of the next directive -/

variable {u rest : List Role} {r : Role} {i : Nat}

/-- A closer belongs to the innermost open block. -/
theorem matches_length_iff :
    Matches (u ++ .closes :: rest) i u.length ↔ (openers u).head? = some i := by
  rw [head_openers_iff, Matches, between_length]
  constructor
  · rintro ⟨hlt, hopens, -, hbal⟩
    exact ⟨by rwa [List.getElem?_append_left hlt] at hopens, hbal⟩
  · rintro ⟨hopens, hbal⟩
    have hlt : i < u.length := (List.getElem?_eq_some_iff.1 hopens).1
    exact ⟨hlt, by rwa [List.getElem?_append_left hlt], by simp, hbal⟩

/-- A directive belongs to the innermost open block, or opens one. -/
theorem inBlock_length_iff :
    InBlock (u ++ r :: rest) i u.length ↔
      (i = u.length ∧ r = .opens) ∨ (openers u).head? = some i := by
  rw [head_openers_iff, InBlock, between_length]
  constructor
  · rintro ⟨hopens, rfl | ⟨hlt, hbal⟩⟩
    · exact .inl ⟨rfl, by simpa using hopens⟩
    · exact .inr ⟨by rwa [List.getElem?_append_left hlt] at hopens, hbal⟩
  · rintro (⟨rfl, rfl⟩ | ⟨hopens, hbal⟩)
    · exact ⟨by simp, .inl rfl⟩
    · have hlt : i < u.length := (List.getElem?_eq_some_iff.1 hopens).1
      exact ⟨by rwa [List.getElem?_append_left hlt], .inr ⟨hlt, hbal⟩⟩

/-- Whether an earlier place belongs to a block is decided before. -/
theorem inBlock_append_iff {k : Nat} (hk : k < u.length) :
    InBlock (u ++ rest) i k ↔ InBlock u i k := by
  unfold InBlock
  rw [between_append_right (by omega)]
  constructor
  · rintro ⟨hopens, hplace⟩
    exact ⟨by rwa [List.getElem?_append_left (by omega)] at hopens, hplace⟩
  · rintro ⟨hopens, hplace⟩
    exact ⟨by rwa [List.getElem?_append_left (by omega)], hplace⟩

theorem InBlock.le {k : Nat} (h : InBlock u i k) : i ≤ k := by
  rcases h.2 with rfl | ⟨hlt, -⟩ <;> omega

end Role

open Directive

namespace Outline

/-! ## Outlines -/

/-- What an outline tells of an open block. -/
def Tells (ds : List Directive) (i : Nat) (b : OpenAt) : Prop :=
  (∃ d, ds[i]? = some d ∧ b.position = d.span.position) ∧
    (b.hasElse = true ↔ ∃ j, ElseAt ds j ∧ InBlock (roles ds) i j)

/-- The outline after some directives tells of the openers without a closer. -/
def Stands (ds : List Directive) (o : Outline) : Prop :=
  List.Forall₂ (Tells ds) (openers (roles ds)) o

/-- The open blocks after some directives. -/
def after (ds : List Directive) : Outline := ds.foldl next []

theorem ElseAt.lt_length {ds : List Directive} {j : Nat} (h : ElseAt ds j) : j < ds.length := by
  by_contra hge
  simp [ElseAt, List.getElem?_eq_none (not_lt.1 hge)] at h

theorem elseAt_concat_iff {ds : List Directive} {d : Directive} {j : Nat} :
    ElseAt (ds ++ [d]) j ↔ ElseAt ds j ∨ j = ds.length ∧ d.tag = .elseTag := by
  unfold ElseAt
  rcases Nat.lt_trichotomy j ds.length with hlt | rfl | hgt
  · rw [List.getElem?_append_left hlt]
    simp [Nat.ne_of_lt hlt]
  · simp
  · rw [List.getElem?_eq_none (by simp; omega), List.getElem?_eq_none (by omega)]
    simp
    omega

section

variable {ds : List Directive} {d : Directive} {i : Nat} {b : OpenAt}

/-- What one directive does to what an outline tells of an open block. -/
theorem Tells.concat (h : Tells ds i b) {e : Bool}
    (he : e = true ↔ b.hasElse = true ∨
      d.tag = .elseTag ∧ InBlock (roles (ds ++ [d])) i ds.length) :
    Tells (ds ++ [d]) i { b with hasElse := e } := by
  obtain ⟨⟨c, hc, hposition⟩, helse⟩ := h
  have hlt : i < ds.length := (List.getElem?_eq_some_iff.1 hc).1
  refine ⟨⟨c, by rwa [List.getElem?_append_left hlt], hposition⟩, ?_⟩
  change e = true ↔ _
  rw [he, helse]
  constructor
  · rintro (⟨j, hj, hin⟩ | ⟨htag, hin⟩)
    · refine ⟨j, elseAt_concat_iff.2 (.inl hj), ?_⟩
      rwa [roles_concat, inBlock_append_iff (by rw [length_roles]; exact ElseAt.lt_length hj)]
    · exact ⟨ds.length, elseAt_concat_iff.2 (.inr ⟨rfl, htag⟩), hin⟩
  · rintro ⟨j, hj, hin⟩
    rcases elseAt_concat_iff.1 hj with hj | ⟨rfl, htag⟩
    · refine .inl ⟨j, hj, ?_⟩
      rwa [roles_concat,
        inBlock_append_iff (by rw [length_roles]; exact ElseAt.lt_length hj)] at hin
    · exact .inr ⟨htag, hin⟩

/-- A directive that is no `#else` of a block leaves what an outline tells of the block. -/
theorem Tells.keep (h : Tells ds i b)
    (hother : d.tag = .elseTag → ¬ InBlock (roles (ds ++ [d])) i ds.length) :
    Tells (ds ++ [d]) i b := by
  refine h.concat (e := b.hasElse) ?_
  constructor
  · exact .inl
  · rintro (h | ⟨htag, hin⟩)
    · exact h
    · exact absurd hin (hother htag)

/-- What an outline tells of the block that a directive opens. -/
theorem tells_opened (hopens : roles (ds ++ [d]) = roles ds ++ [.opens]) {e : Bool}
    (he : e = true ↔ d.tag = .elseTag) :
    Tells (ds ++ [d]) ds.length ⟨d.span.position, e⟩ := by
  refine ⟨⟨d, by simp, rfl⟩, ?_⟩
  change e = true ↔ _
  rw [he]
  constructor
  · intro htag
    refine ⟨ds.length, elseAt_concat_iff.2 (.inr ⟨rfl, htag⟩), ?_, .inl rfl⟩
    rw [hopens, ← length_roles]
    simp
  · rintro ⟨j, hj, hin⟩
    rcases elseAt_concat_iff.1 hj with hj | ⟨-, htag⟩
    · have := hin.le
      have := ElseAt.lt_length hj
      omega
    · exact htag

end

/-- An outline of no open block stands where all blocks are closed. -/
theorem Stands.isEmpty_iff {ds : List Directive} {o : Outline} (h : Stands ds o) :
    o.isEmpty = true ↔ AllClosed (roles ds) := by
  rw [allClosed_iff, List.isEmpty_iff, ← List.length_eq_zero_iff, ← List.length_eq_zero_iff,
    List.Forall₂.length_eq h]

section

variable {ds : List Directive} {d : Directive} {o : Outline}

/-- A directive that opens a block. -/
theorem Stands.open (h : Stands ds o) (hopens : roles (ds ++ [d]) = roles ds ++ [.opens])
    {e : Bool} (he : e = true ↔ d.tag = .elseTag) (hin : d.tag = .elseTag → o = []) :
    Stands (ds ++ [d]) (⟨d.span.position, e⟩ :: o) := by
  unfold Stands
  rw [hopens, openers_opens, length_roles]
  refine .cons (tells_opened hopens he) ?_
  by_cases htag : d.tag = .elseTag
  · rw [hin htag] at h ⊢
    rw [List.forall₂_nil_right_iff.1 h]
    exact .nil
  · exact h.imp fun i b hib => hib.keep fun hd => absurd hd htag

/-- A directive inside a block that is no `#else`. -/
theorem Stands.stay (h : Stands ds o) (hinside : roles (ds ++ [d]) = roles ds ++ [.inside])
    (htag : d.tag ≠ .elseTag) : Stands (ds ++ [d]) o := by
  unfold Stands
  rw [hinside, openers_inside]
  exact h.imp fun i b hib => hib.keep fun hd => absurd hd htag

/-- An `#else` inside a block. -/
theorem Stands.turn (h : Stands ds o) (hinside : roles (ds ++ [d]) = roles ds ++ [.inside])
    (htag : d.tag = .elseTag) :
    Stands (ds ++ [d]) (o.modifyHead fun b => { b with hasElse := true }) := by
  unfold Stands at *
  have hsorted := (opened_openers (roles ds)).sorted
  have hin (i : Nat) : InBlock (roles (ds ++ [d])) i ds.length ↔
      (openers (roles ds)).head? = some i := by
    rw [hinside, ← length_roles, inBlock_length_iff]
    simp
  rw [hinside, openers_inside]
  generalize openers (roles ds) = is at h hsorted hin
  cases h with
  | nil => exact .nil
  | @cons i b is o hib hrest =>
    refine .cons (hib.concat ?_) ?_
    · simp [htag, hin]
    · -- The blocks around the innermost one are other blocks.
      have hother : ∀ j ∈ is, j ≠ i := fun j hj => (List.rel_of_pairwise_cons hsorted hj).ne
      refine ((List.forall₂_and_left _ _).2 ⟨hother, hrest⟩).imp fun j c hjc => ?_
      refine hjc.2.keep fun _ => ?_
      rw [hin, List.head?_cons, Option.some.injEq]
      exact hjc.1.symm

theorem Stands.close (h : Stands ds o) (hcloses : roles (ds ++ [d]) = roles ds ++ [.closes])
    (htag : d.tag ≠ .elseTag) : Stands (ds ++ [d]) o.tail := by
  unfold Stands at *
  rw [hcloses, openers_closes]
  generalize openers (roles ds) = is at h
  cases h with
  | nil => exact .nil
  | cons hib hrest => exact hrest.imp fun i b hib => hib.keep fun hd => absurd hd htag

/-- What one directive does to an outline, told by matching. -/
theorem Stands.next (h : Stands ds o) (d : Directive) : Stands (ds ++ [d]) (o.next d) := by
  have hroles := roles_concat ds d
  unfold Outline.next
  cases htag : d.tag with
  | ifTag =>
    rw [htag, Role.next] at hroles
    exact h.open hroles (by simp [htag]) (by simp [htag])
  | endifTag =>
    rw [htag, Role.next] at hroles
    exact h.close hroles (by simp [htag])
  | elseifTag =>
    rw [htag, Role.next] at hroles
    by_cases hclosed : AllClosed (roles ds)
    · obtain rfl := List.isEmpty_iff.1 (h.isEmpty_iff.2 hclosed)
      rw [if_pos hclosed] at hroles
      exact h.open hroles (by simp [htag]) (by simp [htag])
    · rw [if_neg hclosed] at hroles
      simp only [demand, if_neg (mt h.isEmpty_iff.1 hclosed)]
      exact h.stay hroles (by simp [htag])
  | elseTag =>
    rw [htag, Role.next] at hroles
    by_cases hclosed : AllClosed (roles ds)
    · obtain rfl := List.isEmpty_iff.1 (h.isEmpty_iff.2 hclosed)
      rw [if_pos hclosed] at hroles
      exact h.open hroles (by simp [htag]) fun _ => rfl
    · rw [if_neg hclosed] at hroles
      simp only [demand, if_neg (mt h.isEmpty_iff.1 hclosed)]
      exact h.turn hroles htag

end

/-- The outline of every reading is told by matching. -/
theorem stands_after (ds : List Directive) : Stands ds (after ds) := by
  induction ds using List.reverseRecOn with
  | nil => exact .nil
  | append_singleton ds d ih =>
    rw [after, List.foldl_concat]
    exact ih.next d

/-! ## Mistakes -/

/-- The mistakes of all directives one after the other, and the blocks open at the end. -/
theorem complaints_eq (o : Outline) (ds : List Directive) :
    o.complaints ds =
      (List.finRange ds.length).flatMap
          (fun i : Fin ds.length => ((ds.take i).foldl next o).complaintsAt ds[i]) ++
        (ds.foldl next o).complaints [] := by
  induction ds generalizing o with
  | nil => rfl
  | cons d ds ih =>
    have hcons : o.complaints (d :: ds) = o.complaintsAt d ++ (o.next d).complaints ds := rfl
    rw [hcons, ih]
    simp only [List.length_cons, List.finRange_succ, List.flatMap_cons, List.flatMap_map,
      List.append_assoc]
    rfl

/-- A directive comes after an `#else` of its block where the outline says so. -/
theorem afterElse_iff (pre post : List Directive) (d : Directive) :
    AfterElse (pre ++ d :: post) pre.length ↔
      ∃ b, (after pre).head? = some b ∧ b.hasElse = true := by
  have hstands := stands_after pre
  obtain ⟨rest, hroles⟩ := roles_split pre post d
  have hin (i : Nat) (hi : i < pre.length) :
      InBlock (roles (pre ++ d :: post)) i pre.length ↔ (openers (roles pre)).head? = some i := by
    rw [hroles, ← length_roles, inBlock_length_iff, length_roles]
    simp [Nat.ne_of_lt hi]
  have helse {j : Nat} (hj : j < pre.length) : ElseAt (pre ++ d :: post) j ↔ ElseAt pre j := by
    rw [ElseAt, List.getElem?_append_left hj, ElseAt]
  have hearlier {i j : Nat} (hj : j < pre.length) :
      InBlock (roles (pre ++ d :: post)) i j ↔ InBlock (roles pre) i j := by
    rw [hroles, inBlock_append_iff (by rwa [length_roles])]
  unfold Stands at hstands
  generalize openers (roles pre) = is at hstands hin
  generalize after pre = outline at hstands
  constructor
  · rintro ⟨i, j, hj, hjelse, hij, hi⟩
    rw [hin i (Nat.lt_of_le_of_lt hij.le hj)] at hi
    rw [helse hj] at hjelse
    rw [hearlier hj] at hij
    cases hstands with
    | nil => cases hi
    | @cons k b is o hib _ =>
      obtain rfl : k = i := by simpa using hi
      exact ⟨b, rfl, hib.2.2 ⟨j, hjelse, hij⟩⟩
  · rintro ⟨b, hb, hbelse⟩
    cases hstands with
    | nil => cases hb
    | @cons i c is o hib _ =>
      obtain rfl : c = b := by simpa using hb
      obtain ⟨j, hjelse, hij⟩ := hib.2.1 hbelse
      have hj := ElseAt.lt_length hjelse
      refine ⟨i, j, hj, (helse hj).2 hjelse, (hearlier hj).2 hij, ?_⟩
      exact (hin i (Nat.lt_of_le_of_lt hij.le hj)).2 rfl

/-- An `#endif` closes a block where the outline has one. -/
theorem exists_matches_iff (pre post : List Directive) {d : Directive} (htag : d.tag = .endifTag) :
    (∃ j, Matches (roles (pre ++ d :: post)) j pre.length) ↔ (after pre).isEmpty = false := by
  obtain ⟨rest, hroles⟩ := roles_split pre post d
  have hempty := (stands_after pre).isEmpty_iff
  rw [htag, Role.next] at hroles
  rw [hroles, ← length_roles]
  simp only [matches_length_iff]
  rw [← Bool.not_eq_true, hempty, allClosed_iff]
  cases openers (roles pre) <;> simp

/-- What is wrong with the guard of a directive is not a mistake of place. -/
theorem kind_of_guardMistake? {d : Directive} {m : Mistake} (h : d.guardMistake? = some m) :
    m.kind = "invalid_expression" := by
  unfold Directive.guardMistake? at h
  split at h
  · cases h
    rfl
  · split at h <;> cases h
    rfl

/-- The innermost open block has met an `#else`. -/
def Late (o : Outline) : Prop := ∃ b, o.head? = some b ∧ b.hasElse = true

theorem mem_misplaced_iff {o : Outline} {m missing late : Mistake} :
    m ∈ o.misplaced missing late ↔ o.isEmpty = true ∧ m = missing ∨ o.Late ∧ m = late := by
  cases o with
  | nil => simp [misplaced, Late]
  | cons b outer => cases hb : b.hasElse <;> simp [misplaced, Late, hb]

theorem nodup_misplaced (o : Outline) (missing late : Mistake) :
    (o.misplaced missing late).Nodup := by
  cases o with
  | nil => simp [misplaced]
  | cons b outer => cases hb : b.hasElse <;> simp [misplaced, hb]

/-- The mistakes of a directive that are not about its guard. -/
theorem mem_mistakes_iff {o : Outline} {d : Directive} {m : Mistake}
    (hm : m.kind ≠ "invalid_expression") :
    m ∈ o.mistakes d ↔
      d.tag = .elseifTag ∧ m ∈ o.misplaced .elseifWithoutIf .elseifAfterElse ∨
        d.tag = .elseTag ∧ m ∈ o.misplaced .elseWithoutIf .duplicateElse ∨
          d.tag = .endifTag ∧ o.isEmpty = true ∧ m = .endifWithoutIf := by
  have hguard : d.guardMistake? ≠ some m := fun h => hm (kind_of_guardMistake? h)
  unfold mistakes
  cases d.tag <;> simp [hguard]

/-- Nothing is wrong with a directive twice. -/
theorem nodup_mistakes (o : Outline) (d : Directive) : (o.mistakes d).Nodup := by
  have hguard : d.guardMistake?.toList.Nodup := by cases d.guardMistake? <;> simp
  unfold mistakes
  cases d.tag with
  | ifTag => exact hguard
  | elseifTag =>
    refine List.nodup_append.2 ⟨hguard, nodup_misplaced .., fun m hm n hn hmn => ?_⟩
    have hkind := kind_of_guardMistake? (Option.mem_toList.1 hm)
    rw [hmn] at hkind
    rcases mem_misplaced_iff.1 hn with ⟨-, rfl⟩ | ⟨-, rfl⟩ <;> exact absurd hkind (by decide)
  | elseTag => exact nodup_misplaced ..
  | endifTag => cases o.isEmpty <;> simp

/-- The mistakes of place, told by matching. -/
theorem mistakes_iff (pre post : List Directive) (d : Directive) :
    ((after pre).mistakes d).Nodup ∧ .missingEndif ∉ (after pre).mistakes d ∧
      (.endifWithoutIf ∈ (after pre).mistakes d ↔
        d.tag = .endifTag ∧ ¬ ∃ j, Matches (roles (pre ++ d :: post)) j pre.length) ∧
      (.elseifAfterElse ∈ (after pre).mistakes d ↔
        d.tag = .elseifTag ∧ AfterElse (pre ++ d :: post) pre.length) ∧
      (.duplicateElse ∈ (after pre).mistakes d ↔
        d.tag = .elseTag ∧ AfterElse (pre ++ d :: post) pre.length) := by
  refine ⟨nodup_mistakes .., ?_, ?_, ?_, ?_⟩
  · simp [mem_mistakes_iff (show Mistake.missingEndif.kind ≠ _ by decide), mem_misplaced_iff]
  · simp only [mem_mistakes_iff (show Mistake.endifWithoutIf.kind ≠ _ by decide),
      mem_misplaced_iff, reduceCtorEq, and_false, or_false, false_or, and_true]
    refine and_congr_right fun htag => ?_
    rw [exists_matches_iff pre post htag, Bool.not_eq_false]
  · rw [afterElse_iff, mem_mistakes_iff (by decide), ← Late]
    simp [mem_misplaced_iff]
  · rw [afterElse_iff, mem_mistakes_iff (by decide), ← Late]
    simp [mem_misplaced_iff]

/-- The openers without a closer, in order. -/
theorem map_unclosed (ds : List Directive) :
    ((List.finRange ds.length).filter fun i : Fin ds.length => Unclosed (roles ds) i).map Fin.val =
      (openers (roles ds)).reverse := by
  refine List.Pairwise.eq_of_mem_iff (r := (· < ·)) ?_ (List.pairwise_reverse.2 ?_) fun i => ?_
  · exact ((List.pairwise_lt_finRange _).filter _).map _ fun _ _ h => h
  · exact (opened_openers (roles ds)).sorted
  · simp only [List.mem_map, List.mem_filter, List.mem_finRange, true_and, decide_eq_true_eq,
      unclosed_iff, List.mem_reverse]
    constructor
    · rintro ⟨k, hk, rfl⟩
      exact hk
    · intro hi
      have hlt := (List.getElem?_eq_some_iff.1 (unclosed_iff.2 hi).1).1
      exact ⟨⟨i, by rwa [length_roles] at hlt⟩, hi, rfl⟩

/-- The blocks open at the end are those of the openers without a closer. -/
theorem complaints_after (ds : List Directive) :
    (((List.finRange ds.length).filter fun i : Fin ds.length => Unclosed (roles ds) i).map
      fun i => (⟨.missingEndif, ds[i].span.position⟩ : Complaint)) = (after ds).complaints [] := by
  have hstands := List.rel_reverse (stands_after ds)
  rw [← map_unclosed, List.forall₂_map_left_iff] at hstands
  rw [complaints, ← List.forall₂_eq_eq_eq, List.forall₂_map_left_iff, List.forall₂_map_right_iff]
  refine hstands.imp fun i b hib => ?_
  obtain ⟨⟨d, hd, hposition⟩, -⟩ := hib
  obtain rfl : ds[i] = d := by simpa using hd
  rw [hposition]

end Outline

/-! ## Entries -/

namespace Block

/-- The entries about directives, told by matching. The complaints about each directive come in
    order, after them one for every opener without a closer, at the opener, the outermost first. An
    `#endif` without an opener is complained about, and an `#elseif` or `#else` after an `#else` of
    its block. -/
theorem entries?_matching {ds : List Directive} (h : ∀ d ∈ ds, ¬ d.Stops) :
    ∃ reports : Fin ds.length → List Mistake,
      entries? (ofDirectives ds).2 =
        some ((List.finRange ds.length).flatMap
            (fun i => (reports i).map fun m => ⟨m, ds[i].span.position⟩) ++
          ((List.finRange ds.length).filter fun i : Fin ds.length => Unclosed (roles ds) i).map
            fun i => ⟨.missingEndif, ds[i].span.position⟩) ∧
      ∀ i, (reports i).Nodup ∧ .missingEndif ∉ reports i ∧
        (.endifWithoutIf ∈ reports i ↔
          ds[i].tag = .endifTag ∧ ¬ ∃ j, Matches (roles ds) j i) ∧
        (.elseifAfterElse ∈ reports i ↔ ds[i].tag = .elseifTag ∧ AfterElse ds i) ∧
        (.duplicateElse ∈ reports i ↔ ds[i].tag = .elseTag ∧ AfterElse ds i) := by
  refine ⟨fun i => (Outline.after (ds.take i)).mistakes ds[i], ?_, fun i => ?_⟩
  · rw [entries?_ofDirectives h, Outline.complaints_eq, ← Outline.after, ← Outline.complaints_after]
    rfl
  · have hsplit : ds.take i ++ ds[i] :: ds.drop (i + 1) = ds := by simp
    have hlength : (ds.take i).length = i := by simp
    have hmistakes := Outline.mistakes_iff (ds.take i) (ds.drop (i + 1)) ds[i]
    rwa [hsplit, hlength] at hmistakes

/-- Blocks that are closed without being opened, opened by an `#elseif`, left open, and gone on with
    after their `#else`. -/
def tangled : List Directive :=
  [⟨.endifTag, ⟨0, 9, ⟨1, 0⟩⟩, []⟩, ⟨.elseifTag, ⟨10, 22, ⟨2, 0⟩⟩, "a"⟩,
   ⟨.elseTag, ⟨23, 31, ⟨3, 0⟩⟩, []⟩, ⟨.ifTag, ⟨34, 42, ⟨4, 2⟩⟩, "b"⟩,
   ⟨.elseTag, ⟨45, 53, ⟨5, 2⟩⟩, []⟩, ⟨.endifTag, ⟨56, 65, ⟨6, 2⟩⟩, []⟩,
   ⟨.elseTag, ⟨66, 74, ⟨7, 0⟩⟩, []⟩, ⟨.elseifTag, ⟨75, 87, ⟨8, 0⟩⟩, "c"⟩,
   ⟨.ifTag, ⟨88, 96, ⟨9, 0⟩⟩, "d"⟩]

theorem entries?_matching_tangled :
    (∀ d ∈ tangled, ¬ d.Stops) ∧
    roles tangled =
      [.closes, .opens, .inside, .opens, .inside, .closes, .inside, .inside, .opens] ∧
    entries? (ofDirectives tangled).2 =
      some [⟨.endifWithoutIf, ⟨1, 0⟩⟩, ⟨.elseifWithoutIf, ⟨2, 0⟩⟩, ⟨.duplicateElse, ⟨7, 0⟩⟩,
        ⟨.elseifAfterElse, ⟨8, 0⟩⟩, ⟨.missingEndif, ⟨2, 0⟩⟩, ⟨.missingEndif, ⟨9, 0⟩⟩] ∧
    ∃ reports : Fin tangled.length → List Mistake,
      entries? (ofDirectives tangled).2 =
        some ((List.finRange tangled.length).flatMap
            (fun i => (reports i).map fun m => ⟨m, tangled[i].span.position⟩) ++
          ((List.finRange tangled.length).filter
            fun i : Fin tangled.length => Unclosed (roles tangled) i).map
            fun i => ⟨.missingEndif, tangled[i].span.position⟩) ∧
      ∀ i, (reports i).Nodup ∧ .missingEndif ∉ reports i ∧
        (.endifWithoutIf ∈ reports i ↔
          tangled[i].tag = .endifTag ∧ ¬ ∃ j, Matches (roles tangled) j i) ∧
        (.elseifAfterElse ∈ reports i ↔ tangled[i].tag = .elseifTag ∧ AfterElse tangled i) ∧
        (.duplicateElse ∈ reports i ↔ tangled[i].tag = .elseTag ∧ AfterElse tangled i) := by
  have hread : ∀ d ∈ tangled,
      d.tag.takesGuard = true → (Guard.compile d.payload).toOption.isSome = true := by
    decide +kernel
  have hstops : ∀ d ∈ tangled, ¬ d.Stops := fun d hd => Directive.not_stops (hread d hd)
  exact ⟨hstops, by decide, by decide +kernel, entries?_matching hstops⟩

/-- An `#endif` before a guard with a number in braces beyond the code points. -/
def strayUnspelled : Text := "// #endif\n// #if '\\u\x7b110000\x7d'\n// #endif"

/-- The guard hides the `#endif` that no directive before it opens a block for. -/
theorem entries?_unspelled :
    (Directive.scan strayUnspelled).map Directive.tag = [.endifTag, .ifTag, .endifTag] ∧
    (¬ ∃ j, Matches (roles (Directive.scan strayUnspelled)) j 0) ∧
    entries? (parse strayUnspelled).2 = none := by
  refine ⟨by decide +kernel, ?_, by decide +kernel⟩
  rintro ⟨j, hlt, -⟩
  exact absurd hlt (Nat.not_lt_zero j)

end Block

end GuardedText
