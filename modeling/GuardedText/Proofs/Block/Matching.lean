import Mathlib.Data.List.Induction
import Mathlib.Tactic.ByContra
import GuardedText.Proofs.Block.Outline

/-
  Matching of directives, told without a stack. A directive opens a block, closes one or stands
  inside one (`Role`); an `#elseif` or `#else` opens one where no block is open. An opener and a
  closer match when what stands between them is balanced. The openers without a closer are those
  that a stack keeps (`Role.unclosed_iff`), and the innermost of them is the one that only a balanced
  stretch follows (`Role.head_openers_iff`).
-/

namespace GuardedText

/-- What a directive does to the blocks around it. -/
inductive Role where
  | opens | closes | inside
  deriving DecidableEq, Repr

/-- Every block opened here is closed here, and no other block is. -/
inductive Balanced : List Role → Prop where
  | nil : Balanced []
  | inside : Balanced [.inside]
  | append {u v : List Role} : Balanced u → Balanced v → Balanced (u ++ v)
  | block {u : List Role} : Balanced u → Balanced (.opens :: (u ++ [.closes]))

namespace Role

/-- What stands between two places. -/
def between (roles : List Role) (i k : Nat) : List Role := (roles.take k).drop (i + 1)

/-- An opener and a later closer belong together. -/
def Matches (roles : List Role) (i k : Nat) : Prop :=
  i < k ∧ roles[i]? = some .opens ∧ roles[k]? = some .closes ∧ Balanced (between roles i k)

/-- An opener has no closer. -/
def Unclosed (roles : List Role) (i : Nat) : Prop :=
  roles[i]? = some .opens ∧ ∀ k, ¬ Matches roles i k

/-- A place belongs to the block of an opener and to no block in it. -/
def InBlock (roles : List Role) (i k : Nat) : Prop :=
  roles[i]? = some .opens ∧ (i = k ∨ i < k ∧ Balanced (between roles i k))

/-! ## Heights -/

/-- How many more blocks are opened than closed. -/
def height (roles : List Role) : Int := roles.count .opens - roles.count .closes

@[simp]
theorem height_append (u v : List Role) : height (u ++ v) = height u + height v := by
  simp only [height, List.count_append]
  omega

@[simp]
theorem height_opens (u : List Role) : height (.opens :: u) = height u + 1 := by
  simp only [height, List.count_cons_self, List.count_cons_of_ne (show opens ≠ closes by decide)]
  omega

@[simp]
theorem height_closes (u : List Role) : height (.closes :: u) = height u - 1 := by
  simp only [height, List.count_cons_self, List.count_cons_of_ne (show closes ≠ opens by decide)]
  omega

@[simp]
theorem height_nil : height [] = 0 := rfl

/-- No block is closed here that was opened before. -/
def Rises (roles : List Role) : Prop := ∀ u, u <+: roles → 0 ≤ height u

theorem Rises.height_nonneg {u : List Role} (h : Rises u) : 0 ≤ height u := h u (List.prefix_refl u)

theorem Rises.append {u v : List Role} (hu : Rises u) (hv : Rises v) : Rises (u ++ v) := by
  intro w hw
  rcases List.prefix_or_prefix_of_prefix hw (List.prefix_append u v) with h | ⟨t, rfl⟩
  · exact hu w h
  · have := hu.height_nonneg
    have := hv t ((List.prefix_append_right_inj u).1 hw)
    rw [height_append]
    omega

theorem Rises.opens {u : List Role} (hu : Rises u) : Rises (.opens :: u) := by
  intro w hw
  rcases List.prefix_cons_iff.1 hw with rfl | ⟨t, rfl, ht⟩
  · simp
  · have := hu t ht
    rw [height_opens]
    omega

theorem not_rises_closes {u v : List Role} (hu : height u = 0) : ¬ Rises (u ++ .closes :: v) := by
  intro h
  have := h (u ++ [.closes]) ⟨v, by simp⟩
  simp [hu] at this

end Role

open Role in
theorem Balanced.height_eq {u : List Role} (h : Balanced u) : height u = 0 := by
  induction h with
  | nil | inside => rfl
  | append _ _ hu hv => rw [height_append, hu, hv, Int.add_zero]
  | block _ hu => simp [hu]

open Role in
theorem Balanced.rises {u : List Role} (h : Balanced u) : Rises u := by
  induction h with
  | nil =>
    intro w hw
    simp [List.prefix_nil.1 hw]
  | inside =>
    intro w hw
    rcases List.prefix_cons_iff.1 hw with rfl | ⟨t, rfl, ht⟩
    · simp
    · rw [List.prefix_nil.1 ht]
      decide
  | append _ _ hu hv => exact hu.append hv
  | @block u hbal hu =>
    intro w hw
    rcases List.prefix_cons_iff.1 hw with rfl | ⟨t, rfl, ht⟩
    · simp
    · rcases List.prefix_or_prefix_of_prefix ht (List.prefix_append u [.closes]) with h | ⟨q, rfl⟩
      · exact hu.opens _ ((List.prefix_cons_inj _).2 h)
      · rcases List.prefix_cons_iff.1 ((List.prefix_append_right_inj u).1 ht) with
          rfl | ⟨r, rfl, hr⟩
        · simp [hbal.height_eq]
        · simp [hbal.height_eq, List.prefix_nil.1 hr]

namespace Role

/-! ## Openers with a closer -/

theorem between_append_right {u : List Role} {i k : Nat} (hk : k ≤ u.length) (v : List Role) :
    between (u ++ v) i k = between u i k := by
  rw [between, List.take_append_of_le_length hk, between]

theorem between_append_left (u v : List Role) (i k : Nat) :
    between (u ++ v) (u.length + i) (u.length + k) = between v i k := by
  simp [between, List.take_append, List.drop_append, Nat.add_assoc]

/-- What stands between an opener and the end. -/
theorem between_length (u v : List Role) (i : Nat) :
    between (u ++ v) i u.length = u.drop (i + 1) := by
  simp [between]

theorem Matches.lt_length {u : List Role} {i k : Nat} (h : Matches u i k) : k < u.length :=
  (List.getElem?_eq_some_iff.1 h.2.2.1).1

theorem Matches.append_right {u : List Role} {i k : Nat} (h : Matches u i k) (v : List Role) :
    Matches (u ++ v) i k := by
  have hk := h.lt_length
  obtain ⟨hlt, hopens, hcloses, hbal⟩ := h
  refine ⟨hlt, ?_, ?_, ?_⟩
  · rwa [List.getElem?_append_left (by omega)]
  · rwa [List.getElem?_append_left hk]
  · rwa [between_append_right (by omega)]

theorem Matches.append_left {v : List Role} {i k : Nat} (h : Matches v i k) (u : List Role) :
    Matches (u ++ v) (u.length + i) (u.length + k) := by
  obtain ⟨hlt, hopens, hcloses, hbal⟩ := h
  refine ⟨by omega, ?_, ?_, ?_⟩
  · rwa [List.getElem?_append_right (by omega), Nat.add_sub_cancel_left]
  · rwa [List.getElem?_append_right (by omega), Nat.add_sub_cancel_left]
  · rwa [between_append_left]

/-- Every opener here has its closer here. -/
def Paired (roles : List Role) : Prop := ∀ i, roles[i]? = some .opens → ∃ k, Matches roles i k

theorem Paired.append {u v : List Role} (hu : Paired u) (hv : Paired v) : Paired (u ++ v) := by
  intro i hi
  by_cases hlt : i < u.length
  · rw [List.getElem?_append_left hlt] at hi
    obtain ⟨k, hk⟩ := hu i hi
    exact ⟨k, hk.append_right v⟩
  · rw [List.getElem?_append_right (by omega)] at hi
    obtain ⟨k, hk⟩ := hv _ hi
    refine ⟨u.length + k, ?_⟩
    rw [show i = u.length + (i - u.length) by omega]
    exact hk.append_left u

theorem paired_singleton {r : Role} (hr : r ≠ .opens) : Paired [r] := by
  intro i hi
  simp [List.getElem?_singleton, hr] at hi

theorem paired_of_balanced {v : List Role} (h : Balanced v) : Paired v := by
  induction h with
  | nil => simp [Paired]
  | inside => exact paired_singleton (by decide)
  | append _ _ hu hv => exact hu.append hv
  | @block u hbal hu =>
    intro i hi
    cases i with
    | zero =>
      have hbetween := between_length (.opens :: u) [.closes] 0
      refine ⟨u.length + 1, by omega, rfl, by simp, ?_⟩
      rw [List.cons_append, List.length_cons] at hbetween
      simpa [hbetween] using hbal
    | succ i =>
      -- The closer at the end is none of the openers.
      have hpaired : Paired (u ++ [.closes]) := hu.append (paired_singleton nofun)
      obtain ⟨k, hk⟩ := hpaired i (by simpa using hi)
      have hmatch := hk.append_left [.opens]
      rw [List.length_singleton, Nat.add_comm 1 i, Nat.add_comm 1 k] at hmatch
      exact ⟨k + 1, hmatch⟩

/-- What follows an opener and its closer is not balanced up to any later place. -/
theorem not_rises_of_matches {u : List Role} {i k : Nat} (h : Matches u i k) :
    ¬ Rises (u.drop (i + 1)) := by
  have hk := h.lt_length
  obtain ⟨hlt, -, hcloses, hbal⟩ := h
  have hsplit : u.drop (i + 1) = between u i k ++ .closes :: u.drop (k + 1) := by
    have hu : u = u.take k ++ .closes :: u.drop (k + 1) := by
      rw [List.getElem?_eq_some_iff] at hcloses
      obtain ⟨_, hcloses⟩ := hcloses
      rw [← hcloses, List.getElem_cons_drop, List.take_append_drop]
    conv_lhs => rw [hu]
    rw [List.drop_append_of_le_length (by simp; omega), between]
  rw [hsplit]
  exact not_rises_closes hbal.height_eq

/-! ## Openers without a closer -/

/-- The openers without a closer, the innermost first, told by a stack. -/
def openersOf : List Role → List Nat
  | [] => []
  | .opens :: past => past.length :: openersOf past
  | .closes :: past => (openersOf past).tail
  | .inside :: past => openersOf past

/-- The openers without a closer, the innermost first. -/
def openers (roles : List Role) : List Nat := openersOf roles.reverse

@[simp]
theorem openers_opens (u : List Role) : openers (u ++ [.opens]) = u.length :: openers u := by
  simp [openers, openersOf]

@[simp]
theorem openers_closes (u : List Role) : openers (u ++ [.closes]) = (openers u).tail := by
  simp [openers, openersOf]

@[simp]
theorem openers_inside (u : List Role) : openers (u ++ [.inside]) = openers u := by
  simp [openers, openersOf]

/-- Every block that is opened here is closed here. -/
inductive Closed : List Role → Prop where
  | nil : Closed []
  | append {u v : List Role} : Closed u → Balanced v → Closed (u ++ v)
  | closes {u : List Role} : Closed u → Closed (u ++ [.closes])

/-- Openers without a closer, the innermost first, with balanced stretches between them. -/
inductive Opened : List Role → List Nat → Prop where
  | none {u : List Role} : Closed u → Opened u []
  | more {u v : List Role} {is : List Nat} : Opened u is → Balanced v →
      Opened (u ++ .opens :: v) (u.length :: is)

namespace Opened

/-- A balanced stretch leaves the open blocks as they were. -/
theorem append {u v : List Role} {is : List Nat} (h : Opened u is) (hv : Balanced v) :
    Opened (u ++ v) is := by
  cases h with
  | none hu => exact .none (hu.append hv)
  | more hu hw =>
    rw [List.append_assoc, List.cons_append]
    exact .more hu (hw.append hv)

theorem closes {u : List Role} {is : List Nat} (h : Opened u is) :
    Opened (u ++ [.closes]) is.tail := by
  cases h with
  | none hu => exact .none hu.closes
  | more hu hv =>
    rw [List.append_assoc, List.cons_append]
    exact hu.append hv.block

end Opened

theorem opened_openers (u : List Role) : Opened u (openers u) := by
  induction u using List.reverseRecOn with
  | nil => exact .none .nil
  | append_singleton u r ih =>
    cases r with
    | opens =>
      rw [openers_opens]
      exact .more ih .nil
    | closes =>
      rw [openers_closes]
      exact ih.closes
    | inside =>
      rw [openers_inside]
      exact ih.append .inside

theorem paired_of_closed {u : List Role} (h : Closed u) : Paired u := by
  induction h with
  | nil => simp [Paired]
  | append _ hv ih => exact ih.append (paired_of_balanced hv)
  | closes _ ih => exact ih.append (paired_singleton nofun)

namespace Opened

variable {u : List Role} {is : List Nat}

/-- From an open block on, no block is closed that was opened before. -/
theorem rises (h : Opened u is) {i : Nat} (hi : i ∈ is) :
    u[i]? = some .opens ∧ Rises (u.drop (i + 1)) := by
  induction h with
  | none => simp at hi
  | @more u v is _ hv ih =>
    rcases List.mem_cons.1 hi with rfl | hi
    · simpa using hv.rises
    · obtain ⟨hopens, hrises⟩ := ih hi
      have hlt : i < u.length := (List.getElem?_eq_some_iff.1 hopens).1
      refine ⟨by rwa [List.getElem?_append_left hlt], ?_⟩
      rw [List.drop_append_of_le_length (by omega)]
      exact hrises.append hv.rises.opens

/-- From the block around an open block on, more is opened than closed. -/
theorem height_pos (h : Opened u is) {i : Nat} (hi : i ∈ is.tail) : 0 < height (u.drop (i + 1)) := by
  cases h with
  | none => simp at hi
  | @more u v is hu hv =>
    obtain ⟨hopens, hrises⟩ := hu.rises hi
    have hlt : i < u.length := (List.getElem?_eq_some_iff.1 hopens).1
    rw [List.drop_append_of_le_length (by omega), height_append, height_opens, hv.height_eq]
    have := hrises.height_nonneg
    omega

theorem exists_matches (h : Opened u is) {i : Nat} (hopens : u[i]? = some .opens) (hi : i ∉ is) :
    ∃ k, Matches u i k := by
  induction h with
  | none hu => exact paired_of_closed hu i hopens
  | @more u v is _ hv ih =>
    rw [List.mem_cons, not_or] at hi
    obtain ⟨hne, hi⟩ := hi
    by_cases hlt : i < u.length
    · rw [List.getElem?_append_left hlt] at hopens
      obtain ⟨k, hk⟩ := ih hopens hi
      exact ⟨k, hk.append_right _⟩
    · rw [List.getElem?_append_right (by omega), List.getElem?_cons,
        if_neg (by omega)] at hopens
      obtain ⟨k, hk⟩ := paired_of_balanced hv _ hopens
      have hmatch := (hk.append_left [.opens]).append_left u
      rw [List.length_singleton, show u.length + (1 + (i - u.length - 1)) = i by omega] at hmatch
      exact ⟨_, hmatch⟩

theorem sorted (h : Opened u is) : is.Pairwise (· > ·) := by
  induction h with
  | none => exact .nil
  | @more u v is hu _ ih =>
    refine .cons (fun i hi => ?_) ih
    exact (List.getElem?_eq_some_iff.1 (hu.rises hi).1).1

end Opened

theorem unclosed_iff {u : List Role} {i : Nat} : Unclosed u i ↔ i ∈ openers u := by
  constructor
  · rintro ⟨hopens, hnone⟩
    by_contra hi
    obtain ⟨k, hk⟩ := (opened_openers u).exists_matches hopens hi
    exact hnone k hk
  · intro hi
    obtain ⟨hopens, hrises⟩ := (opened_openers u).rises hi
    exact ⟨hopens, fun k hk => not_rises_of_matches hk hrises⟩

instance (u : List Role) : DecidablePred (Unclosed u) := fun _ => decidable_of_iff _ unclosed_iff.symm

/-- The innermost open block is the one whose opener only a balanced stretch follows. -/
theorem head_openers_iff {u : List Role} {i : Nat} :
    (openers u).head? = some i ↔ u[i]? = some .opens ∧ Balanced (u.drop (i + 1)) := by
  have hopened := opened_openers u
  constructor
  · intro hhead
    generalize openers u = is at hopened hhead
    cases hopened with
    | none => simp at hhead
    | more _ hv =>
      obtain rfl : _ = i := by simpa using hhead
      simpa using hv
  · rintro ⟨hopens, hbal⟩
    have hmem : i ∈ openers u := by
      by_contra hi
      obtain ⟨k, hk⟩ := hopened.exists_matches hopens hi
      exact not_rises_of_matches hk hbal.rises
    cases hstack : openers u with
    | nil => simp [hstack] at hmem
    | cons j js =>
      rw [hstack] at hmem hopened
      rcases List.mem_cons.1 hmem with rfl | htail
      · rfl
      · have := hopened.height_pos htail
        rw [hbal.height_eq] at this
        omega

/-- No block is open. -/
def AllClosed (roles : List Role) : Prop := ∀ i, ¬ Unclosed roles i

theorem allClosed_iff {u : List Role} : AllClosed u ↔ openers u = [] := by
  simp only [AllClosed, unclosed_iff, List.eq_nil_iff_forall_not_mem]

instance : DecidablePred AllClosed := fun _ => decidable_of_iff _ allClosed_iff.symm

/-! ## Roles of directives -/

/-- The role of a directive after others. -/
def next (past : List Role) : Tag → Role
  | .ifTag => .opens
  | .endifTag => .closes
  | .elseifTag | .elseTag => if AllClosed past then .opens else .inside

/-- The roles of directives. -/
def ofTags (tags : List Tag) : List Role := tags.foldl (fun past tag => past ++ [next past tag]) []

theorem ofTags_concat (tags : List Tag) (tag : Tag) :
    ofTags (tags ++ [tag]) = ofTags tags ++ [next (ofTags tags) tag] := by
  simp [ofTags]

theorem length_ofTags (tags : List Tag) : (ofTags tags).length = tags.length := by
  induction tags using List.reverseRecOn with
  | nil => rfl
  | append_singleton tags tag ih => simp [ofTags_concat, ih]

theorem ofTags_append (tags more : List Tag) : ∃ rest, ofTags (tags ++ more) = ofTags tags ++ rest := by
  induction more using List.reverseRecOn with
  | nil => exact ⟨[], by simp⟩
  | append_singleton more tag ih =>
    obtain ⟨rest, hrest⟩ := ih
    exact ⟨rest ++ [next (ofTags (tags ++ more)) tag], by
      rw [← List.append_assoc, ofTags_concat, hrest, List.append_assoc]⟩

end Role

end GuardedText
