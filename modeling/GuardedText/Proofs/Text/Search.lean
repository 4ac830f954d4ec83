import Mathlib.Order.Bounds.Basic
import GuardedText.Text.Search

/-
  Searching and splitting against occurrences. A text occurs in another at an offset if what stands
  there starts with it (`Text.OccursAt`). Searching gives the least such offset (`Text.find?_spec`).
  Splitting cuts a text at the occurrences that are found from the left and do not overlap
  (`Text.Occurrences`, `Text.length_splitOn`); no part holds the separator
  (`Text.not_infix_of_mem_splitOn`), and the parts joined with it are the text again
  (`Text.join_splitOn`).
-/

namespace GuardedText.Text

variable {s part sep : Text} {i k : Nat}

/-! ## Occurrences -/

/-- A text occurs in another at an offset. -/
def OccursAt (s part : Text) (k : Nat) : Prop := k ≤ s.length ∧ part <+: s.drop k

theorem OccursAt.add_length_le (h : OccursAt s part k) : k + part.length ≤ s.length := by
  have := h.2.length_le
  rw [List.length_drop] at this
  have := h.1
  omega

theorem occursAt_zero : OccursAt s part 0 ↔ part <+: s := by simp [OccursAt]

theorem occursAt_succ {c : CodePoint} : OccursAt (c :: s) part (k + 1) ↔ OccursAt s part k := by
  simp [OccursAt]

theorem occursAt_nil : OccursAt [] part k ↔ k = 0 ∧ part = [] := by simp [OccursAt]

/-- What occurs from an offset on, seen from there. -/
theorem occursAt_drop (hi : i ≤ s.length) :
    OccursAt (s.drop i) part k ↔ OccursAt s part (i + k) := by
  rw [OccursAt, OccursAt, List.length_drop, List.drop_drop]
  exact and_congr_left' (by omega)

theorem occursAt_take : OccursAt (s.take i) part k → OccursAt s part k := by
  rintro ⟨hk, hpart⟩
  rw [List.length_take] at hk
  refine ⟨by omega, hpart.trans ?_⟩
  rw [List.drop_take]
  exact List.take_prefix _ _

theorem infix_iff_occursAt : part <:+: s ↔ ∃ k, OccursAt s part k := by
  constructor
  · rintro ⟨before, after, rfl⟩
    refine ⟨before.length, by simp, ?_⟩
    rw [List.append_assoc, List.drop_left]
    exact List.prefix_append part after
  · rintro ⟨k, -, hpart⟩
    exact hpart.isInfix.trans (List.drop_suffix k s).isInfix

/-! ## Searching -/

/-- What is found is the least offset at which a text occurs; nothing is found if there is none. -/
theorem find?_spec (part s : Text) :
    (∀ k, find? part s = some k ↔ IsLeast {k | OccursAt s part k} k) ∧
      (find? part s = none ↔ ∀ k, ¬ OccursAt s part k) := by
  suffices h : (find? part s).elim (∀ k, ¬ OccursAt s part k)
      fun k => IsLeast {k | OccursAt s part k} k by
    cases hfound : find? part s with
    | none =>
      rw [hfound] at h
      exact ⟨fun k => iff_of_false nofun fun hk => h k hk.1, iff_of_true rfl h⟩
    | some j =>
      rw [hfound] at h
      refine ⟨fun k => ⟨fun hk => Option.some.inj hk ▸ h, fun hk => ?_⟩,
        iff_of_false nofun fun hnone => hnone j h.1⟩
      rw [h.unique hk]
  induction s with
  | nil =>
    cases part with
    | nil => exact ⟨occursAt_nil.2 ⟨rfl, rfl⟩, fun _ _ => Nat.zero_le _⟩
    | cons => exact fun k hk => nomatch (occursAt_nil.1 hk).2
  | cons c s ih =>
    rw [find?]
    by_cases hstart : part <+: c :: s
    · rw [if_pos (List.isPrefixOf_iff_prefix.2 hstart)]
      exact ⟨occursAt_zero.2 hstart, fun _ _ => Nat.zero_le _⟩
    · rw [if_neg (fun h => hstart (List.isPrefixOf_iff_prefix.1 h))]
      have hzero : ¬ OccursAt (c :: s) part 0 := fun h => hstart (occursAt_zero.1 h)
      cases hfound : find? part s with
      | none =>
        rw [hfound] at ih
        rintro (_ | k) hk
        · exact hzero hk
        · exact ih k (occursAt_succ.1 hk)
      | some j =>
        rw [hfound] at ih
        refine ⟨occursAt_succ.2 ih.1, ?_⟩
        rintro (_ | k) hk
        · exact absurd hk hzero
        · exact Nat.succ_le_succ (ih.2 (occursAt_succ.1 hk))

theorem find?_eq_some_iff : find? part s = some k ↔ IsLeast {k | OccursAt s part k} k :=
  (find?_spec part s).1 k

theorem find?_eq_none_iff : find? part s = none ↔ ∀ k, ¬ OccursAt s part k := (find?_spec part s).2

/-- What occurs in a text from an offset on. -/
theorem find?_drop_eq_none_iff (hi : i ≤ s.length) :
    find? part (s.drop i) = none ↔ ∀ k, i ≤ k → ¬ OccursAt s part k := by
  rw [find?_eq_none_iff]
  constructor
  · intro h k hk hoccurs
    exact h (k - i) ((occursAt_drop hi).2 (by rwa [Nat.add_sub_cancel' hk]))
  · exact fun h k hk => h (i + k) (Nat.le_add_right i k) ((occursAt_drop hi).1 hk)

theorem find?_drop_eq_some_iff (hi : i ≤ s.length) :
    find? part (s.drop i) = some k ↔ IsLeast {k | i ≤ k ∧ OccursAt s part k} (i + k) := by
  rw [find?_eq_some_iff]
  constructor
  · rintro ⟨hk, hleast⟩
    refine ⟨⟨Nat.le_add_right i k, (occursAt_drop hi).1 hk⟩, fun j hj => ?_⟩
    have hfrom : i ≤ j := hj.1
    have hdrop : OccursAt (s.drop i) part (j - i) :=
      (occursAt_drop hi).2 (by rw [Nat.add_sub_cancel' hfrom]; exact hj.2)
    have : k ≤ j - i := hleast hdrop
    omega
  · rintro ⟨hk, hleast⟩
    refine ⟨(occursAt_drop hi).2 hk.2, fun j hj => ?_⟩
    have : i + k ≤ i + j := hleast ⟨Nat.le_add_right i j, (occursAt_drop hi).1 hj⟩
    omega

/-! ## Splitting -/

theorem splitGo_skip (sep part s : Text) (k : Nat) :
    splitGo sep k part s = splitGo sep 0 part (s.drop k) := by
  induction s generalizing k with
  | nil => simp [splitGo]
  | cons c s ih =>
    cases k with
    | zero => rfl
    | succ k => rw [splitGo, ih, List.drop_succ_cons]

/-- A text is split at the first occurrence of the separator, and so is what follows it. -/
theorem splitGo_eq (hsep : sep ≠ []) (part s : Text) :
    splitGo sep 0 part s = match find? sep s with
      | none => [part.reverse ++ s]
      | some k => (part.reverse ++ s.take k) :: splitOn (s.drop (k + sep.length)) sep := by
  induction s generalizing part with
  | nil =>
    rw [find?, if_neg (by simpa using hsep)]
    simp [splitGo]
  | cons c s ih =>
    rw [find?, splitGo]
    by_cases hstart : sep.isPrefixOf (c :: s) = true
    · obtain ⟨n, hn⟩ := Nat.exists_eq_add_of_lt (List.length_pos_iff.2 hsep)
      rw [if_pos hstart, if_pos hstart, splitGo_skip]
      dsimp only
      rw [hn, List.take_zero, List.append_nil, splitOn]
      simp
    · rw [if_neg hstart, if_neg hstart, ih]
      cases find? sep s with
      | none => simp
      | some k => simp [Nat.add_right_comm k 1 sep.length]

theorem splitOn_of_none (hsep : sep ≠ []) (h : find? sep s = none) : splitOn s sep = [s] := by
  rw [splitOn, splitGo_eq hsep, h]
  rfl

theorem splitOn_of_some (hsep : sep ≠ []) (h : find? sep s = some k) :
    splitOn s sep = s.take k :: splitOn (s.drop (k + sep.length)) sep := by
  rw [splitOn, splitGo_eq hsep, h]
  rfl

/-- What holds of a text without the separator, and of a text with an occurrence of it if it holds
of what follows, holds of every text. -/
theorem splitOn_induction {p : Text → Prop} (hsep : sep ≠ [])
    (none : ∀ s, find? sep s = none → p s)
    (some : ∀ s k, find? sep s = some k → p (s.drop (k + sep.length)) → p s) (s : Text) : p s := by
  induction hn : s.length using Nat.strong_induction_on generalizing s with
  | _ n ih =>
    cases hfound : find? sep s with
    | none => exact none s hfound
    | some k =>
      have hle := (find?_eq_some_iff.1 hfound).1.add_length_le
      have hpos := List.length_pos_iff.2 hsep
      exact some s k hfound (ih _ (by rw [List.length_drop]; omega) _ rfl)

theorem splitOn_ne_nil (hsep : sep ≠ []) (s : Text) : splitOn s sep ≠ [] := by
  cases hfound : find? sep s with
  | none => simp [splitOn_of_none hsep hfound]
  | some k => simp [splitOn_of_some hsep hfound]

theorem join_cons (sep t : Text) {ts : List Text} (h : ts ≠ []) :
    join sep (t :: ts) = t ++ sep ++ join sep ts := by
  cases ts with
  | nil => exact absurd rfl h
  | cons => rfl

/-- The parts of a text joined again. -/
theorem join_splitOn (hsep : sep ≠ []) (s : Text) : join sep (splitOn s sep) = s := by
  induction s using splitOn_induction hsep with
  | none s hfound =>
    rw [splitOn_of_none hsep hfound]
    rfl
  | some s k hfound ih =>
    obtain ⟨rest, hrest⟩ := (find?_eq_some_iff.1 hfound).1.2
    have hafter : s.drop (k + sep.length) = rest := by
      rw [← List.drop_drop, ← hrest, List.drop_left]
    rw [splitOn_of_some hsep hfound, join_cons sep _ (splitOn_ne_nil hsep _), ih, hafter,
      List.append_assoc, hrest, List.take_append_drop]

/-- The code points of a text joined again. -/
theorem join_characters (s : Text) : join [] (s.map fun c => [c]) = s := by
  induction s with
  | nil => rfl
  | cons c s ih =>
    cases s with
    | nil => rfl
    | cons d s => exact congrArg (c :: ·) ih

/-- No part of a text holds the separator. -/
theorem not_infix_of_mem_splitOn (hsep : sep ≠ []) (s : Text) :
    ∀ part ∈ splitOn s sep, ¬ sep <:+: part := by
  induction s using splitOn_induction hsep with
  | none s hfound =>
    rw [splitOn_of_none hsep hfound]
    intro part hpart
    rw [List.mem_singleton.1 hpart, infix_iff_occursAt]
    rintro ⟨k, hk⟩
    exact find?_eq_none_iff.1 hfound k hk
  | some s k hfound ih =>
    rw [splitOn_of_some hsep hfound]
    refine List.forall_mem_cons.2 ⟨?_, ih⟩
    rw [infix_iff_occursAt]
    rintro ⟨j, hj⟩
    -- An occurrence before `k` would have been found first.
    have hleast : k ≤ j := (find?_eq_some_iff.1 hfound).2 (occursAt_take hj)
    have hle := hj.add_length_le
    have hpos := List.length_pos_iff.2 hsep
    rw [List.length_take] at hle
    omega

/-! ## Occurrences that do not overlap -/

/-- The occurrences of a text in another from an offset on, each the first one that does not overlap
the one before it. -/
inductive Occurrences (s part : Text) : Nat → List Nat → Prop where
  | none {i : Nat} (h : ∀ k, i ≤ k → ¬ OccursAt s part k) : Occurrences s part i []
  | next {i k : Nat} {ks : List Nat} (h : IsLeast {k | i ≤ k ∧ OccursAt s part k} k)
    (hrest : Occurrences s part (k + part.length) ks) : Occurrences s part i (k :: ks)

theorem Occurrences.unique {ks ks' : List Nat} (h : Occurrences s part i ks)
    (h' : Occurrences s part i ks') : ks = ks' := by
  induction h generalizing ks' with
  | none h =>
    cases h' with
    | none => rfl
    | next h' => exact absurd h'.1.2 (h _ h'.1.1)
  | next h _ ih =>
    cases h' with
    | none h' => exact absurd h.1.2 (h' _ h.1.1)
    | next h' hrest' =>
      obtain rfl := h.unique h'
      rw [ih hrest']

theorem exists_occurrences (hsep : sep ≠ []) (s : Text) (hi : i ≤ s.length) :
    ∃ ks, Occurrences s sep i ks := by
  induction hn : s.length - i using Nat.strong_induction_on generalizing i with
  | _ n ih =>
    cases hfound : find? sep (s.drop i) with
    | none => exact ⟨[], .none ((find?_drop_eq_none_iff hi).1 hfound)⟩
    | some k =>
      have hleast := (find?_drop_eq_some_iff hi).1 hfound
      have hle := hleast.1.2.add_length_le
      have hpos := List.length_pos_iff.2 hsep
      obtain ⟨ks, hks⟩ := ih (s.length - (i + k + sep.length)) (by omega) hle rfl
      exact ⟨(i + k) :: ks, .next hleast hks⟩

/-- There is one part more than there are occurrences of the separator. -/
theorem length_splitOn (hsep : sep ≠ []) {ks : List Nat} (h : Occurrences s sep i ks)
    (hi : i ≤ s.length) : (splitOn (s.drop i) sep).length = ks.length + 1 := by
  induction h with
  | none h =>
    rw [splitOn_of_none hsep ((find?_drop_eq_none_iff hi).2 h)]
    rfl
  | @next i k ks hleast _ ih =>
    obtain ⟨j, rfl⟩ := Nat.exists_eq_add_of_le hleast.1.1
    have hfound := (find?_drop_eq_some_iff hi).2 hleast
    rw [splitOn_of_some hsep hfound, List.length_cons, List.drop_drop, ← Nat.add_assoc,
      ih hleast.1.2.add_length_le, List.length_cons]

end GuardedText.Text
