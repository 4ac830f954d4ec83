import GuardedText.Proofs.Method.Call
import GuardedText.Proofs.Text.Search

/-
  Searching a text from a position. By the rule of JavaScript a position that is negative or beyond
  the end is moved to the nearest end (`Text.clamp`). Here a negative position counts from the end
  first, so the rule holds for the other ones and for those that reach past the start
  (`Eval.invoke_search`).
-/

namespace GuardedText

namespace Text

/-- The offset in a text of a length that is nearest to a position. -/
def clamp (length : Nat) (p : Int) : Nat := (min (max p 0) length).toNat

theorem clamp_le (length : Nat) (p : Int) : clamp length p ≤ length := by
  unfold clamp
  omega

/-- The offset that a position means: a negative one counts from the end. -/
def offsetAt (length : Nat) (p : Int) : Nat := clamp length (if p < 0 then length + p else p)

/-- The offset is the nearest one to the position unless the position counts back from the end to an
offset behind the start. -/
theorem offsetAt_eq_clamp_iff {length : Nat} {p : Int} :
    offsetAt length p = clamp length p ↔ 0 ≤ p ∨ length + p ≤ 0 := by
  unfold offsetAt clamp
  split_ifs <;> omega

/-- Positions are in the order of their offsets, apart from those that count from the end and those
that do not. -/
theorem offsetAt_mono {length : Nat} {p q : Int} (hpq : p ≤ q)
    (h : 0 ≤ p ∨ q < 0 ∨ length + p ≤ 0) : offsetAt length p ≤ offsetAt length q := by
  unfold offsetAt clamp
  split_ifs <;> omega

end Text

namespace Store

theorem position_num (s : Store) {n : Num} {p : Int} (hp : n.truncate? = some p)
    (length missing : Nat) : s.position (.num n) length missing = .ok (Text.offsetAt length p) := by
  unfold position
  dsimp only [toNumber, pure, Except.pure, bind, Except.bind]
  rw [hp]
  refine congrArg Except.ok ?_
  unfold Text.offsetAt Text.clamp
  split_ifs <;> omega

end Store

namespace Eval

open Store

variable (t part : Text) {n : Num} {p : Int} (w : World)

/-! ## Functions -/

theorem callText_includes (hp : n.truncate? = some p) :
    callText .textIncludes t [.text part, .num n] w =
      .ok (.bool (Text.contains (t.drop (Text.offsetAt t.length p)) part)) w := by
  show (read (·.position (.num n) t.length 0) >>= _) w = _
  rw [read_bind_apply, position_num _ hp]
  rfl

theorem callText_startsWith (hp : n.truncate? = some p) :
    callText .textStartsWith t [.text part, .num n] w =
      .ok (.bool (Text.startsWith (t.drop (Text.offsetAt t.length p)) part)) w := by
  show (read (·.position (.num n) t.length 0) >>= _) w = _
  rw [read_bind_apply, position_num _ hp]
  rfl

theorem callText_endsWith (hp : n.truncate? = some p) :
    callText .textEndsWith t [.text part, .num n] w =
      .ok (.bool (Text.endsWith (t.take (Text.offsetAt t.length p)) part)) w := by
  show (read (·.position (.num n) t.length t.length) >>= _) w = _
  rw [read_bind_apply, position_num _ hp]
  rfl

theorem callText_indexOf (hp : n.truncate? = some p) :
    callText .textIndexOf t [.text part, .num n] w = .ok (.num (.int
      ((indexFrom? t part (Text.offsetAt t.length p)).elim (-1) Int.ofNat))) w := by
  show (read (·.position (.num n) t.length 0) >>= _) w = _
  rw [read_bind_apply, position_num _ hp]
  rfl

theorem indexFrom?_eq_some_iff {i k : Nat} (hi : i ≤ t.length) :
    indexFrom? t part i = some k ↔ IsLeast {k | i ≤ k ∧ t.OccursAt part k} k := by
  rw [indexFrom?, Option.map_eq_some_iff]
  constructor
  · rintro ⟨j, hj, rfl⟩
    rw [Nat.add_comm]
    exact (Text.find?_drop_eq_some_iff hi).1 hj
  · intro hk
    have hsum : i + (k - i) = k := Nat.add_sub_cancel' hk.1.1
    exact ⟨k - i, (Text.find?_drop_eq_some_iff hi).2 (hsum.symm ▸ hk), by omega⟩

theorem contains_drop_iff {i : Nat} (hi : i ≤ t.length) :
    Text.contains (t.drop i) part = true ↔ ∃ k, i ≤ k ∧ t.OccursAt part k := by
  rw [Text.contains, Option.isSome_iff_ne_none, Ne, Text.find?_drop_eq_none_iff hi]
  push Not
  rfl

/-! ### Offsets as numbers -/

section

variable (found : Option Nat)

theorem elim_nonneg_iff : 0 ≤ found.elim (-1) Int.ofNat ↔ found.isSome = true := by
  cases found with
  | none => exact iff_of_false (by decide) nofun
  | some k => exact iff_of_true (Int.natCast_nonneg k) rfl

theorem elim_eq_neg_one_iff : found.elim (-1) Int.ofNat = -1 ↔ found.isSome = false := by
  cases found with
  | none => exact iff_of_true rfl rfl
  | some k => exact iff_of_false (show ¬ (k : Int) = -1 by omega) nofun

theorem elim_eq_natCast_iff (k : Nat) : found.elim (-1) Int.ofNat = k ↔ found = some k := by
  cases found with
  | none => exact iff_of_false (show ¬ (-1 : Int) = k by omega) nofun
  | some j => exact Int.natCast_inj.trans (Option.some.injEq j k ▸ Iff.rfl)

end

/-! ## The rule -/

/-- What searching a text for another from a position gives. -/
theorem invoke_search (hp : n.truncate? = some p) :
    let i := Text.offsetAt t.length p
    let args : List Value := [.text part, .num n]
    (i = Text.clamp t.length p ↔ 0 ≤ p ∨ t.length + p ≤ 0) ∧
    ∃ (found starts ends : Bool) (index : Int),
      invoke (.text t) "includes" args w =
        .ok (.bool found) (lookedUp w .textIncludes (.text t)) ∧
      invoke (.text t) "startsWith" args w =
        .ok (.bool starts) (lookedUp w .textStartsWith (.text t)) ∧
      invoke (.text t) "endsWith" args w =
        .ok (.bool ends) (lookedUp w .textEndsWith (.text t)) ∧
      invoke (.text t) "indexOf" args w =
        .ok (.num (.int index)) (lookedUp w .textIndexOf (.text t)) ∧
      (found = true ↔ ∃ k, i ≤ k ∧ t.OccursAt part k) ∧
      (starts = true ↔ t.OccursAt part i) ∧
      (ends = true ↔ part <:+ t.take i) ∧
      (found = true ↔ 0 ≤ index) ∧ (found = false ↔ index = -1) ∧
      (∀ k : Nat, index = k ↔ IsLeast {k | i ≤ k ∧ t.OccursAt part k} k) ∧
      ∀ {n' : Num} {q : Int} {u : World}, n'.truncate? = some q → p ≤ q →
        0 ≤ p ∨ q < 0 ∨ t.length + p ≤ 0 →
        invoke (.text t) "includes" [.text part, .num n'] w = .ok (.bool true) u →
        found = true := by
  intro i args
  have hi : i ≤ t.length := Text.clamp_le _ _
  have hfound := contains_drop_iff t part hi
  have hindex (k : Nat) := indexFrom?_eq_some_iff t part (k := k) hi
  have hsome : Text.contains (t.drop i) part = (indexFrom? t part i).isSome := by
    rw [Text.contains, indexFrom?, Option.isSome_map]
  refine ⟨Text.offsetAt_eq_clamp_iff, Text.contains (t.drop i) part,
    Text.startsWith (t.drop i) part, Text.endsWith (t.take i) part,
    (indexFrom? t part i).elim (-1) Int.ofNat,
    (invoke_text rfl t args w).trans (callText_includes t part _ hp),
    (invoke_text rfl t args w).trans (callText_startsWith t part _ hp),
    (invoke_text rfl t args w).trans (callText_endsWith t part _ hp),
    (invoke_text rfl t args w).trans (callText_indexOf t part _ hp),
    hfound, ?_, List.isSuffixOf_iff_suffix, hsome ▸ (elim_nonneg_iff _).symm,
    hsome ▸ (elim_eq_neg_one_iff _).symm, fun k => (elim_eq_natCast_iff _ k).trans (hindex k), ?_⟩
  · rw [Text.startsWith, List.isPrefixOf_iff_prefix]
    exact (and_iff_right hi).symm
  · intro n' q u hq hpq hsides hlater
    rw [invoke_text rfl, callText_includes t part _ hq] at hlater
    injection hlater with hlater
    injection hlater with hlater
    obtain ⟨k, hk, hoccurs⟩ := (contains_drop_iff t part (Text.clamp_le _ _)).1 hlater
    exact hfound.2 ⟨k, (Text.offsetAt_mono hpq hsides).trans hk, hoccurs⟩

/-- The second occurrence of a text is found from the position after the first. -/
theorem invoke_search_second :
    (Num.int 1).truncate? = some 1 ∧ Text.offsetAt 5 1 = Text.clamp 5 1 ∧
      (∃ u, invoke (.text "abcab") "indexOf" [.text "ab", .num (.int 1)] {} =
        .ok (.num (.int 3)) u) ∧
      IsLeast {k | 1 ≤ k ∧ Text.OccursAt "abcab" "ab" k} 3 := by
  obtain ⟨hclamp, found, starts, ends, index, -, -, -, hrun, -, -, -, -, -, hleast, -⟩ :=
    invoke_search "abcab" "ab" {} (n := .int 1) (p := 1) rfl
  have hname : methodNamed? textMethods "indexOf" = some .textIndexOf := rfl
  have hcall := (invoke_text hname "abcab" [.text "ab", .num (.int 1)] {}).symm.trans hrun
  have hindex : index = 3 := by
    injection hcall with hcall
    injection hcall with hcall
    injection hcall with hcall
    exact hcall.symm
  exact ⟨rfl, hclamp.2 (.inl (by decide)), ⟨_, hindex ▸ hrun⟩, (hleast 3).1 hindex⟩

/-- From a position before the start nothing is found at the start, though the nearest offset to
that position is the start, and from the start it is found. -/
theorem search_from_end :
    let before : List Value := [.text "a", .num (.int (-1))]
    let w : World := {}
    Text.clamp 3 (-1) = 0 ∧ Text.OccursAt "abc" "a" 0 ∧
      invoke (.text "abc") "includes" before w =
        .ok (.bool false) (lookedUp w .textIncludes (.text "abc")) ∧
      invoke (.text "abc") "startsWith" before w =
        .ok (.bool false) (lookedUp w .textStartsWith (.text "abc")) ∧
      invoke (.text "abc") "indexOf" before w =
        .ok (.num (.int (-1))) (lookedUp w .textIndexOf (.text "abc")) ∧
      invoke (.text "abc") "includes" [.text "a", .num (.int 0)] w =
        .ok (.bool true) (lookedUp w .textIncludes (.text "abc")) ∧
      invoke (.text "abc") "endsWith" [.text "ab", .num (.int (-1))] w =
        .ok (.bool true) (lookedUp w .textEndsWith (.text "abc")) ∧
      ¬ ("ab" : Text) <:+ ("abc" : Text).take 0 :=
  ⟨rfl, ⟨Nat.zero_le _, _, rfl⟩, (invoke_text rfl _ _ _).trans rfl,
    (invoke_text rfl _ _ _).trans rfl, (invoke_text rfl _ _ _).trans rfl,
    (invoke_text rfl _ _ _).trans rfl, (invoke_text rfl _ _ _).trans rfl, by decide⟩

end Eval

end GuardedText
