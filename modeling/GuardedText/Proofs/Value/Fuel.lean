import Mathlib.Data.Fintype.Card
import GuardedText.Builtin.Json

/-
  Conversions that go into arrays and mappings, at most as deep as they have fuel. They are given as
  much as there are objects in the store; more than that changes neither the text of a value
  (`Store.textWithin_fuel`) nor its document (`Store.jsonWithin_fuel`).
-/

namespace GuardedText

/-! ## Enough fuel -/

/-- A function of fuel that is `out` as long as the fuel does not do, and that stays the same for
more fuel once a step more changes nothing, needs no more fuel than there are objects. -/
theorem settled {β : Type} (out : β) {f : Nat → Ref → β} {size : Nat}
    (hbeyond : ∀ r, size ≤ r → f 1 r ≠ out)
    (hkeep : ∀ n r, f n r ≠ out → f (n + 1) r = f n r)
    (hnext : ∀ n, f (n + 1) = f n → f (n + 2) = f (n + 1)) {n : Nat} (hn : size + 1 ≤ n) :
    f n = f (size + 1) := by
  have hlater (m k : Nat) (r : Ref) (h : f m r ≠ out) : f (m + k) r ≠ out := by
    induction k with
    | zero => exact h
    | succ k ih => rwa [← Nat.add_assoc, hkeep _ _ ih]
  have hstill (m : Nat) (h : f (m + 1) = f m) (k : Nat) : f (m + k + 1) = f (m + k) := by
    induction k with
    | zero => exact h
    | succ k ih => exact hnext _ ih
  have hconst (m : Nat) (h : f (m + 1) = f m) (k : Nat) : f (m + k) = f m := by
    induction k with
    | zero => rfl
    | succ k ih => exact (hstill m h k).trans ih
  by_cases hstop : ∃ j ≤ size, f (j + 2) = f (j + 1)
  · obtain ⟨j, hj, hstop⟩ := hstop
    obtain ⟨k, rfl⟩ : ∃ k, n = j + 1 + k := ⟨n - (j + 1), by omega⟩
    obtain ⟨i, hi⟩ : ∃ i, size + 1 = j + 1 + i := ⟨size - j, by omega⟩
    rw [hi, hconst _ hstop, hconst _ hstop]
  · -- Every step changes the result at some object, and at another one each time.
    push Not at hstop
    have hmove (j : Fin (size + 1)) : ∃ r, f (j + 1) r = out ∧ f (j + 2) r ≠ out := by
      obtain ⟨r, hr⟩ := Function.ne_iff.1 (hstop j (Nat.le_of_lt_succ j.2))
      have hout : f (j + 1) r = out := by
        by_contra hne
        exact hr (hkeep _ _ hne)
      exact ⟨r, hout, fun h => hr (h.trans hout.symm)⟩
    choose moved hmoved using hmove
    have hbound (j : Fin (size + 1)) : moved j < size := by
      by_contra hge
      have hlate := hlater 1 j (moved j) (hbeyond _ (Nat.le_of_not_lt hge))
      rw [Nat.add_comm] at hlate
      exact hlate (hmoved j).1
    have hdistinct : Function.Injective fun j => (⟨moved j, hbound j⟩ : Fin size) := by
      have hne {i j : Fin (size + 1)} (hij : i < j) : moved i ≠ moved j := by
        intro heq
        have hlate := hlater (i + 2) (j - i - 1) (moved i) (hmoved i).2
        have hsum : (i : Nat) + 2 + (j - i - 1) = j + 1 := by
          have := Fin.lt_def.1 hij
          omega
        rw [hsum, heq] at hlate
        exact hlate (hmoved j).1
      intro i j hij
      have heq : moved i = moved j := congrArg Fin.val hij
      rcases lt_trichotomy i j with h | h | h
      · exact absurd heq (hne h)
      · exact h
      · exact absurd heq.symm (hne h)
    have hcard := Fintype.card_le_of_injective _ hdistinct
    rw [Fintype.card_fin, Fintype.card_fin] at hcard
    omega

/-- More fuel for the elements changes nothing of a list that does not run out of it. -/
theorem mapM_keep {α β : Type} {f g : α → Except Fault β} {e : Fault} {xs : List α}
    (hfg : ∀ a, f a ≠ .error e → g a = f a) (h : xs.mapM f ≠ .error e) :
    xs.mapM g = xs.mapM f := by
  induction xs with
  | nil => rfl
  | cons a xs ih =>
    rw [List.mapM_cons] at h ⊢
    rw [List.mapM_cons]
    have ha : f a ≠ .error e := by
      intro ha
      rw [ha] at h
      exact h rfl
    rw [hfg a ha]
    cases hfa : f a with
    | error => rfl
    | ok b =>
      rw [hfa] at h
      have hxs : xs.mapM f ≠ .error e := by
        intro hxs
        rw [hxs] at h
        exact h rfl
      simp only [bind, Except.bind]
      rw [ih hxs]

namespace Store

variable {s : Store}

/-! ## Texts -/

/-- The text of the object at a place. -/
theorem textWithin_ref (n : Nat) (r : Ref) :
    s.textWithin (n + 1) (.ref r) =
      match s.items? (.ref r) with
      | some items => do
        let texts ← items.mapM fun item =>
          if isNothing item then pure [] else s.textWithin n item
        return Text.join "," texts
      | none => .ok (if s.callable (.ref r) then functionText else "[object Object]") :=
  rfl

theorem textWithin_keep (n : Nat) {v : Value} (h : s.textWithin n v ≠ .error .tooDeep) :
    s.textWithin (n + 1) v = s.textWithin n v := by
  induction n generalizing v with
  | zero =>
    cases v with
    | ref => exact absurd rfl h
    | _ => rfl
  | succ n ih =>
    cases v with
    | ref r =>
      rw [textWithin_ref] at h ⊢
      rw [textWithin_ref]
      cases hitems : s.items? (.ref r) with
      | none => rfl
      | some items =>
        rw [hitems] at h
        dsimp only at h ⊢
        congr 1
        refine mapM_keep (fun item hitem => ?_) (e := .tooDeep) ?_
        · split
          · rfl
          · rename_i hthing
            rw [if_neg hthing] at hitem
            exact ih hitem
        · intro htexts
          rw [htexts] at h
          exact h rfl
    | _ => rfl

/-- More fuel than there are objects changes no text. -/
theorem textWithin_fuel {n : Nat} (hn : s.size + 1 ≤ n) (v : Value) :
    s.textWithin n v = s.toText v := by
  have hobject :
      (fun r => s.textWithin n (.ref r)) = fun r => s.textWithin (s.size + 1) (.ref r) := by
    refine settled (.error .tooDeep) (f := fun n r => s.textWithin n (.ref r))
      (fun r hr => ?_) (fun n r h => textWithin_keep n h) (fun n h => ?_) hn
    · have hnone : s[r]? = none := Array.getElem?_eq_none hr
      rw [textWithin_ref, items?, get?, hnone]
      exact nofun
    · have hall (v : Value) : s.textWithin (n + 1) v = s.textWithin n v := by
        cases v with
        | ref r => exact congrFun h r
        | _ => cases n <;> rfl
      funext r
      rw [textWithin_ref, textWithin_ref]
      simp only [hall]
  cases v with
  | ref r => exact congrFun hobject r
  | _ => cases n <;> rfl

/-! ## Documents -/

/-- The documents of the entries of a mapping that does not run out of fuel. -/
theorem members_keep {n : Nat} {entries : Entries}
    (hkeep : ∀ v, s.jsonWithin n v ≠ .error .tooDeep → s.jsonWithin (n + 1) v = s.jsonWithin n v)
    (h : (do
      let members ← entries.mapM fun (k, v) => return (← k.write, ← s.jsonWithin n v)
      return .object (Table.insertAll [] members) : Except Fault Json) ≠ .error .tooDeep) :
    (entries.mapM fun (k, v) => return (← k.write, ← s.jsonWithin (n + 1) v)) =
      (entries.mapM fun (k, v) => return (← k.write, ← s.jsonWithin n v) :
        Except Fault (List (Text × Json))) := by
  refine mapM_keep (fun entry hmember => ?_) (e := .tooDeep) fun hdeep => ?_
  · obtain ⟨k, v⟩ := entry
    dsimp only at hmember ⊢
    cases hk : k.write with
    | error => rfl
    | ok name =>
      rw [hk] at hmember
      rw [hkeep]
      intro hdeep
      rw [hdeep] at hmember
      exact hmember rfl
  · rw [hdeep] at h
    exact h rfl

/-- More fuel does not change the document of a value that does not run out of it. -/
theorem jsonWithin_keep (n : Nat) {v : Value} (h : s.jsonWithin n v ≠ .error .tooDeep) :
    s.jsonWithin (n + 1) v = s.jsonWithin n v := by
  induction n generalizing v with
  | zero =>
    cases v with
    | ref => exact absurd rfl h
    | _ => rfl
  | succ n ih =>
    cases v with
    | ref r =>
      rw [jsonWithin] at h ⊢
      rw [jsonWithin]
      have hitems {items : List Value}
          (h : (do return .array (← items.mapM (s.jsonWithin n)) : Except Fault Json) ≠
            .error .tooDeep) :
          items.mapM (s.jsonWithin (n + 1)) = items.mapM (s.jsonWithin n) := by
        refine mapM_keep (fun _ => ih) (e := .tooDeep) fun hdeep => ?_
        rw [hdeep] at h
        exact h rfl
      cases ho : s[r]? with
      | none => rfl
      | some o =>
        rw [ho] at h
        cases o with
        | list | tuple =>
          dsimp only at h ⊢
          rw [hitems h]
        | dict | frozen =>
          dsimp only at h ⊢
          rw [members_keep (fun _ => ih) h]
        | _ => rfl
    | _ => rfl

/-- More fuel than there are objects changes no document. -/
theorem jsonWithin_fuel {n : Nat} (hn : s.size + 1 ≤ n) (v : Value) :
    s.jsonWithin n v = s.jsonWithin (s.size + 1) v := by
  have hobject : (fun r => s.jsonWithin n (.ref r)) =
      fun r => s.jsonWithin (s.size + 1) (.ref r) := by
    refine settled (.error .tooDeep) (f := fun n r => s.jsonWithin n (.ref r))
      (fun r hr => ?_) (fun n r h => jsonWithin_keep n h) (fun n h => ?_) hn
    · have hnone : s[r]? = none := Array.getElem?_eq_none hr
      rw [jsonWithin, hnone]
      dsimp only
      split <;> exact nofun
    · have hall : s.jsonWithin (n + 1) = s.jsonWithin n := by
        funext v
        cases v with
        | ref r => exact congrFun h r
        | _ => cases n <;> rfl
      funext r
      rw [jsonWithin, jsonWithin, hall]
  cases v with
  | ref r => exact congrFun hobject r
  | _ => cases n <;> rfl

end Store

end GuardedText
