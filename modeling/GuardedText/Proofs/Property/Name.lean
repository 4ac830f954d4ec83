import GuardedText.Proofs.Property.Found

/-
  Names of keys. The name of an array is the text of its items, so it changes when the array, or an
  array inside it, gets other items. No other name changes when an object gives way to another
  (`keyText_set`).
-/

namespace GuardedText.Store

/-- The arrays whose text is made from the object at a place, and that object. -/
inductive Holds (s : Store) (r : Ref) : Value → Prop where
  | self : Holds s r (.ref r)
  | item {v item : Value} {items : List Value} (hitems : s.items? v = some items)
    (hitem : item ∈ items) (hholds : Holds s r item) : Holds s r v

/-- A key that denotes an index is no array. -/
theorem not_holds_of_index {s : Store} {r : Ref} {key : Value} {i : Nat}
    (h : index? key = .ok (some i)) : ¬ s.Holds r key := by
  intro hholds
  cases hholds with
  | self => cases h
  | item hitems =>
    cases key with
    | ref t => cases h
    | _ => cases hitems

theorem mapM_eq_of_forall {α β : Type} {f g : α → Except Fault β} {xs : List α}
    (h : ∀ x ∈ xs, f x = g x) : xs.mapM f = xs.mapM g := by
  induction xs with
  | nil => rfl
  | cons x xs ih =>
    rw [List.mapM_cons, List.mapM_cons, h x List.mem_cons_self,
      ih fun y hy => h y (List.mem_cons_of_mem x hy)]

section

variable {s s' : Store} {P : Value → Prop}

/-- Values have the same texts in two stores if arrays among them have the same items there, which
are such values again. -/
theorem textWithin_congr (hitems : ∀ v, P v → s'.items? v = s.items? v)
    (hcallable : ∀ v, P v → s'.callable v = s.callable v)
    (hdown : ∀ v items, P v → s.items? v = some items → ∀ item ∈ items, P item) (n : Nat)
    {v : Value} (h : P v) : s'.textWithin n v = s.textWithin n v := by
  induction n generalizing v with
  | zero => cases v <;> rfl
  | succ n ih =>
    cases v with
    | ref t =>
      rw [textWithin_ref, textWithin_ref, hitems _ h, hcallable _ h]
      cases hfound : s.items? (.ref t) with
      | none => rfl
      | some items =>
        dsimp only
        rw [mapM_eq_of_forall fun item hitem => by rw [ih (hdown _ items h hfound item hitem)]]
    | _ => rfl

theorem keyText_congr (hsize : s'.size = s.size) (hitems : ∀ v, P v → s'.items? v = s.items? v)
    (hcallable : ∀ v, P v → s'.callable v = s.callable v)
    (hdown : ∀ v items, P v → s.items? v = some items → ∀ item ∈ items, P item)
    {v : Value} (h : P v) : s'.keyText v = s.keyText v := by
  have htext : s'.toText v = s.toText v := by
    rw [toText, toText, hsize, textWithin_congr hitems hcallable hdown _ h]
  cases v <;> exact htext

end

/-- When an object gives way to another that is a function if it is one, the names of keys stay,
unless the object gets other items and the key holds it. -/
theorem keyText_set {s : Store} {r : Ref} {o o' : Obj} (hr : s[r]? = some o)
    (hfunction : o'.isFunction = o.isFunction) {key : Value}
    (hkey : o'.items? ≠ o.items? → ¬ s.Holds r key) :
    Store.keyText (s.setIfInBounds r o') key = s.keyText key := by
  have hcallable (u : Value) : callable (s.setIfInBounds r o') u = s.callable u := by
    cases u with
    | ref t =>
      rw [callable_ref, callable_ref]
      rcases eq_or_ne r t with rfl | ht
      · rw [getElem?_set_self hr, hr, Option.any_some, Option.any_some, hfunction]
      · rw [Array.getElem?_setIfInBounds_ne ht]
    | _ => rfl
  have hsize : (s.setIfInBounds r o').size = s.size := Array.size_setIfInBounds
  by_cases hitems : o'.items? = o.items?
  · refine keyText_congr (P := fun _ => True) hsize (fun u _ => ?_) (fun u _ => hcallable u)
      (fun _ _ _ _ _ _ => trivial) trivial
    cases u with
    | ref t =>
      rw [items?_ref, items?_ref]
      rcases eq_or_ne r t with rfl | ht
      · rw [getElem?_set_self hr, hr, Option.bind_some, Option.bind_some, hitems]
      · rw [Array.getElem?_setIfInBounds_ne ht]
    | _ => rfl
  · refine keyText_congr (P := fun u => ¬ s.Holds r u) hsize (fun u hu => ?_)
      (fun u _ => hcallable u) (fun u items hu hfound item hitem hholds =>
        hu (.item hfound hitem hholds)) (hkey hitems)
    cases u with
    | ref t =>
      have ht : r ≠ t := by
        rintro rfl
        exact hu .self
      rw [items?_ref, items?_ref, Array.getElem?_setIfInBounds_ne ht]
    | _ => rfl

end GuardedText.Store
