import GuardedText.Proofs.Property.Name

/-
  Worlds with more objects. What is in a store stays when objects are added to it, and so does the
  text of a value all of whose arrays are there (`Store.toText_append`).
-/

namespace GuardedText

namespace Store

variable {s : Store}

theorem get?_append (t : Store) {v : Value} {o : Obj} (h : s.get? v = some o) :
    (s ++ t).get? v = some o := by
  cases v with
  | ref r =>
    change s[r]? = some o at h
    change (s ++ t)[r]? = some o
    rw [Array.getElem?_append_left (Array.getElem?_eq_some_iff.1 h).1, h]
  | _ => cases h

theorem items?_append (t : Store) {v : Value} {items : List Value} (h : s.items? v = some items) :
    (s ++ t).items? v = some items := by
  unfold items? at h ⊢
  cases hget : s.get? v with
  | none =>
    rw [hget] at h
    cases h
  | some o => rwa [get?_append t hget, ← hget]

/-- A value and the arrays whose items make its text are in the store. -/
def Grounded (s : Store) (v : Value) : Prop := ∀ r, s.Holds r v → r < s.size

section

variable {v : Value} (t : Store)

theorem Grounded.getElem?_append {r : Ref} (h : s.Grounded (.ref r)) : (s ++ t)[r]? = s[r]? :=
  Array.getElem?_append_left (h r .self)

theorem Grounded.items?_append (h : s.Grounded v) : (s ++ t).items? v = s.items? v := by
  cases v with
  | ref r => rw [items?_ref, items?_ref, h.getElem?_append t]
  | _ => rfl

theorem Grounded.entries?_append (h : s.Grounded v) : (s ++ t).entries? v = s.entries? v := by
  cases v with
  | ref r =>
    unfold entries? get?
    dsimp only
    rw [h.getElem?_append t]
  | _ => rfl

/-- New objects do not change a text that is made from objects in the store. -/
theorem toText_append (h : s.Grounded v) : (s ++ t).toText v = s.toText v := by
  have hcallable (u : Value) (hu : s.Grounded u) : (s ++ t).callable u = s.callable u := by
    cases u with
    | ref r => rw [callable_ref, callable_ref, hu.getElem?_append t]
    | _ => rfl
  have hdown (u : Value) (items : List Value) (hu : s.Grounded u) (hitems : s.items? u = some items)
      (item : Value) (hitem : item ∈ items) : s.Grounded item :=
    fun r hholds => hu r (.item hitems hitem hholds)
  rw [toText, textWithin_congr (fun _ hu => hu.items?_append t) hcallable hdown _ h,
    textWithin_fuel (by rw [Array.size_append]; omega)]

theorem toNumber_append (h : s.Grounded v) : (s ++ t).toNumber v = s.toNumber v := by
  cases v with
  | ref r => rw [toNumber, toNumber, h.items?_append t, h.entries?_append t, toText_append t h]
  | _ => rfl

theorem toUInt32_append (h : s.Grounded v) : (s ++ t).toUInt32 v = s.toUInt32 v := by
  rw [toUInt32, toUInt32, toNumber_append t h]

end

end Store

/-- A world with more objects. -/
def World.grown (w : World) (more : Store) : World := { w with store := w.store ++ more }

@[simp]
theorem World.grown_empty (w : World) : w.grown #[] = w := by
  simp [grown]

@[simp]
theorem World.grown_grown (w : World) (more more' : Store) :
    (w.grown more).grown more' = w.grown (more ++ more') := by
  simp [grown]

namespace Eval

theorem allocate_eq (o : Obj) (w : World) :
    allocate o w = .ok (.ref w.store.size) (w.grown #[o]) := by
  show EStateM.Result.ok _ { w with store := w.store.push o } = _
  rw [World.grown, Array.push_eq_append]

theorem get?_grown (w : World) (o : Obj) :
    (w.grown #[o]).store.get? (.ref w.store.size) = some o := by
  show (w.store ++ #[o])[w.store.size]? = some o
  simp

end Eval

end GuardedText
