import GuardedText.Proofs.Property.Element
import GuardedText.Proofs.Property.Name
import GuardedText.Proofs.Table

/-
  Writes of properties. What is put into an object is found there under the key it was put under,
  and everything else that the object had is found as before (`Put.reads`, `Put.frame`). Only the
  names of arrays that hold a written array change with it (`keyText_put`). From both follows what a
  write does to a world (`setProperty_written`).
-/

namespace GuardedText

namespace Store

/-! ## Putting a value into an object -/

theorem putItem_self {items items' : List Value} {i : Nat} {v : Value}
    (h : putItem items i v = .ok items') : items'[i]? = some v := by
  unfold putItem at h
  split_ifs at h with hlt
  · obtain rfl := Except.ok.inj h
    exact List.getElem?_set_self hlt
  · obtain rfl := Except.ok.inj h
    rw [List.getElem?_append_right (Nat.le_of_not_lt hlt),
      List.getElem?_append_right (by simp), List.length_replicate, Nat.sub_self]
    rfl

/-- The other items are the same, or fill a gap with `undefined`. -/
theorem putItem_other {items items' : List Value} {i : Nat} {v : Value}
    (h : putItem items i v = .ok items') {j : Nat} (hj : j ≠ i) :
    items'[j]?.getD .undefined = items[j]?.getD .undefined := by
  unfold putItem at h
  split_ifs at h with hlt
  · obtain rfl := Except.ok.inj h
    rw [List.getElem?_set_ne hj.symm]
  · obtain rfl := Except.ok.inj h
    have hge : items.length ≤ i := Nat.le_of_not_lt hlt
    rcases Nat.lt_or_ge j items.length with hitem | hgap
    · rw [List.getElem?_append_left hitem]
    · rw [List.getElem?_append_right hgap, List.getElem?_eq_none hgap]
      rcases Nat.lt_or_gt_of_ne hj with hbefore | hafter
      · rw [List.getElem?_append_left (by rw [List.length_replicate]; omega),
          List.getElem?_replicate_of_lt (by omega)]
        rfl
      · rw [List.getElem?_append_right (by rw [List.length_replicate]; omega),
          List.getElem?_eq_none (by simp; omega)]

/-- Putting a value under a name changes nothing under numbers. -/
theorem numbered?_insert (n : Num) (entries : Entries) (name : Text) (v : Value) :
    numbered? n (Table.insert (.name name) v entries) = numbered? n entries := by
  induction entries with
  | nil => rfl
  | cons entry rest ih =>
    obtain ⟨k, u⟩ := entry
    rw [Table.insert]
    split_ifs with hk
    · obtain rfl := beq_iff_eq.1 hk
      rfl
    · rw [numbered?_cons, numbered?_cons, ih]

theorem entryProperty_insert_of_ne {entries : Entries} {name other : Text} {v : Value}
    (hne : other ≠ name) (key : Value) :
    entryProperty (Table.insert (.name name) v entries) key other =
      entryProperty entries key other := by
  rw [entryProperty_eq, entryProperty_eq, Table.lookup?_insert_of_ne v entries (by simpa using hne)]
  cases key with
  | num n => simp only [numbered?_insert]
  | _ => rfl

section

variable {key v : Value} {name : Text} {o o' : Obj}

/-- What is put under a key is found under it. -/
theorem Put.reads (h : Put key name v o o') (ho : ∀ items, o ≠ .tuple items) {s : Store}
    (hkey : s.keyText key = .ok name) : objectProperty o' key name = .ok (.value v) := by
  cases h with
  | tuple items => exact absurd rfl (ho items)
  | list hindex hput =>
    rw [objectProperty, sequenceProperty, if_neg (ne_length_of_index hindex hkey), hindex]
    exact congrArg (fun v? => Except.ok (Found.ofOption v?)) (putItem_self hput)
  | dict entries =>
    rw [objectProperty, entryProperty_eq, Table.lookup?_insert_self]
  | @own _ _ attributes hown hname hput =>
    have hown' := Obj.own?_setOwn hown (Table.insert name v attributes)
    rw [hput, objectProperty_own hown']
    refine attributeProperty_of_lookup? hname ?_
    rw [attributes?_own hown', Option.bind_some, Table.lookup?_insert_self]
  | first hname =>
    subst hname
    rfl
  | @second a b hname =>
    subst hname
    cases a <;> rfl
  | body hname =>
    subst hname
    rfl

/-- Nothing changes under another key, except for the length of an array. -/
theorem Put.frame (h : Put key name v o o') {other : Value} {name' : Text} (hne : name' ≠ name)
    (hlist : ∀ items, o = .list items →
      name' ≠ Text.ofString "length" ∧ index? other ≠ index? key) :
    (objectProperty o' other name').map Found.seen =
      (objectProperty o other name').map Found.seen := by
  cases h with
  | tuple items => rfl
  | @list items items' i hindex hput =>
    obtain ⟨hlength, hother⟩ := hlist items rfl
    simp only [objectProperty, sequenceProperty, if_neg hlength]
    cases hj : index? other with
    | error e => rfl
    | ok j? =>
      cases j? with
      | none => rfl
      | some j =>
        have hji : j ≠ i := fun h => hother (by rw [hj, hindex, h])
        exact congrArg Except.ok ((Found.seen_ofOption _).trans
          ((congrArg Found.value (putItem_other hput hji)).trans (Found.seen_ofOption _).symm))
  | dict entries =>
    rw [objectProperty, objectProperty, entryProperty_insert_of_ne hne]
  | @own _ _ attributes hown hname hput =>
    have hown' := Obj.own?_setOwn hown (Table.insert name v attributes)
    rw [hput, objectProperty_own hown', objectProperty_own hown]
    refine congrArg _ (attributeProperty_congr (conceals_setOwn hown _ name') ?_)
    rw [attributes?_own hown', attributes?_own hown, Option.bind_some, Option.bind_some,
      Table.lookup?_insert_of_ne v _ hne]
  | @first a b hname =>
    subst hname
    have hother : Text.ofString "a" ≠ name' := Ne.symm hne
    refine congrArg _ (attributeProperty_congr rfl ?_)
    cases a <;> simp [attributes?, Table.lookup?, hother]
  | @second a b hname =>
    subst hname
    have hother : Text.ofString "b" ≠ name' := Ne.symm hne
    refine congrArg _ (attributeProperty_congr rfl ?_)
    cases a <;> cases b <;> simp [attributes?, Table.lookup?, hother]
  | @body body put hname =>
    subst hname
    have hother : Text.ofString "body" ≠ name' := Ne.symm hne
    refine congrArg _ (attributeProperty_congr rfl ?_)
    simp [attributes?, Table.lookup?, hother]

/-- Only a list gets other items. -/
theorem Put.items?_eq (h : Put key name v o o') (ho : ∀ items, o ≠ .list items) :
    o'.items? = o.items? := by
  cases h with
  | @list items => exact absurd rfl (ho items)
  | own hown hname hput =>
    subst hput
    cases o <;> rfl
  | _ => rfl

theorem Put.isFunction_eq (h : Put key name v o o') : o'.isFunction = o.isFunction := by
  cases h with
  | own hown hname hput =>
    subst hput
    cases o <;> rfl
  | _ => rfl

end

section

variable {s : Store} {r : Ref} {o o' : Obj} (hr : s[r]? = some o)
include hr

/-- Names change only if they are made from a list that was written. -/
theorem keyText_put {key v : Value} {name : Text} (hput : Put key name v o o') {other : Value}
    (hother : ∀ items, o = .list items → ¬ s.Holds r other) :
    Store.keyText (s.setIfInBounds r o') other = s.keyText other := by
  refine keyText_set hr hput.isFunction_eq fun hitems hholds => hitems ?_
  exact hput.items?_eq fun items hlist => hother items hlist hholds

end

/-- Whether a value is a list, a mapping or an object of the host: an object that is no tuple. -/
def Mutable (s : Store) (object : Value) : Prop :=
  ∃ o, s.get? object = some o ∧ ∀ items, o ≠ .tuple items

/-- When a key denotes something else than the key that is written, before and after the write: its
name is another one and stays the same, and it is no index of the element that is written and not
the length of the array. -/
structure Separate (s s' : Store) (object key other : Value) : Prop where
  same : s'.keyText other = s.keyText other
  name : s.keyText other ≠ s.keyText key
  element : ∀ items, s.get? object = some (.list items) →
    s.keyText other ≠ .ok (Text.ofString "length") ∧ index? other ≠ index? key

end Store

namespace Eval

open Store

/-- What a write does to a world: nothing unless the object can be written, and else the value is
found under the key, what other keys give stays, and so do the names of all values but arrays that
hold the written list. -/
structure Written (object key value : Value) (w w' : World) : Prop where
  kept : ¬ w.store.Mutable object → w' = w
  reads : w.store.Mutable object → getProperty object key w' = .ok value w'
  frame : ∀ other, w.store.Separate w'.store object key other →
    (w'.store.property object other).map Found.seen =
      (w.store.property object other).map Found.seen
  names : ∀ other, (∀ r items, object = .ref r → w.store[r]? = some (.list items) →
    ¬ w.store.Holds r other) → w'.store.keyText other = w.store.keyText other

theorem setProperty_ref (r : Ref) (key value : Value) (w : World) :
    setProperty (.ref r) key value w =
      match w.store.keyText key, w.store[r]? with
      | .error e, _ => .error e w
      | .ok _, none => .ok () w
      | .ok name, some o =>
        match putProperty o key name value with
        | .error e => .error e w
        | .ok o' => .ok () { w with store := w.store.setIfInBounds r o' } := by
  have hthing : isNothing (.ref r) = false := rfl
  rw [setProperty, hthing, if_neg Bool.false_ne_true]
  dsimp only
  rw [read_bind_apply]
  cases w.store.keyText key with
  | error e => rfl
  | ok name =>
    dsimp only
    rw [get_bind_apply]
    cases w.store[r]? with
    | none => rfl
    | some o =>
      dsimp only
      rw [lift_bind_apply]
      cases putProperty o key name value <;> rfl

theorem setProperty_nothing {object : Value} (h : isNothing object = true) (key value : Value)
    (w : World) : ∃ e, setProperty object key value w = .error e w := by
  rw [setProperty, if_pos h, read_bind_apply]
  split
  · rw [read_bind_apply]
    split <;> exact ⟨_, rfl⟩
  · exact ⟨_, rfl⟩

/-- A write to a value that is no object changes nothing. -/
theorem setProperty_other {object : Value} (h : ∀ r, object ≠ .ref r) (key value : Value)
    (w : World) : (∃ e, setProperty object key value w = .error e w) ∨
      setProperty object key value w = .ok () w := by
  have hname {k : Text → Eval Unit} (hk : ∀ name, (∃ e, k name w = .error e w) ∨ k name w = .ok () w) :
      (∃ e, (read (·.keyText key) >>= k) w = .error e w) ∨
        (read (·.keyText key) >>= k) w = .ok () w := by
    rw [read_bind_apply]
    cases w.store.keyText key with
    | error e => exact .inl ⟨e, rfl⟩
    | ok name => exact hk name
  cases object with
  | ref r => exact absurd rfl (h r)
  | undefined | null =>
    exact .inl (setProperty_nothing rfl key value w)
  | type t =>
    refine hname fun name => ?_
    dsimp only
    split_ifs
    · exact .inl ⟨_, rfl⟩
    · exact .inl ⟨_, rfl⟩
  | bool b => exact hname fun _ => .inr rfl
  | num n => exact hname fun _ => .inr rfl
  | text t => exact hname fun _ => .inr rfl

/-- What stays when nothing is written. -/
theorem written_self {object key value : Value} {w : World} (h : ¬ w.store.Mutable object) :
    Written object key value w w where
  kept _ := rfl
  reads hmutable := absurd hmutable h
  frame _ _ := rfl
  names _ _ := rfl

theorem written_put {r : Ref} {key value : Value} {w : World} {o o' : Obj} {name : Text}
    (hkey : w.store.keyText key = .ok name) (hr : w.store[r]? = some o)
    (hput : Put key name value o o') :
    Written (.ref r) key value w { w with store := w.store.setIfInBounds r o' } where
  kept hmutable := by
    obtain ⟨items, rfl⟩ : ∃ items, o = .tuple items := by
      by_contra htuple
      exact hmutable ⟨o, hr, fun items hitems => htuple ⟨items, hitems⟩⟩
    cases hput with
    | tuple => rw [set_self hr]
    | own hown => cases hown
  reads hmutable := by
    obtain ⟨p, hp, htuple⟩ := hmutable
    obtain rfl : o = p := Option.some.inj (hr.symm.trans hp)
    have hkey' : Store.keyText (w.store.setIfInBounds r o') key = .ok name := by
      rw [keyText_put hr hput, hkey]
      rintro items rfl
      cases hput with
      | list hindex => exact not_holds_of_index hindex
      | own hown => cases hown
    refine getProperty_of_seen ?_
    rw [property_ref (getElem?_set_self hr) key hkey', hput.reads htuple hkey]
    rfl
  frame other hother := by
    cases hname : w.store.keyText other with
    | error e =>
      have hname' := hother.same.trans hname
      have hfault {s : Store} (h : s.keyText other = .error e) :
          s.property (.ref r) other = .error e := by
        rw [property, h]
        rfl
      rw [hfault hname, hfault hname']
    | ok name' =>
      rw [property_ref (getElem?_set_self hr) other (hother.same.trans hname),
        property_ref hr other hname]
      refine hput.frame (fun heq => hother.name ?_) fun items hitems => ?_
      · rw [hname, hkey, heq]
      · obtain ⟨hlength, hindex⟩ := hother.element items (hitems ▸ hr)
        exact ⟨fun heq => hlength (heq ▸ hname), hindex⟩
  names other hother := keyText_put hr hput fun items hitems =>
    hother r items rfl (hitems ▸ hr)

/-- A write that fails changes nothing, and one that goes through changes one property. -/
theorem setProperty_written (object key value : Value) (w : World) :
    match setProperty object key value w with
    | .error _ w' => w' = w
    | .ok _ w' => Written object key value w w' := by
  by_cases hobject : ∃ r, object = .ref r
  · obtain ⟨r, rfl⟩ := hobject
    rw [setProperty_ref]
    cases hkey : w.store.keyText key with
    | error e => rfl
    | ok name =>
      cases hr : w.store[r]? with
      | none =>
        refine written_self ?_
        rintro ⟨o, ho, -⟩
        exact nomatch hr.symm.trans ho
      | some o =>
        dsimp only
        cases hput : putProperty o key name value with
        | error e => rfl
        | ok o' => exact written_put hkey hr (put_of_putProperty hput)
  · have hmutable : ¬ w.store.Mutable object := by
      rintro ⟨o, ho, -⟩
      cases object with
      | ref r => exact hobject ⟨r, rfl⟩
      | _ => cases ho
    rcases setProperty_other (fun r hr => hobject ⟨r, hr⟩) key value w with ⟨e, h⟩ | h
    · rw [h]
    · rw [h]
      exact written_self hmutable

/-! ## A list that is its own key -/

/-- A list with the item `"map"` in a world of its own. -/
def named : World := { store := #[.list [.text "map"]] }

/-- Writing an item of a list changes the name that the list gives as a key, and with it what is
found under that key. -/
theorem setProperty_renames :
    named.store.keyText (.num (.int 0)) = .ok "0" ∧ named.store.keyText (.ref 0) = .ok "map" ∧
      index? (.num (.int 0)) = .ok (some 0) ∧ index? (.ref 0) = .ok none ∧
      named.store.property (.ref 0) (.ref 0) = .ok (.method .arrayMap) ∧
      ∃ w', setProperty (.ref 0) (.num (.int 0)) (.num (.int 1)) named = .ok () w' ∧
        w'.store.property (.ref 0) (.ref 0) = .ok .absent := by
  have hindex : index? (.num (.int 0)) = .ok (some 0) :=
    (index?_num_iff (n := .int 0) (x := Double.withSign false 0) rfl 0).2 rfl
  have hput : putProperty (.list [.text "map"]) (.num (.int 0)) "0" (.num (.int 1)) =
      .ok (.list [.num (.int 1)]) := by
    rw [putProperty, hindex]
    rfl
  refine ⟨rfl, rfl, hindex, rfl, rfl,
    { named with store := named.store.setIfInBounds 0 (.list [.num (.int 1)]) }, ?_, rfl⟩
  have hkey : named.store.keyText (.num (.int 0)) = .ok "0" := rfl
  have hobject : named.store[0]? = some (.list [.text "map"]) := rfl
  rw [setProperty_ref, hkey, hobject]
  dsimp only
  rw [hput]

end Eval

end GuardedText
