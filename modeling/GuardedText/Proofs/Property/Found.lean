import GuardedText.Proofs.Private.Step

/-
  What is found under a key. A guard cannot tell nothing from `undefined` (`Found.seen`). Objects
  differ in what they keep: arrays have items, mappings have entries under names and under numbers,
  host objects and functions have attributes.
-/

namespace GuardedText

namespace Store

/-! ## What a guard sees -/

/-- What a guard sees of what is found: nothing looks like `undefined`. -/
def Found.seen : Found → Found
  | .absent => .value .undefined
  | found => found

@[simp] theorem Found.seen_ofOption (v? : Option Value) :
    (Found.ofOption v?).seen = .value (v?.getD .undefined) := by
  cases v? <;> rfl

end Store

/-! ## Objects -/

/-- The items of an array. -/
def Obj.items? : Obj → Option (List Value)
  | .list items | .tuple items => some items
  | _ => none

/-- Whether an object is a function. -/
def Obj.isFunction : Obj → Bool
  | .arrow _ _ _ _ | .method _ _ _ | .builtin _ _ | .host _ _ => true
  | _ => false

theorem Store.items?_ref (s : Store) (r : Ref) :
    s.items? (.ref r) = (s[r]?).bind Obj.items? := by
  unfold Store.items? Store.get?
  dsimp only
  cases s[r]? with
  | none => rfl
  | some o => cases o <;> rfl

theorem Store.callable_ref (s : Store) (r : Ref) :
    s.callable (.ref r) = (s[r]?).any Obj.isFunction := by
  unfold Store.callable
  dsimp only
  cases s[r]? with
  | none => rfl
  | some o => cases o <;> rfl

/-- Whether a key is a number that is equal to another. -/
def Key.isNumber (n : Num) : Key → Bool
  | .number m => (Num.int m).equal n
  | .name _ => false

namespace Store

section

variable {o : Obj} {attributes : Attributes} (h : o.own? = some attributes)
include h

theorem attributes?_own : attributes? o = some attributes := by
  cases o <;> cases h <;> rfl

theorem objectProperty_own (key : Value) (name : Text) :
    objectProperty o key name = attributeProperty o name := by
  cases o <;> cases h <;> rfl

theorem conceals_setOwn (attributes' : Attributes) (name : Text) :
    (o.setOwn attributes').conceals name = o.conceals name := by
  cases o <;> cases h <;> rfl

end

/-- An attribute is found under its name, if that is not private. -/
theorem attributeProperty_of_lookup? {o : Obj} {name : Text} {v : Value}
    (hname : isPrivate name = false) (h : (attributes? o).bind (Table.lookup? name) = some v) :
    attributeProperty o name = .ok (.value v) := by
  rw [attributeProperty, hname, if_neg Bool.false_ne_true, h]

/-- Objects of one kind that have the same under a name give the same under it. -/
theorem attributeProperty_congr {o o' : Obj} {name : Text} (hkind : o'.conceals name = o.conceals name)
    (h : (attributes? o').bind (Table.lookup? name) = (attributes? o).bind (Table.lookup? name)) :
    attributeProperty o' name = attributeProperty o name := by
  rw [attributeProperty, attributeProperty, h, hkind]

/-! ## Entries -/

/-- The first entry of a mapping under a number. -/
def numbered? (n : Num) (entries : Entries) : Option Value :=
  (entries.find? fun entry => Key.isNumber n entry.1).map Prod.snd

theorem numbered?_cons (n : Num) (k : Key) (v : Value) (entries : Entries) :
    numbered? n ((k, v) :: entries) = if k.isNumber n then some v else numbered? n entries := by
  rw [numbered?, List.find?_cons]
  cases k.isNumber n <;> rfl

theorem entryProperty_eq (entries : Entries) (key : Value) (name : Text) :
    entryProperty entries key name =
      match Table.lookup? (.name name) entries with
      | some v => .value v
      | none =>
        match key with
        | .num n => .ofOption (numbered? n entries)
        | _ => .absent :=
  rfl

/-! ## Objects in a store -/

section

variable {s : Store} {r : Ref} {o o' : Obj} (hr : s[r]? = some o)
include hr

theorem getElem?_set_self : (s.setIfInBounds r o')[r]? = some o' := by
  obtain ⟨hlt, -⟩ := Array.getElem?_eq_some_iff.1 hr
  rw [Array.getElem?_setIfInBounds_self, if_pos hlt]

theorem set_self : s.setIfInBounds r o = s := by
  obtain ⟨hlt, rfl⟩ := Array.getElem?_eq_some_iff.1 hr
  rw [Array.setIfInBounds, dif_pos hlt, Array.set_getElem_self]

theorem property_ref (key : Value) {name : Text} (hkey : s.keyText key = .ok name) :
    s.property (.ref r) key = objectProperty o key name := by
  rw [property, hkey]
  change (s[r]?).elim (.ok .absent) (objectProperty · key name) = _
  rw [hr]
  rfl

end

end Store

namespace Eval

open Store

theorem read_bind_apply {α β : Type} (f : Store → Except Fault α) (k : α → Eval β) (w : World) :
    (read f >>= k) w =
      match f w.store with
      | .ok a => k a w
      | .error e => .error e w := by
  change EStateM.bind (read f) k w = _
  rw [EStateM.bind, read_apply]
  cases f w.store <;> rfl

theorem get_bind_apply {β : Type} (k : World → Eval β) (w : World) : (get >>= k) w = k w w :=
  rfl

theorem lift_bind_apply {α β : Type} (x : Except Fault α) (k : α → Eval β) (w : World) :
    (lift x >>= k) w =
      match x with
      | .ok a => k a w
      | .error e => .error e w :=
  read_bind_apply (fun _ => x) k w

/-- What a guard gets is what it sees. -/
theorem getProperty_of_seen {object key v : Value} {w : World}
    (h : (w.store.property object key).map Found.seen = .ok (.value v)) :
    getProperty object key w = .ok v w := by
  obtain ⟨found, hfound, hseen⟩ := Except.map_eq_ok.1 h
  rw [getProperty, read_bind_apply, hfound]
  cases found <;> cases hseen <;> rfl

end Eval

end GuardedText
