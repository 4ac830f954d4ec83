import GuardedText.Proofs.Property.Element
import GuardedText.Proofs.Property.Name
import GuardedText.Proofs.Table
import GuardedText.Proofs.Eval.Visit

/-
  Removals of properties. The own entries of an object have labels, and a key denotes one of them
  (`Obj.label?`). Removing what a plain access denotes takes elements out of lists and entries with a
  name out of mappings, and leaves the other entries as they are; entries under numbers and
  attributes stay (`evaluate_delete_entry`). An optional access is no place: `delete` evaluates it
  and removes nothing (`delete_optional`).
-/

namespace GuardedText

/-! ## Own entries -/

/-- The own entry of an object under a label: an item of an array by its index, an entry of a mapping
by its key, an attribute by its name. -/
def Obj.entry? (label : Key) : Obj → Option Value
  | .list items | .tuple items =>
    match label with
    | .number (.ofNat i) => items[i]?
    | _ => none
  | .dict entries | .frozen entries => Table.lookup? label entries
  | o =>
    match label with
    | .name name => (Store.attributes? o).bind (Table.lookup? name)
    | .number _ => none

/-- The label of the own entry that a key with a name denotes. -/
def Obj.label? (key : Value) (name : Text) : Obj → Option Key
  | .list items | .tuple items =>
    match Store.index? key with
    | .ok (some i) => if i < items.length then some (.number i) else none
    | _ => none
  | .dict entries | .frozen entries =>
    if (Table.lookup? (.name name) entries).isSome then some (.name name)
    else
      match key with
      | .num n => (entries.find? fun entry => Key.isNumber n entry.1).map Prod.fst
      | _ => none
  | o =>
    if Store.isPrivate name then none
    else ((Store.attributes? o).bind (Table.lookup? name)).map fun _ => .name name

/-- A mapping holds each key once. -/
def Obj.IsTidy : Obj → Prop
  | .dict entries => (Table.keys entries).Nodup
  | _ => True

/-- Whether a removal takes away the own entry that a key denotes: an element of a list, or an entry
of a mapping with a name, behind which no entry under a number comes to light. -/
def Obj.Removes (key : Value) (label : Key) : Obj → Prop
  | .list _ => True
  | .dict entries => (∃ name, label = .name name) ∧
      ∀ n, key = .num n → Store.numbered? n entries = none
  | _ => False

/-- Whether a removal leaves the own entry that a key denotes and says that it is gone: an entry of a
mapping under a number, or an attribute. -/
def Obj.Ignores (label : Key) : Obj → Prop
  | .list _ | .tuple _ | .frozen _ => False
  | .dict _ => ∃ n, label = .number n
  | _ => True

namespace Store

variable {s : Store} {o o' : Obj} {key : Value} {name : Text} {label : Key}

/-- The key of an own entry of an array denotes its index. -/
theorem index?_of_label {items : List Value} (h : o.label? key name = some label)
    (ho : o.items? = some items) :
    ∃ i : Nat, label = .number i ∧ index? key = .ok (some i) ∧ i < items.length := by
  obtain rfl | rfl : o = .list items ∨ o = .tuple items := by
    cases o <;> cases ho
    · exact .inl rfl
    · exact .inr rfl
  all_goals
    simp only [Obj.label?] at h
    split at h
    · split_ifs at h with hlt
      exact ⟨_, (Option.some.inj h).symm, ‹_›, hlt⟩
    · cases h

/-- The key of an own entry of a mapping gives its name, or a number equal to its key. -/
theorem entry_of_label {entries : Entries} (h : (Obj.dict entries).label? key name = some label) :
    (label = .name name ∧ ∃ v, Table.lookup? (.name name) entries = some v) ∨
      (Table.lookup? (.name name) entries = none ∧ ∃ n m, key = .num n ∧ label = .number m ∧
        (entries.find? fun entry => Key.isNumber n entry.1).map Prod.fst = some label) := by
  simp only [Obj.label?] at h
  cases hname : Table.lookup? (.name name) entries with
  | some v =>
    rw [hname] at h
    exact .inl ⟨(Option.some.inj h).symm, v, rfl⟩
  | none =>
    rw [hname] at h
    cases key with
    | num n =>
      change (entries.find? fun entry => Key.isNumber n entry.1).map Prod.fst = some label at h
      obtain ⟨entry, hfind, rfl⟩ := Option.map_eq_some_iff.1 h
      cases hk : entry.1 with
      | name t =>
        have := List.find?_some hfind
        rw [hk] at this
        cases this
      | number m => exact .inr ⟨rfl, n, m, rfl, rfl, hk ▸ h⟩
    | _ => cases h

theorem numbered?_erase (n : Num) (entries : Entries) (name : Text) :
    numbered? n (Table.erase (.name name) entries) = numbered? n entries := by
  induction entries with
  | nil => rfl
  | cons entry rest ih =>
    obtain ⟨k, u⟩ := entry
    rw [Table.erase]
    split_ifs with hk
    · obtain rfl := beq_iff_eq.1 hk
      rfl
    · rw [numbered?_cons, numbered?_cons, ih]

/-- A removal takes the entry away that it is said to take away, and no other. -/
theorem dropProperty_removes (htidy : o.IsTidy) (hkey : s.keyText key = .ok name)
    (hlabel : o.label? key name = some label) (hremoves : o.Removes key label) {gone : Bool}
    (h : dropProperty o key name = .ok (o', gone)) :
    (objectProperty o' key name).map Found.seen = .ok (.value .undefined) ∧
      ∀ other ≠ label, o'.entry? other = o.entry? other := by
  cases o with
  | list items =>
    obtain ⟨i, rfl, hindex, hlt⟩ := index?_of_label hlabel rfl
    rw [dropProperty, hindex] at h
    obtain ⟨rfl, -⟩ := Prod.mk.inj (Except.ok.inj h)
    refine ⟨?_, fun other hother => ?_⟩
    · rw [objectProperty, sequenceProperty, if_neg (ne_length_of_index hindex hkey), hindex]
      change Except.ok (Found.ofOption (items.set i .undefined)[i]?).seen = _
      rw [List.getElem?_set_self hlt]
      rfl
    · cases other with
      | name => rfl
      | number z =>
        cases z with
        | ofNat j =>
          have hne : i ≠ j := by
            rintro rfl
            exact hother rfl
          exact List.getElem?_set_ne hne
        | negSucc j => rfl
  | dict entries =>
    obtain ⟨rfl, -⟩ := Prod.mk.inj (Except.ok.inj h)
    obtain ⟨⟨t, rfl⟩, hnumber⟩ := hremoves
    obtain ⟨hname, -⟩ | ⟨-, n, m, -, hnumeral, -⟩ := entry_of_label hlabel
    · obtain rfl := Key.name.inj hname
      refine ⟨?_, fun other hother => Table.lookup?_erase_of_ne entries hother⟩
      rw [objectProperty, entryProperty_eq, Table.lookup?_erase_self htidy]
      cases key with
      | num n =>
        simp only [numbered?_erase, hnumber n rfl]
        rfl
      | _ => rfl
    · cases hnumeral
  | _ => exact hremoves.elim

theorem dropProperty_ignores (hlabel : o.label? key name = some label) (hkeeps : o.Ignores label)
    {gone : Bool} (h : dropProperty o key name = .ok (o', gone)) : o' = o := by
  cases o with
  | list | tuple | frozen => exact hkeeps.elim
  | dict entries =>
    obtain ⟨rfl, -⟩ := Prod.mk.inj (Except.ok.inj h)
    obtain ⟨k, rfl⟩ := hkeeps
    obtain ⟨hname, -⟩ | ⟨hnone, -⟩ := entry_of_label hlabel
    · cases hname
    · rw [Table.erase_of_not_mem (Table.lookup?_eq_none.1 hnone)]
  | _ => exact (Prod.mk.inj (Except.ok.inj h)).1.symm

/-- A removal leaves functions functions. -/
theorem isFunction_dropProperty {gone : Bool} (h : dropProperty o key name = .ok (o', gone)) :
    o'.isFunction = o.isFunction := by
  cases drop_of_dropProperty h <;> rfl

theorem items?_dropProperty {gone : Bool} (ho : ∀ items, o ≠ .list items)
    (h : dropProperty o key name = .ok (o', gone)) : o'.items? = o.items? := by
  cases drop_of_dropProperty h with
  | item | noItem => exact absurd rfl (ho _)
  | entry | other => rfl

end Store

/-! ## Removals from the world -/

/-- A plain access comes to an object and a key: its parts have these values, in a world that they
leave. -/
def Place.Reaches (call : Eval.Caller) (waiting : Waiting) (frame : Ref) (object key : Value)
    (w w' : World) : Place → Prop
  | .name _ => False
  | .member e n => Eval.evaluate call waiting frame e w = .ok object w' ∧ key = .text n
  | .index e k => ∃ u, Eval.evaluate call waiting frame e w = .ok object u ∧
      Eval.evaluate call waiting frame k u = .ok key w'

namespace Eval

open Store

variable {call : Caller} {waiting : Waiting} {frame : Ref} {place : Place} {object key : Value}
  {w u w' : World}

theorem deleteProperty_ref {r : Ref} {o : Obj} {name : Text} (hr : w.store[r]? = some o)
    (hkey : w.store.keyText key = .ok name) : deleteProperty (.ref r) key w =
      match dropProperty o key name with
      | .error e => .error e w
      | .ok (o', gone) => .ok gone { w with store := w.store.setIfInBounds r o' } := by
  have hthing : isNothing (.ref r) = false := rfl
  rw [deleteProperty, hthing, if_neg Bool.false_ne_true]
  dsimp only
  rw [read_bind_apply, hkey]
  dsimp only
  rw [get_bind_apply, hr]
  dsimp only
  rw [lift_bind_apply]
  cases dropProperty o key name <;> rfl

/-- Removing what a plain access denotes removes the property of the object under the key. -/
theorem evaluate_delete_of_reaches (h : place.Reaches call waiting frame object key w u) :
    evaluate call waiting frame (.delete place) w =
      (deleteProperty object key >>= fun gone => return .bool gone) u := by
  cases place with
  | name => exact h.elim
  | member e n =>
    obtain ⟨he, rfl⟩ := h
    rw [evaluate]
    change EStateM.bind (evaluate call waiting frame e) _ w = _
    rw [EStateM.bind, he]
  | index e k =>
    obtain ⟨v, he, hk⟩ := h
    rw [evaluate]
    change EStateM.bind (evaluate call waiting frame e) _ w = _
    rw [EStateM.bind, he]
    change EStateM.bind (evaluate call waiting frame k) _ v = _
    rw [EStateM.bind, hk]

/-- Deleting an own entry of an object by a plain access. -/
theorem evaluate_delete_entry {r : Ref} {o : Obj} {name : Text} {label : Key}
    (hplace : place.Reaches call waiting frame (.ref r) key w u) (hr : u.store[r]? = some o)
    (htidy : o.IsTidy) (hkey : u.store.keyText key = .ok name)
    (hlabel : o.label? key name = some label)
    (hdelete : evaluate call waiting frame (.delete place) w = .ok (.bool true) w') :
    (o.Removes key label → getProperty (.ref r) key w' = .ok .undefined w' ∧
      ∃ o', w'.store[r]? = some o' ∧ ∀ other ≠ label, o'.entry? other = o.entry? other) ∧
    (o.Ignores label → w' = u) := by
  rw [evaluate_delete_of_reaches hplace] at hdelete
  change EStateM.bind (deleteProperty (.ref r) key) _ u = _ at hdelete
  rw [EStateM.bind, deleteProperty_ref hr hkey] at hdelete
  cases hdrop : dropProperty o key name with
  | error e =>
    rw [hdrop] at hdelete
    cases hdelete
  | ok left =>
    obtain ⟨o', gone⟩ := left
    rw [hdrop] at hdelete
    obtain ⟨hgone, rfl⟩ := EStateM.Result.ok.inj hdelete
    refine ⟨fun hremoves => ?_, fun hignores => ?_⟩
    · obtain ⟨hseen, hothers⟩ := dropProperty_removes htidy hkey hlabel hremoves hdrop
      have hkey' : Store.keyText (u.store.setIfInBounds r o') key = .ok name := by
        rw [keyText_set hr (isFunction_dropProperty hdrop) fun hitems => ?_, hkey]
        by_cases hlist : ∃ items, o = .list items
        · obtain ⟨items, rfl⟩ := hlist
          obtain ⟨i, -, hindex, -⟩ := index?_of_label hlabel rfl
          exact not_holds_of_index hindex
        · exact absurd (items?_dropProperty (fun items h => hlist ⟨items, h⟩) hdrop) hitems
      refine ⟨getProperty_of_seen ?_, o', getElem?_set_self hr, hothers⟩
      rw [property_ref (getElem?_set_self hr) key hkey', hseen]
    · rw [dropProperty_ignores hlabel hignores hdrop, set_self hr]

/-- The mapping `{a: 1, b: 2}`. -/
def twoEntries : Obj := .dict [(.name "a", .num (.int 1)), (.name "b", .num (.int 2))]

/-- The access `{a: 1, b: 2}.a`. -/
def spelled : Place :=
  .member (.object [.named "a" (.literal (.number (.int 1))),
    .named "b" (.literal (.number (.int 2)))]) "a"

theorem evaluate_delete_entry_spelled : ∃ (call : Caller) (u w' : World),
    spelled.Reaches call .forbidden 0 (.ref 0) (.text "a") {} u ∧
      u.store[0]? = some twoEntries ∧ twoEntries.IsTidy ∧
      u.store.keyText (.text "a") = .ok "a" ∧
      twoEntries.label? (.text "a") "a" = some (.name "a") ∧
      evaluate call .forbidden 0 (.delete spelled) {} = .ok (.bool true) w' ∧
      twoEntries.Removes (.text "a") (.name "a") ∧
      getProperty (.ref 0) (.text "a") w' = .ok .undefined w' ∧
      ∃ o', w'.store[0]? = some o' ∧
        ∀ other ≠ Key.name "a", o'.entry? other = twoEntries.entry? other := by
  let call : Caller := fun _ _ => throw .badCall
  have hplace : spelled.Reaches call .forbidden 0 (.ref 0) (.text "a") {}
      { store := #[twoEntries] } := ⟨rfl, rfl⟩
  have htidy : twoEntries.IsTidy := by
    simp only [twoEntries, Obj.IsTidy, Table.keys]
    decide
  have hremoves : twoEntries.Removes (.text "a") (.name "a") := ⟨⟨"a", rfl⟩, fun n hn => by cases hn⟩
  have hdelete : evaluate call .forbidden 0 (.delete spelled) {} = .ok (.bool true)
      { store := #[.dict [(.name "b", .num (.int 2))]] } := rfl
  exact ⟨call, _, _, hplace, rfl, htidy, rfl, rfl, hdelete, hremoves,
    (evaluate_delete_entry hplace rfl htidy rfl rfl hdelete).1 hremoves⟩

/-- An optional access of an entry is no place, so deleting it deletes nothing. -/
theorem delete_optional : ∃ g root u v, Guard.compile "a = {k: 1}, delete a?.k, a.k" = .ok g ∧
    g.alone = some (root, u, .num (.int 1), v) :=
  alone_of_isInteger (by decide +kernel)

end Eval

end GuardedText
