import GuardedText.Builtin.Host
import GuardedText.Value.Operator
import GuardedText.Proofs.Private.Agree
import GuardedText.Proofs.Value.Fuel

/-
  Conversions and operators on values that agree. They give the same truth values, texts and
  numbers, because none of them looks at the attributes of an object. A text is made with as much
  fuel as there are objects in the store, which are not as many in both stores; but more fuel than
  that changes nothing (`textWithin_fuel`).
-/

namespace GuardedText

/-! ## Values -/

variable {p : Pairing}

namespace Value.Agree

variable {v v' u u' : Value} (hv : Value.Agree p v v') (hu : Value.Agree p u u')
include hv

theorem isNothing_eq : Store.isNothing v = Store.isNothing v' := by
  cases hv <;> rfl

theorem truthy_eq : Store.truthy v = Store.truthy v' := by
  cases hv <;> rfl

theorem index?_eq : Store.index? v = Store.index? v' := by
  cases hv <;> rfl

include hu

/-- Objects are the same if their partners are. -/
theorem strictEquals_eq : Store.strictEquals v u = Store.strictEquals v' u' := by
  cases hv with
  | ref hr =>
    cases hu with
    | ref ht =>
      simp only [Store.strictEquals]
      exact Bool.eq_iff_iff.2 (by simpa using Relator.rel_eq p.unique hr ht)
    | _ => rfl
  | _ => cases hu <;> rfl

end Value.Agree

namespace Store.Agree

variable {s s' : Store} (hs : Store.Agree p s s')
include hs

/-- Objects exist on both sides or on none. -/
theorem object_cases {r r' : Ref} (h : p.pairs r r') :
    (s[r]? = none ∧ s'[r']? = none) ∨
      ∃ o o', s[r]? = some o ∧ s'[r']? = some o' ∧ Obj.Agree p o o' := by
  have hobject := hs.objects r r' h
  generalize s[r]? = o, s'[r']? = o' at hobject ⊢
  cases hobject with
  | none => exact .inl ⟨rfl, rfl⟩
  | some h => exact .inr ⟨_, _, rfl, rfl, h⟩

variable {v v' u u' : Value} (hv : Value.Agree p v v') (hu : Value.Agree p u u')

section

include hv

theorem get? : Option.Rel (Obj.Agree p) (s.get? v) (s'.get? v') := by
  cases hv with
  | ref hr => exact hs.objects _ _ hr
  | _ => exact .none

theorem items? : Option.Rel (Values.Agree p) (s.items? v) (s'.items? v') := by
  have h := hs.get? hv
  unfold Store.items?
  generalize s.get? v = o, s'.get? v' = o' at h ⊢
  cases h with
  | none => exact .none
  | some h =>
    cases h with
    | list h => exact .some h
    | tuple h => exact .some h
    | _ => exact .none

theorem entries? : Option.Rel (Table.Agree p) (s.entries? v) (s'.entries? v') := by
  have h := hs.get? hv
  unfold Store.entries?
  generalize s.get? v = o, s'.get? v' = o' at h ⊢
  cases h with
  | none => exact .none
  | some h =>
    cases h with
    | dict h => exact .some h
    | frozen h => exact .some h
    | _ => exact .none

theorem callable_eq : s.callable v = s'.callable v' := by
  cases hv with
  | @ref r r' hr =>
    have h := hs.objects r r' hr
    simp only [Store.callable]
    generalize s[r]? = o, s'[r']? = o' at h ⊢
    cases h with
    | none => rfl
    | some h => cases h <;> rfl
  | _ => rfl

/-! ## Conversions -/

theorem textWithin_eq (n : Nat) : s.textWithin n v = s'.textWithin n v' := by
  induction n generalizing v v' with
  | zero => cases hv <;> rfl
  | succ n ih =>
    cases hv with
    | @ref r r' hr =>
      have hitems := hs.items? (.ref hr)
      have hcallable := hs.callable_eq (.ref hr)
      rw [textWithin_ref, textWithin_ref, hcallable]
      generalize s.items? (.ref r) = items, s'.items? (.ref r') = items' at hitems ⊢
      cases hitems with
      | none => rfl
      | some hitems =>
        have htexts := hitems.mapM_eq
          (f := fun item => if isNothing item then pure [] else s.textWithin n item)
          (g := fun item => if isNothing item then pure [] else s'.textWithin n item)
          fun _ _ hitem => by rw [hitem.isNothing_eq, ih hitem]
        dsimp only
        rw [htexts]
    | _ => rfl

theorem toText_eq : s.toText v = s'.toText v' := by
  rw [← textWithin_fuel (Nat.le_max_left (s.size + 1) (s'.size + 1)),
    ← textWithin_fuel (Nat.le_max_right (s.size + 1) (s'.size + 1)), hs.textWithin_eq hv]

theorem keyText_eq : s.keyText v = s'.keyText v' := by
  have h := hs.toText_eq hv
  cases hv <;> exact h

theorem toNumber_eq : s.toNumber v = s'.toNumber v' := by
  cases hv with
  | ref hr =>
    rw [Store.toNumber, Store.toNumber, (hs.items? (.ref hr)).isSome_eq,
      (hs.entries? (.ref hr)).isSome_eq, hs.toText_eq (.ref hr)]
  | _ => rfl

theorem toInt32_eq : s.toInt32 v = s'.toInt32 v' := by
  rw [Store.toInt32, Store.toInt32, hs.toNumber_eq hv]

theorem toUInt32_eq : s.toUInt32 v = s'.toUInt32 v' := by
  rw [Store.toUInt32, Store.toUInt32, hs.toNumber_eq hv]

theorem toPrimitive_eq : s.toPrimitive v = s'.toPrimitive v' := by
  cases hv with
  | ref hr => rw [Store.toPrimitive, Store.toPrimitive, hs.toText_eq (.ref hr)]
  | _ => rfl

theorem typeName_eq : s.typeName v = s'.typeName v' := by
  cases hv with
  | ref hr => simp only [Store.typeName, hs.callable_eq (.ref hr)]
  | _ => rfl

theorem belongs_eq (t : HostType) : s.belongs v t = s'.belongs v' t := by
  cases hv with
  | @ref r r' hr =>
    have h := hs.get? (.ref hr)
    cases t with
    | list | mapping =>
      simp only [Store.belongs]
      generalize s.get? (.ref r) = o, s'.get? (.ref r') = o' at h ⊢
      cases h with
      | none => rfl
      | some h => cases h <;> rfl
    | _ => rfl
  | _ => cases t <;> rfl

theorem hostTruthy_eq : s.hostTruthy v = s'.hostTruthy v' := by
  cases hv with
  | @ref r r' hr =>
    have hitems := hs.items? (.ref hr)
    have hentries := hs.entries? (.ref hr)
    simp only [Store.hostTruthy]
    generalize s.items? (.ref r) = items, s'.items? (.ref r') = items' at hitems ⊢
    generalize s.entries? (.ref r) = entries, s'.entries? (.ref r') = entries' at hentries ⊢
    cases hitems with
    | none =>
      cases hentries with
      | none => rfl
      | some h => cases h <;> rfl
    | some h => cases h <;> rfl
  | _ => rfl

end

/-! ## Operators -/

include hv hu

theorem looseEquals_eq : s.looseEquals v u = s'.looseEquals v' u' := by
  rw [looseEquals_settle, looseEquals_settle, compareConverted, compareConverted,
    hv.isNothing_eq, hu.isNothing_eq, hs.typeName_eq hv, hs.typeName_eq hu, hv.strictEquals_eq hu,
    hs.toPrimitive_eq hv, hs.toPrimitive_eq hu]

omit hu in
/-- What is left of an object is a text. -/
theorem toPrimitive_agree :
    Except.Agree (fun a a' => Value.Agree p a a' ∧ a = a') (s.toPrimitive v)
      (s'.toPrimitive v') := by
  cases hv with
  | ref hr => exact .bind_eq (hs.toText_eq (.ref hr)) fun t => .ok ⟨.text t, rfl⟩
  | type t ht => exact .ok ⟨.text functionText, rfl⟩
  | undefined => exact .ok ⟨.undefined, rfl⟩
  | null => exact .ok ⟨.null, rfl⟩
  | bool b => exact .ok ⟨.bool b, rfl⟩
  | num n => exact .ok ⟨.num n, rfl⟩
  | text t => exact .ok ⟨.text t, rfl⟩

theorem plus_agree : Except.Agree (Value.Agree p) (s.plus v u) (s'.plus v' u') := by
  refine (hs.toPrimitive_agree hv).bind ?_
  rintro a _ ⟨ha, rfl⟩
  refine (hs.toPrimitive_agree hu).bind ?_
  rintro b _ ⟨hb, rfl⟩
  have htexts : Except.Agree (Value.Agree p)
      (do return .text ((← s.toText a) ++ (← s.toText b)))
      (do return .text ((← s'.toText a) ++ (← s'.toText b))) :=
    .bind_eq (hs.toText_eq ha) fun _ => .bind_eq (hs.toText_eq hb) fun _ => .ok (.text _)
  split
  · exact htexts
  · exact htexts
  · exact .bind_eq (hs.toNumber_eq ha) fun _ => .bind_eq (hs.toNumber_eq hb) fun _ =>
      .bind_eq rfl fun _ => .ok (.num _)

theorem ordered_eq (texts : Text → Text → Bool) (accepts : Ordering → Bool) :
    s.ordered texts accepts v u = s'.ordered texts accepts v' u' := by
  refine Except.Agree.eq ((hs.toPrimitive_agree hv).bind ?_)
  rintro a _ ⟨ha, rfl⟩
  refine (hs.toPrimitive_agree hu).bind ?_
  rintro b _ ⟨hb, rfl⟩
  refine .of_eq ?_
  rw [hs.toNumber_eq ha, hs.toNumber_eq hb]

theorem instanceOf_eq : s.instanceOf v u = s'.instanceOf v' u' := by
  have hcallable := hs.callable_eq hu
  cases hu with
  | type t => exact congrArg Except.ok (hs.belongs_eq hv t)
  | _ => simp only [Store.instanceOf, hcallable]

theorem bitwise_agree (op : Int → Int → Int) :
    Except.Agree (Value.Agree p) (s.bitwise op v u) (s'.bitwise op v' u') :=
  .bind_eq (hs.toInt32_eq hv) fun _ => .bind_eq (hs.toInt32_eq hu) fun _ => .ok (.num _)

omit hu in
theorem shiftCount_eq : s.shiftCount v = s'.shiftCount v' := by
  rw [Store.shiftCount, Store.shiftCount, hs.toUInt32_eq hv]

theorem arithmetic_agree (op : Num → Num → Except Fault Num) :
    Except.Agree (Value.Agree p) (s.arithmetic op v u) (s'.arithmetic op v' u') :=
  .bind_eq (hs.toNumber_eq hv) fun _ => .bind_eq (hs.toNumber_eq hu) fun _ =>
    .bind_eq rfl fun _ => .ok (.num _)

end Store.Agree

end GuardedText
