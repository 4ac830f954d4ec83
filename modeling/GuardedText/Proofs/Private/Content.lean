import GuardedText.Builtin.Call
import GuardedText.Proofs.Private.Property

/-
  What operators and built-in functions read off stores that agree. None of them enumerates private
  attributes: the entries of an object are its other ones, and host objects have no JSON.
-/

namespace GuardedText

variable {p : Pairing}

namespace Store

section

variable {s s' : Store} (hs : Store.Agree p s s') {v v' u u' : Value}
  (hv : Value.Agree p v v') (hu : Value.Agree p u u')
include hs

/-! ## Operators -/

section

include hv hu

theorem binary_agree (op : BinaryOp) :
    Except.Agree (Value.Agree p) (s.binary op v u) (s'.binary op v' u') := by
  have hcompare {x y : Except Fault Bool} (h : x = y) :
      Except.Agree (Value.Agree p) (do return .bool (← x)) (do return .bool (← y)) :=
    .bind_eq h fun b => .ok (.bool b)
  cases op with
  | add => exact hs.plus_agree hv hu
  | strictEq | strictNe =>
    simp only [binary, hv.strictEquals_eq hu]
    exact .ok (.bool _)
  | looseEq => exact hcompare (hs.looseEquals_eq hv hu)
  | looseNe => exact .bind_eq (hs.looseEquals_eq hv hu) fun b => .ok (.bool _)
  | less | greater | lessEq | greaterEq => exact hcompare (hs.ordered_eq hv hu _ _)
  | instanceOf => exact hcompare (hs.instanceOf_eq hv hu)
  | within => exact hcompare (hasProperty_eq hs hu hv)
  | bitAnd | bitOr | bitXor => exact hs.bitwise_agree hv hu _
  | shiftLeft | shiftRight =>
    exact .bind_eq (hs.toInt32_eq hv) fun m => .bind_eq (hs.shiftCount_eq hu) fun n => .ok (.num _)
  | shiftRightZero =>
    exact .bind_eq (hs.toUInt32_eq hv) fun m => .bind_eq (hs.shiftCount_eq hu) fun n => .ok (.num _)
  | sub | mul | div | rem | pow => exact hs.arithmetic_agree hv hu _

end

section

include hv

theorem unary_agree (op : UnaryOp) :
    Except.Agree (Value.Agree p) (s.unary op v) (s'.unary op v') := by
  cases op with
  | not => exact .bind_eq hv.truthy_eq fun b => .ok (.bool _)
  | minus => exact .bind_eq (hs.toNumber_eq hv) fun n => .ok (.num _)
  | plus => exact .bind_eq (hs.toNumber_eq hv) fun n => .ok (.num _)
  | bitNot => exact .bind_eq (hs.toInt32_eq hv) fun n => .ok (.num _)
  | typeof =>
    simp only [unary, hs.typeName_eq hv]
    exact .ok (.text _)
  | void => exact .ok .undefined

/-! ## Entries -/

omit hs hv in
theorem indexed_agree {vs vs' : List Value} (h : Values.Agree p vs vs') :
    Table.Agree p (indexed vs) (indexed vs') :=
  (h.zipIdx 0).map fun _ _ hab => ⟨congrArg Text.ofNat hab.2, hab.1⟩

omit hs hv in
theorem characters_agree (t : Text) : Values.Agree p (characters t) (characters t) := by
  unfold characters
  induction t with
  | nil => exact .nil
  | cons c t ih => exact .cons (.text _) ih

omit hs hv in
theorem namedEntries_agree {entries entries' : Entries} (h : Table.Agree p entries entries') :
    Except.Agree (Table.Agree p) (namedEntries entries) (namedEntries entries') := by
  refine List.Forall₂.mapM_agree h ?_
  rintro ⟨k, v⟩ ⟨_, v'⟩ ⟨rfl, hv⟩
  exact .bind_eq rfl fun name => .ok ⟨rfl, hv⟩

omit hs hv in
/-- The attributes that are listed are not private. -/
theorem listedAttributes_agree {o o' : Obj} (h : Obj.Agree p o o') :
    Except.Agree (Table.Agree p) (listedAttributes o) (listedAttributes o') := by
  have hshown := (attributes?_agree h).getD (c := []) (d := []) .nil
  cases h with
  | arrow _ _ _ h =>
    have hnode := (h.lookup? (Text.ofString "node")).isSome_eq
    simp only [listedAttributes, hnode]
    split
    · exact .ok h.shown
    · exact .error _
  | node | expression => exact .error _
  | slots => exact .ok .nil
  | _ => exact .ok hshown

/-- The entries of an object are those that are not private. -/
theorem objectEntries_agree :
    Except.Agree (Table.Agree p) (s.objectEntries v) (s'.objectEntries v') := by
  cases hv with
  | @ref r r' hr =>
    have h := hs.objects r r' hr
    simp only [objectEntries]
    generalize s[r]? = o, s'[r']? = o' at h ⊢
    cases h with
    | none => exact .ok .nil
    | @some o o' h =>
      have hlisted := listedAttributes_agree h
      cases h with
      | dict h => exact namedEntries_agree h
      | frozen h => exact namedEntries_agree h
      | list h => exact .ok (indexed_agree h)
      | tuple h => exact .ok (indexed_agree h)
      | _ => exact hlisted
  | text t => exact .ok (indexed_agree (characters_agree t))
  | undefined => exact .error _
  | null => exact .error _
  | type t =>
    simp only [objectEntries]
    split
    · exact .ok .nil
    · exact .error _
  | _ => exact .ok .nil

/-! ## Arguments -/

theorem position_eq (length missing : Nat) :
    s.position v length missing = s'.position v' length missing := by
  have hnumber := hs.toNumber_eq hv
  unfold position
  cases hv with
  | undefined => rfl
  | _ => dsimp only; rw [hnumber]

theorem toFixed_eq (n : Num) : s.toFixed n v = s'.toFixed n v' := by
  rw [toFixed, toFixed, hs.toNumber_eq hv]

theorem parseFloat_eq : s.parseFloat v = s'.parseFloat v' := by
  rw [parseFloat, parseFloat, hs.toText_eq hv]

include hu

theorem bounds_eq (length : Nat) : s.bounds length v u = s'.bounds length v' u' := by
  rw [bounds, bounds, position_eq hs hv, position_eq hs hu]

theorem split_eq (t : Text) : s.split t v u = s'.split t v' u' := by
  have htext := hs.toText_eq hv
  have hlimit := hs.toUInt32_eq hu
  unfold split
  cases hv with
  | undefined =>
    cases hu with
    | undefined => rfl
    | _ => dsimp only; rw [hlimit]
  | _ =>
    dsimp only
    rw [htext]
    cases hu with
    | undefined => rfl
    | _ => dsimp only; rw [hlimit]

theorem parseInt_eq : s.parseInt v u = s'.parseInt v' u' := by
  have hbase := hs.toInt32_eq hu
  unfold parseInt
  rw [hs.toText_eq hv]
  cases hu with
  | undefined => rfl
  | _ => dsimp only; rw [hbase]

end

end

/-! ## JSON -/

section

variable {s s' : Store} (hs : Store.Agree p s s') {v v' : Value} (hv : Value.Agree p v v')
include hs hv

theorem jsonWithin_eq (n : Nat) : s.jsonWithin n v = s'.jsonWithin n v' := by
  induction n generalizing v v' with
  | zero => cases hv <;> rfl
  | succ n ih =>
    cases hv with
    | @ref r r' hr =>
      have h := hs.objects r r' hr
      have hcallable := hs.callable_eq (.ref hr)
      rw [jsonWithin, jsonWithin, hcallable]
      generalize s[r]? = o, s'[r']? = o' at h ⊢
      cases h with
      | none => rfl
      | some h =>
        cases h with
        | list h => exact (Except.Agree.bind_eq (h.mapM_eq fun _ _ => ih) fun _ => .ok rfl).eq
        | tuple h => exact (Except.Agree.bind_eq (h.mapM_eq fun _ _ => ih) fun _ => .ok rfl).eq
        | dict h | frozen h =>
          refine Except.Agree.eq (.bind_eq
            (List.Forall₂.mapM_eq (List.Forall₂.filter h ?_) ?_) fun _ => .ok rfl)
          · rintro ⟨k, v⟩ ⟨_, v'⟩ ⟨rfl, hv⟩
            dsimp only at hv ⊢
            cases hv <;> rfl
          · rintro ⟨k, v⟩ ⟨_, v'⟩ ⟨rfl, hv⟩
            dsimp only at hv ⊢
            rw [ih hv]
        | _ => rfl
    | _ => rfl

theorem stringify_agree : Except.Agree (Value.Agree p) (s.stringify v) (s'.stringify v') := by
  have hcallable := hs.callable_eq hv
  have hjson : s.jsonWithin (s.size + 1) v = s'.jsonWithin (s'.size + 1) v' := by
    rw [← jsonWithin_fuel (Nat.le_max_left (s.size + 1) (s'.size + 1)),
      ← jsonWithin_fuel (Nat.le_max_right (s.size + 1) (s'.size + 1)), jsonWithin_eq hs hv]
  unfold stringify
  cases hv with
  | undefined => exact .ok .undefined
  | _ =>
    dsimp only
    rw [hcallable]
    split
    · exact .ok .undefined
    · exact .bind_eq hjson fun _ => .ok (.text _)

/-! ## What the host takes -/

omit hs in
theorem hostInteger?_eq : hostInteger? v = hostInteger? v' := by
  cases hv <;> rfl

theorem hostItems_agree :
    Except.Agree (Values.Agree p) (s.hostItems v) (s'.hostItems v') := by
  have hitems := hs.items? hv
  have hentries := hs.entries? hv
  unfold hostItems
  cases hv with
  | text t => exact .ok (characters_agree t)
  | @ref r r' hr =>
    generalize s.items? (.ref r) = items, s'.items? (.ref r') = items' at hitems ⊢
    generalize s.entries? (.ref r) = entries, s'.entries? (.ref r') = entries' at hentries ⊢
    cases hitems with
    | some h => exact .ok h
    | none =>
      cases hentries with
      | some h =>
        refine .ok (List.Forall₂.map h ?_)
        rintro ⟨k, v⟩ ⟨_, v'⟩ ⟨rfl, -⟩
        cases k with
        | name n => exact .text n
        | number n => exact .num (.int n)
      | none => exact .error _
  | _ => exact .error _

theorem hostKey_eq : s.hostKey v = s'.hostKey v' := by
  have hobject := hs.get? hv
  unfold hostKey
  cases hv with
  | ref =>
    dsimp only
    generalize s.get? _ = o, s'.get? _ = o' at hobject ⊢
    cases hobject with
    | none => rfl
    | some h => cases h <;> rfl
  | num n => cases n <;> rfl
  | _ => rfl

theorem hostPair_agree :
    Except.Agree (Entry.Agree p) (s.hostPair v) (s'.hostPair v') := by
  refine (hostItems_agree hs hv).bind fun items items' h => ?_
  cases h with
  | nil => exact .error _
  | cons hk h =>
    cases h with
    | nil => exact .error _
    | cons hv h =>
      cases h with
      | nil => exact .bind_eq (hostKey_eq hs hk) fun _ => .ok ⟨rfl, hv⟩
      | cons => exact .error _

theorem offersKeys_eq : s.offersKeys v = s'.offersKeys v' := by
  have hobject := hs.get? hv
  unfold offersKeys
  generalize s.get? v = o, s'.get? v' = o' at hobject ⊢
  cases hobject with
  | none => rfl
  | some h => exact (attribute_agree h rfl).isSome_eq

end

end Store

namespace Eval

/-! ## Arrays -/

/-- Not-a-number is found on both sides. -/
theorem holds_eq {items items' : List Value} (h : Values.Agree p items items') {v v' : Value}
    (hv : Value.Agree p v v') : holds items v = holds items' v' := by
  unfold holds
  rw [h.any_eq fun _ _ hitem => hitem.strictEquals_eq hv, h.forIn_eq]
  · cases hv <;> rfl
  · intro a b _ hab
    cases hab <;> rfl

end Eval

end GuardedText
