import GuardedText.Proofs.Private.Convert
import GuardedText.Proofs.Property.Change

/-
  Properties of objects that agree. What is found under a key agrees, because private attributes are
  absent on both sides; an object that a property is put into or removed from agrees with its
  partner again and keeps its private attributes.
-/

namespace GuardedText

/-- What is found on both sides agrees. -/
inductive Store.Found.Agree (p : Pairing) : Store.Found → Store.Found → Prop where
  | absent : Agree p .absent .absent
  | value {v v' : Value} : Value.Agree p v v' → Agree p (.value v) (.value v')
  | method (m : Method) : Agree p (.method m) (.method m)

/-- An object gives way to one with the same private attributes, and its frames stay as old. -/
structure Obj.Keeps (o q : Obj) : Prop where
  /-- The private attributes stay. -/
  privates : q.privates = o.privates
  /-- The frames stay older than the object. -/
  rooted : ∀ r, o.Rooted r → q.Rooted r

theorem Obj.Keeps.refl (o : Obj) : o.Keeps o := ⟨rfl, fun _ h => h⟩

/-- Objects that hold values only keep the little that there is to keep. -/
theorem Obj.keeps_of_plain {o q : Obj} (ho : o.privates = none) (hq : q.privates = none)
    (h : ∀ r, q.Rooted r) : o.Keeps q :=
  ⟨hq.trans ho.symm, fun r _ => h r⟩

variable {p : Pairing}

namespace Store

theorem Found.Agree.ofOption {v? v'? : Option Value} (h : Option.Rel (Value.Agree p) v? v'?) :
    Found.Agree p (.ofOption v?) (.ofOption v'?) := by
  cases h with
  | none => exact .absent
  | some h => exact .value h

theorem Found.Agree.elim_method (m? : Option Method) :
    Found.Agree p (m?.elim .absent .method) (m?.elim .absent .method) := by
  cases m? with
  | none => exact .absent
  | some m => exact .method m

/-! ## Reading -/

section

variable {key key' : Value} (hkey : Value.Agree p key key')
include hkey

theorem sequenceProperty_agree {length length' : Nat} {element? element'? : Nat → Option Value}
    (hlength : length = length')
    (helement : ∀ i, Option.Rel (Value.Agree p) (element? i) (element'? i))
    (methods : List (String × Method)) (name : Text) :
    Except.Agree (Found.Agree p) (sequenceProperty length element? methods key name)
      (sequenceProperty length' element'? methods key' name) := by
  subst hlength
  unfold sequenceProperty
  split
  · exact .ok (.value (.num _))
  · refine .bind_eq hkey.index?_eq fun index => ?_
    cases index with
    | some i => exact .ok (.ofOption (helement i))
    | none => exact .ok (.elim_method _)

theorem entryProperty_agree {entries entries' : Entries} (h : Table.Agree p entries entries')
    (name : Text) :
    Found.Agree p (entryProperty entries key name) (entryProperty entries' key' name) := by
  have hname := h.lookup? (Key.name name)
  unfold entryProperty
  generalize Table.lookup? (Key.name name) entries = v?,
    Table.lookup? (Key.name name) entries' = v'? at hname ⊢
  cases hname with
  | some h => exact .value h
  | none =>
    cases hkey with
    | num n =>
      refine .ofOption (Option.Rel.map (List.Forall₂.find? h ?_) fun _ _ he => he.2)
      rintro ⟨k, v⟩ ⟨_, v'⟩ ⟨rfl, -⟩
      rfl
    | _ => exact .absent

end

/-- The attributes by which a guard knows an object agree. -/
theorem attributes?_agree {o o' : Obj} (h : Obj.Agree p o o') :
    Option.Rel (Table.Agree p) ((attributes? o).map Attributes.shown)
      ((attributes? o').map Attributes.shown) := by
  cases h with
  | record h _ => exact .some h
  | arrow _ _ _ h => exact .some h.shown
  | method _ _ h => exact .some h.shown
  | builtin _ h => exact .some h.shown
  | host _ h => exact .some h.shown
  | slots ha hb => exact .some (Table.Agree.slots ha hb).shown
  | @frame _ _ _ _ parent parent' hlocals hparent hglobals =>
    have houter : Value.Agree p (parent.elim .null .ref) (parent'.elim .null .ref) := by
      cases hparent with
      | none => exact .null
      | some h => exact .ref h
    exact .some (Table.Agree.shown (.cons ⟨rfl, .ref hlocals⟩ (.cons ⟨rfl, houter⟩
      (.cons ⟨rfl, .ref hglobals⟩ .nil))))
  | node hbody hput =>
    refine .some (Table.Agree.shown (.cons ⟨rfl, ?_⟩ .nil))
    cases hput with
    | none => exact hbody
    | some hput => exact hput
  | expression _ hinner =>
    refine .some (Table.Agree.shown ?_)
    cases hinner with
    | none => exact .nil
    | some hinner => exact .cons ⟨rfl, hinner⟩ .nil
  | _ => exact .none

/-- A private name is found nowhere, and another one among the attributes that agree. -/
theorem attribute_agree {o o' : Obj} (h : Obj.Agree p o o') {name : Text}
    (hname : isPrivate name = false) :
    Option.Rel (Value.Agree p) ((attributes? o).bind (Table.lookup? name))
      ((attributes? o').bind (Table.lookup? name)) := by
  have hshown := (attributes?_agree h).bind fun _ _ hattributes => hattributes.lookup? name
  simpa only [Option.bind_map, Function.comp_def, Attributes.lookup?_shown hname] using hshown

/-- What the host keeps inside an object is told by its kind. -/
theorem conceals_eq {o o' : Obj} (h : Obj.Agree p o o') (name : Text) :
    o.conceals name = o'.conceals name := by
  cases h <;> rfl

theorem attributeProperty_agree {o o' : Obj} (h : Obj.Agree p o o') (name : Text) :
    Except.Agree (Found.Agree p) (attributeProperty o name) (attributeProperty o' name) := by
  unfold attributeProperty
  split
  · exact .ok .absent
  · rename_i hname
    have hvalue := attribute_agree h (Bool.eq_false_iff.2 hname)
    generalize (attributes? o).bind (Table.lookup? name) = v?,
      (attributes? o').bind (Table.lookup? name) = v'? at hvalue ⊢
    cases hvalue with
    | some hv => exact .ok (.value hv)
    | none =>
      rw [conceals_eq h name]
      dsimp only
      split
      · exact .error _
      · exact .ok .absent

theorem objectProperty_agree {o o' : Obj} (h : Obj.Agree p o o') {key key' : Value}
    (hkey : Value.Agree p key key') (name : Text) :
    Except.Agree (Found.Agree p) (objectProperty o key name) (objectProperty o' key' name) := by
  have hattribute := attributeProperty_agree h name
  cases h with
  | list h => exact sequenceProperty_agree hkey h.length_eq h.getElem? _ name
  | tuple h => exact sequenceProperty_agree hkey h.length_eq h.getElem? _ name
  | dict h => exact .ok (entryProperty_agree hkey h name)
  | frozen h => exact .ok (entryProperty_agree hkey h name)
  | _ => exact hattribute

section

variable {s s' : Store} (hs : Store.Agree p s s') {object object' key key' : Value}
  (hobject : Value.Agree p object object') (hkey : Value.Agree p key key')
include hs hobject hkey

theorem property_agree :
    Except.Agree (Found.Agree p) (s.property object key) (s'.property object' key') := by
  unfold property
  rw [hobject.isNothing_eq, hs.toText_eq hobject, hs.toText_eq hkey, hs.keyText_eq hkey]
  dsimp only
  split
  · exact .bind_eq rfl fun _ => .bind_eq rfl fun _ => .error _
  · refine .bind_eq rfl fun name => ?_
    cases hobject with
    | text t =>
      refine sequenceProperty_agree hkey rfl (fun i => ?_) _ name
      cases t[i]? with
      | none => exact .none
      | some c => exact .some (.text _)
    | num => exact .ok (.elim_method _)
    | type t =>
      dsimp only [typeProperty]
      split
      · exact .error _
      · exact .ok .absent
    | @ref r r' hr =>
      have h := hs.objects r r' hr
      dsimp only
      generalize s[r]? = o, s'[r']? = o' at h ⊢
      cases h with
      | none => exact .ok .absent
      | some h => exact objectProperty_agree h hkey name
    | _ => exact .ok .absent

theorem hasProperty_eq : s.hasProperty object key = s'.hasProperty object' key' := by
  have hproperty := property_agree hs hobject hkey
  have htext := hs.toText_eq hobject
  unfold hasProperty
  rw [hs.toText_eq hkey]
  cases hobject with
  | ref | type =>
    refine Except.Agree.eq (hproperty.bind fun _ _ hfound => ?_)
    cases hfound with
    | absent => exact .ok rfl
    | method => exact .ok rfl
    | value hv => cases hv <;> exact .ok rfl
  | _ => rw [htext]

end

/-! ## Writing -/

section

variable {key key' v v' : Value} (hkey : Value.Agree p key key') (hv : Value.Agree p v v')

include hv in
theorem putItem_agree {items items' : List Value} (h : Values.Agree p items items') (i : Nat) :
    Except.Agree (Values.Agree p) (putItem items i v) (putItem items' i v') := by
  unfold putItem
  rw [h.length_eq]
  split
  · exact .ok (h.set i hv)
  · split
    · exact .error _
    · split
      · exact .error _
      · exact .ok (h.append ((List.Forall₂.replicate _ .undefined).append (.cons hv .nil)))

include hkey hv

theorem putProperty_agree {o o' : Obj} (h : Obj.Agree p o o') (name : Text) :
    Except.Agree (Obj.Agree p) (putProperty o key name v) (putProperty o' key' name v') := by
  cases h with
  | list h =>
    refine .bind_eq hkey.index?_eq fun index => ?_
    cases index with
    | some i => exact (putItem_agree hv h i).bind fun _ _ h => .ok (.list h)
    | none => exact .error _
  | tuple h => exact .ok (.tuple h)
  | dict h => exact .ok (.dict (h.insert _ hv))
  | frozen => exact .error _
  | record h hall =>
    simp only [putProperty]
    split
    · exact .error _
    · rename_i hname
      have hpublic := Bool.eq_false_iff.2 hname
      refine .ok (.record ?_ fun hspelled => (hall hspelled).insert name hv)
      rw [Attributes.shown_insert hpublic, Attributes.shown_insert hpublic]
      exact h.insert name hv
  | slots ha hb =>
    simp only [putProperty]
    split
    · exact .ok (.slots (.some hv) hb)
    · split
      · exact .ok (.slots ha (.some hv))
      · exact .error _
  | arrow params body hframe h =>
    simp only [putProperty]
    split
    · exact .error _
    · split
      · exact .error _
      · exact .ok (.arrow params body hframe (h.insert name hv))
  | method m hself h =>
    simp only [putProperty]
    split
    · exact .error _
    · exact .ok (.method m hself (h.insert name hv))
  | builtin f h =>
    simp only [putProperty]
    split
    · exact .error _
    · exact .ok (.builtin f (h.insert name hv))
  | host f h =>
    simp only [putProperty]
    split
    · exact .error _
    · exact .ok (.host f (h.insert name hv))
  | node hbody _ =>
    simp only [putProperty]
    split
    · exact .error _
    · split
      · exact .ok (.node hbody (.some hv))
      · exact .error _
  | pending | frame | expression => exact .error _

omit hv in
theorem dropProperty_agree {o o' : Obj} (h : Obj.Agree p o o') (name : Text) :
    Except.Agree (fun r r' : Obj × Bool => Obj.Agree p r.1 r'.1 ∧ r.2 = r'.2)
      (dropProperty o key name) (dropProperty o' key' name) := by
  cases h with
  | list h =>
    refine .bind_eq hkey.index?_eq fun index => ?_
    cases index with
    | some i => exact .ok ⟨.list (h.set i .undefined), rfl⟩
    | none => exact .ok ⟨.list h, rfl⟩
  | dict h => exact .ok ⟨.dict (h.erase _), rfl⟩
  | _ => exact .ok ⟨by constructor <;> assumption, rfl⟩

end

end Store

/-! ## What stays -/

namespace Obj

variable {o q : Obj} {key v : Value} {name : Text}

/-- Writing an attribute with a public name leaves the private ones alone. -/
theorem keeps_setOwn {attributes : Attributes} (hown : o.own? = some attributes)
    (hname : Store.isPrivate name = false) :
    o.Keeps (o.setOwn (Table.insert name v attributes)) := by
  cases o with
  | record =>
    cases hown
    refine ⟨?_, fun _ _ => trivial⟩
    rw [setOwn, privates, privates, Attributes.hidden_insert hname]
  | arrow | method | builtin | host => exact ⟨rfl, fun _ h => h⟩
  | _ => cases hown

/-- Writing a property leaves the private attributes alone. -/
theorem keeps_putProperty (h : Store.putProperty o key name v = .ok q) : o.Keeps q := by
  cases Store.put_of_putProperty h with
  | own hown hname hput => exact hput ▸ keeps_setOwn hown hname
  | _ => exact keeps_of_plain rfl rfl fun _ => trivial

/-- Removing a property leaves the private attributes alone. -/
theorem keeps_dropProperty {gone : Bool} (h : Store.dropProperty o key name = .ok (q, gone)) :
    o.Keeps q := by
  cases Store.drop_of_dropProperty h with
  | other => exact .refl _
  | _ => exact keeps_of_plain rfl rfl fun _ => trivial

end Obj

end GuardedText
