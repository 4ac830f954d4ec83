import Mathlib.Logic.Basic
import GuardedText.Value.Property
import GuardedText.Proofs.Result

/-
  What writes and removals make of an object. A value is put into an object of a kind that can be
  written, under a key that it can have (`Put`). A removal empties an item of a list or takes an
  entry out of a mapping, and leaves all other objects as they are (`Drop`).
-/

namespace GuardedText

/-- The attributes that a host object or a function keeps. -/
def Obj.own? : Obj → Option Attributes
  | .record attributes | .arrow _ _ _ attributes | .method _ _ attributes
  | .builtin _ attributes | .host _ attributes => some attributes
  | _ => none

/-- A host object or a function with other attributes. -/
def Obj.setOwn (attributes : Attributes) : Obj → Obj
  | .record _ => .record attributes
  | .arrow params body scope _ => .arrow params body scope attributes
  | .method m self _ => .method m self attributes
  | .builtin b _ => .builtin b attributes
  | .host f _ => .host f attributes
  | o => o

theorem Obj.own?_setOwn {o : Obj} {attributes : Attributes} (h : o.own? = some attributes)
    (attributes' : Attributes) : (o.setOwn attributes').own? = some attributes' := by
  cases o <;> first | rfl | cases h

namespace Store

variable {o o' : Obj} {key v : Value} {name : Text}

/-- An object with a value put under a key, for each kind of object that can be written. -/
inductive Put (key : Value) (name : Text) (v : Value) : Obj → Obj → Prop where
  | tuple (items : List Value) : Put key name v (.tuple items) (.tuple items)
  | list {items items' : List Value} {i : Nat} (hindex : index? key = .ok (some i))
    (hput : putItem items i v = .ok items') : Put key name v (.list items) (.list items')
  | dict (entries : Entries) :
    Put key name v (.dict entries) (.dict (Table.insert (.name name) v entries))
  | own {o o' : Obj} {attributes : Attributes} (hown : o.own? = some attributes)
    (hname : isPrivate name = false) (hput : o' = o.setOwn (Table.insert name v attributes)) :
    Put key name v o o'
  | first {a b : Option Value} (hname : name = Text.ofString "a") :
    Put key name v (.slots a b) (.slots (some v) b)
  | second {a b : Option Value} (hname : name = Text.ofString "b") :
    Put key name v (.slots a b) (.slots a (some v))
  | body {body : Value} {put : Option Value} (hname : name = Text.ofString "body") :
    Put key name v (.node body put) (.node body (some v))

theorem put_of_putProperty (h : putProperty o key name v = .ok o') : Put key name v o o' := by
  cases o with
  | list items =>
    simp only [putProperty, Except.bind_eq_ok] at h
    obtain ⟨i?, hindex, hput⟩ := h
    cases i? with
    | none => cases hput
    | some i =>
      simp only [Except.bind_eq_ok, Except.pure_eq_ok] at hput
      obtain ⟨items', hput, rfl⟩ := hput
      exact .list hindex hput
  | record | method | builtin | host =>
    simp only [putProperty, ite_eq_iff, Except.bind_eq_ok, Except.throw_ne_ok, false_and,
      exists_false, and_false, false_or, Except.pure_eq_ok] at h
    obtain ⟨hname, rfl⟩ := h
    exact .own rfl (by simp_all) rfl
  | arrow =>
    simp only [putProperty, ite_eq_iff, Except.bind_eq_ok, Except.throw_ne_ok, false_and,
      exists_false, and_false, false_or, Except.pure_eq_ok] at h
    obtain ⟨hname, -, rfl⟩ := h
    exact .own rfl (by simp_all) rfl
  | slots =>
    simp only [putProperty, ite_eq_iff, Except.throw_ne_ok, and_false, or_false,
      Except.pure_eq_ok] at h
    obtain ⟨hname, rfl⟩ | ⟨-, hname, rfl⟩ := h
    · exact .first hname
    · exact .second hname
  | node =>
    simp only [putProperty, ite_eq_iff, Except.bind_eq_ok, Except.throw_ne_ok, false_and,
      exists_false, and_false, false_or, or_false, Except.pure_eq_ok] at h
    obtain ⟨-, hname, rfl⟩ := h
    exact .body hname
  | tuple items =>
    cases h
    exact .tuple items
  | dict entries =>
    cases h
    exact .dict entries
  | frozen | pending | frame | expression => cases h

/-- What is left of an object when a key is removed, for each kind of object. -/
inductive Drop (key : Value) (name : Text) : Obj → Obj → Prop where
  | item (items : List Value) {i : Nat} (hindex : index? key = .ok (some i)) :
    Drop key name (.list items) (.list (items.set i .undefined))
  | noItem (items : List Value) (hindex : index? key = .ok none) :
    Drop key name (.list items) (.list items)
  | entry (entries : Entries) :
    Drop key name (.dict entries) (.dict (Table.erase (.name name) entries))
  | other {o : Obj} (hlist : ∀ items, o ≠ .list items) (hdict : ∀ entries, o ≠ .dict entries) :
    Drop key name o o

theorem drop_of_dropProperty {gone : Bool} (h : dropProperty o key name = .ok (o', gone)) :
    Drop key name o o' := by
  cases o with
  | list items =>
    simp only [dropProperty, Except.bind_eq_ok] at h
    obtain ⟨i?, hindex, hdrop⟩ := h
    cases i? with
    | none =>
      cases hdrop
      exact .noItem items hindex
    | some i =>
      cases hdrop
      exact .item items hindex
  | dict entries =>
    cases h
    exact .entry entries
  | _ =>
    cases h
    refine .other ?_ ?_ <;> rintro _ ⟨⟩

end Store

end GuardedText
