import GuardedText.Eval.Call
import GuardedText.Proofs.Eval.Regime
import GuardedText.Proofs.Table

/-
  Frames and their tables. A frame stands in an older one, up to the outermost one over a context,
  and each has a table of its own variables (`Store.Nested`). A name is looked for in these tables
  from the inside out, then among the built-ins (`Store.Nested.resolve?`). A table has one of three
  roles in the frames: it is a context, holds the variables of a call, or the built-ins.
-/

namespace GuardedText

/-- What a frame holds. -/
def Obj.scope? : Obj → Option (Ref × Option Ref × Ref)
  | .frame locals parent globals => some (locals, parent, globals)
  | _ => none

theorem Obj.IsPlain.scope?_eq {o : Obj} (ho : o.IsPlain) : o.scope? = none := by
  cases o with
  | frame => exact ho.elim
  | _ => rfl

namespace Store

variable {s : Store} {context globals : Ref}

/-- The names in the table at a place. -/
def names? (s : Store) (table : Ref) : Option (List Key) :=
  (s.entries? (.ref table)).map Table.keys

/-- There is a table at a place, and it can be written. -/
def IsTable (s : Store) (table : Ref) : Prop := ∃ entries, s[table]? = some (.dict entries)

theorem binding?_isSome {table : Ref} {name : Text} :
    (s.binding? table name).isSome ↔ ∃ names, s.names? table = some names ∧ .name name ∈ names := by
  unfold binding? names?
  cases s.entries? (.ref table) with
  | none => simp
  | some entries =>
    have hnone := @Table.lookup?_eq_none _ _ _ _ (Key.name name) entries
    simp [Option.isSome_iff_ne_none, hnone]

theorem names?_dict {table : Ref} {entries : Entries} (h : s[table]? = some (.dict entries)) :
    s.names? table = some (Table.keys entries) := by
  simp [names?, entries?, get?, h]

theorem frame?_eq_bind (s : Store) (r : Ref) : s.frame? r = s[r]?.bind Obj.scope? := by
  unfold frame?
  cases s[r]? with
  | none => rfl
  | some o => cases o <;> rfl

theorem frame?_eq_some {r locals globals : Ref} {parent : Option Ref} :
    s.frame? r = some (locals, parent, globals) ↔ s[r]? = some (.frame locals parent globals) := by
  rw [frame?_eq_bind]
  cases s[r]? with
  | none => simp
  | some o => cases o <;> simp [Obj.scope?]

theorem frame?_of_plain (h : ∀ o ∈ s, o.IsPlain) (r : Ref) : s.frame? r = none := by
  rw [frame?_eq_bind]
  cases hr : s[r]? with
  | none => rfl
  | some o => exact (h o (Array.mem_of_getElem? hr)).scope?_eq

theorem frame?_push (o : Obj) (r : Ref) :
    frame? (s.push o) r = if r = s.size then o.scope? else s.frame? r := by
  simp only [frame?_eq_bind, Array.getElem?_push]
  split <;> rfl

theorem frame?_push_of_none (s : Store) {o : Obj} (ho : o.scope? = none) (r : Ref) :
    frame? (s.push o) r = s.frame? r := by
  rw [frame?_push, ho]
  split
  · rename_i hr
    rw [hr, frame?_eq_bind, Array.getElem?_eq_none (Nat.le_refl _)]
    rfl
  · rfl

theorem exists_frame?_push (o : Obj) (frame : Ref × Option Ref × Ref) :
    (∃ r, frame? (s.push o) r = some frame) ↔
      (∃ r, s.frame? r = some frame) ∨ o.scope? = some frame := by
  constructor
  · rintro ⟨r, hr⟩
    rw [frame?_push] at hr
    split at hr
    · exact .inr hr
    · exact .inl ⟨r, hr⟩
  · rintro (⟨r, hr⟩ | ho)
    · refine ⟨r, ?_⟩
      rw [frame?_push, if_neg, hr]
      rintro rfl
      rw [frame?_eq_bind, Array.getElem?_eq_none (Nat.le_refl _)] at hr
      cases hr
    · exact ⟨s.size, by rw [frame?_push, if_pos rfl, ho]⟩

theorem frame?_setIfInBounds {r : Ref} {o o' : Obj} (hr : s[r]? = some o)
    (ho : o'.scope? = o.scope?) (t : Ref) : frame? (s.setIfInBounds r o') t = s.frame? t := by
  simp only [frame?_eq_bind, Array.getElem?_setIfInBounds]
  split
  · rename_i hrt
    subst hrt
    rw [if_pos (Array.getElem?_eq_some_iff.1 hr).1, hr]
    exact ho
  · rfl

/-! ## The roles of tables -/

/-- A table is what an outermost frame stands over. -/
def IsContext (s : Store) (table : Ref) : Prop :=
  ∃ globals r, s.frame? r = some (table, none, globals)

/-- A table holds the variables of a call. -/
def IsVariables (s : Store) (table : Ref) : Prop :=
  ∃ parent globals r, s.frame? r = some (table, some parent, globals)

/-- A table holds the built-ins. -/
def IsBuiltins (s : Store) (table : Ref) : Prop :=
  ∃ locals parent r, s.frame? r = some (locals, parent, table)

theorem isContext_push {o : Obj} {table : Ref} : IsContext (s.push o) table ↔
    s.IsContext table ∨ ∃ globals, o.scope? = some (table, none, globals) := by
  simp only [IsContext, exists_frame?_push, exists_or]

theorem isVariables_push {o : Obj} {table : Ref} : IsVariables (s.push o) table ↔
    s.IsVariables table ∨ ∃ parent globals, o.scope? = some (table, some parent, globals) := by
  simp only [IsVariables, exists_frame?_push, exists_or]

theorem isBuiltins_push {o : Obj} {table : Ref} : IsBuiltins (s.push o) table ↔
    s.IsBuiltins table ∨ ∃ locals parent, o.scope? = some (locals, parent, table) := by
  simp only [IsBuiltins, exists_frame?_push, exists_or]

/-- No table has two roles. -/
structure Apart (s : Store) : Prop where
  ofContext : ∀ {table : Ref}, s.IsContext table → ¬ s.IsVariables table ∧ ¬ s.IsBuiltins table
  ofVariables : ∀ {table : Ref}, s.IsVariables table → ¬ s.IsBuiltins table

namespace Apart

variable (h : s.Apart)
include h

/-- Tables have the roles that the frames give them. -/
theorem congr {s' : Store} (hframes : ∀ r, s'.frame? r = s.frame? r) : s'.Apart := by
  refine ⟨?_, ?_⟩ <;> simp only [IsContext, IsVariables, IsBuiltins, hframes]
  · exact h.ofContext
  · exact h.ofVariables

/-- A frame over new variables, inside of another one. -/
theorem push_call {locals frame : Ref} (hbuiltins : s.IsBuiltins globals)
    (hlocals : ¬ s.IsContext locals ∧ ¬ s.IsBuiltins locals) :
    Apart (s.push (.frame locals (some frame) globals)) := by
  constructor <;> intro table htable <;>
    simp only [isContext_push, isVariables_push, isBuiltins_push, Obj.scope?, Option.some.injEq,
      Prod.mk.injEq, reduceCtorEq, false_and, and_false, exists_false, or_false] at htable ⊢
  · obtain ⟨hvariables, hnot⟩ := h.ofContext htable
    grind
  · rcases htable with htable | ⟨_, _, rfl, -, -⟩
    · have := h.ofVariables htable
      grind
    · grind

/-- An outermost frame over a context and new built-ins. -/
theorem push_root (hcontext : ¬ s.IsVariables context ∧ ¬ s.IsBuiltins context)
    (hglobals : ¬ s.IsContext globals ∧ ¬ s.IsVariables globals) (hne : context ≠ globals) :
    Apart (s.push (.frame context none globals)) := by
  constructor <;> intro table htable <;>
    simp only [isContext_push, isVariables_push, isBuiltins_push, Obj.scope?, Option.some.injEq,
      Prod.mk.injEq, reduceCtorEq, false_and, and_false, exists_false, or_false] at htable ⊢
  · rcases htable with htable | ⟨_, rfl, -, -⟩
    · have := h.ofContext htable
      grind
    · grind
  · have := h.ofVariables htable
    grind

end Apart

/-! ## Frames inside each other -/

/-- The frame at a place, with the tables of the frames from there outwards up to that of the
context. -/
inductive Nested (s : Store) (context globals : Ref) : Ref → List Ref → Prop where
  | outermost {r : Ref} : s.frame? r = some (context, none, globals) → Nested s context globals r []
  | inner {r locals parent : Ref} {tables : List Ref} :
      s.frame? r = some (locals, some parent, globals) → parent < r →
      Nested s context globals parent tables → Nested s context globals r (locals :: tables)

namespace Nested

variable {r : Ref} {tables : List Ref} (h : s.Nested context globals r tables)
include h

theorem lt_size : r < s.size := by
  cases h with
  | outermost hr => exact (Array.getElem?_eq_some_iff.1 (frame?_eq_some.1 hr)).1
  | inner hr => exact (Array.getElem?_eq_some_iff.1 (frame?_eq_some.1 hr)).1

theorem frame? : ∃ locals parent, s.frame? r = some (locals, parent, globals) := by
  cases h with
  | outermost hr => exact ⟨_, _, hr⟩
  | inner hr => exact ⟨_, _, hr⟩

theorem isVariables {table : Ref} (htable : table ∈ tables) : s.IsVariables table := by
  induction h with
  | outermost => cases htable
  | inner hr _ _ ih =>
    rcases List.mem_cons.1 htable with rfl | htable
    · exact ⟨_, _, _, hr⟩
    · exact ih htable

/-- The owner of a name is the first frame outwards in whose table the name is. -/
theorem owner? (name : Text) {fuel : Nat} (hfuel : r < fuel) :
    (s.owner? name fuel r = none ∧ ∀ table ∈ tables ++ [context], s.binding? table name = none) ∨
    ∃ owner locals parent, s.owner? name fuel r = some owner ∧
      s.frame? owner = some (locals, parent, globals) ∧ (s.binding? locals name).isSome ∧
      (tables ++ [context]).findSome? (s.binding? · name) = s.binding? locals name := by
  induction h generalizing fuel with
  | @outermost r hr =>
    obtain ⟨fuel, rfl⟩ := Nat.exists_eq_succ_of_ne_zero (Nat.ne_zero_of_lt hfuel)
    rw [Store.owner?, hr]
    by_cases hbound : (s.binding? context name).isSome
    · refine .inr ⟨r, context, none, by simp [hbound], hr, hbound, ?_⟩
      obtain ⟨v, hv⟩ := Option.isSome_iff_exists.1 hbound
      simp [hv]
    · refine .inl ⟨by simp [hbound], ?_⟩
      simpa using hbound
  | @inner r locals parent tables hr hlt _ ih =>
    obtain ⟨fuel, rfl⟩ := Nat.exists_eq_succ_of_ne_zero (Nat.ne_zero_of_lt hfuel)
    rw [Store.owner?, hr]
    by_cases hbound : (s.binding? locals name).isSome
    · refine .inr ⟨r, locals, some parent, by simp [hbound], hr, hbound, ?_⟩
      obtain ⟨v, hv⟩ := Option.isSome_iff_exists.1 hbound
      simp [hv]
    · have hnone : s.binding? locals name = none := by simpa using hbound
      simp only [hbound, Bool.false_eq_true, if_false, Option.bind_some]
      obtain ⟨hnot, hall⟩ | ⟨owner, l, p, howner, hframe, hl, hfind⟩ :=
        ih (Nat.lt_of_lt_of_le hlt (Nat.le_of_lt_succ hfuel))
      · refine .inl ⟨hnot, fun table htable => ?_⟩
        rcases List.mem_cons.1 htable with rfl | htable
        · exact hnone
        · exact hall table htable
      · refine .inr ⟨owner, l, p, howner, hframe, hl, ?_⟩
        rw [List.cons_append, List.findSome?_cons, hnone]
        exact hfind

/-- A name stands for the innermost variable of that name, else for what the context has under it,
else for the built-in. -/
theorem resolve? (name : Text) :
    s.resolve? r name = (tables ++ [context, globals]).findSome? (s.binding? · name) := by
  have hsplit : tables ++ [context, globals] = (tables ++ [context]) ++ [globals] := by simp
  rw [hsplit, List.findSome?_append]
  unfold Store.resolve?
  obtain ⟨hnone, hall⟩ | ⟨owner, locals, parent, howner, hframe, hbound, hfind⟩ :=
    h.owner? name h.lt_size
  · obtain ⟨locals, parent, hr⟩ := h.frame?
    rw [hnone, List.findSome?_eq_none_iff.2 hall, Option.none_or]
    simp only [Store.global?, hr, Option.bind_some, List.findSome?_cons, List.findSome?_nil]
    cases s.binding? globals name <;> rfl
  · obtain ⟨v, hv⟩ := Option.isSome_iff_exists.1 hbound
    simp only [howner, hframe, Option.bind_some, hfind, hv, Option.some_or]

theorem frame?_outermost {fuel : Nat} (hfuel : r < fuel) :
    s.frame? (s.outermost fuel r) = some (context, none, globals) := by
  induction h generalizing fuel with
  | @outermost r hr =>
    obtain ⟨fuel, rfl⟩ := Nat.exists_eq_succ_of_ne_zero (Nat.ne_zero_of_lt hfuel)
    rw [Store.outermost, hr]
    exact hr
  | @inner r locals parent tables hr hlt _ ih =>
    obtain ⟨fuel, rfl⟩ := Nat.exists_eq_succ_of_ne_zero (Nat.ne_zero_of_lt hfuel)
    rw [Store.outermost, hr]
    exact ih (Nat.lt_of_lt_of_le hlt (Nat.le_of_lt_succ hfuel))

end Nested

end Store

end GuardedText
