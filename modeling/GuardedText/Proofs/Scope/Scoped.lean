import GuardedText.Proofs.Eval.Bodies
import GuardedText.Proofs.Scope.Grow
import GuardedText.Proofs.Scope.Writes

/-
  Scoped stores. In a store that is `Scoped` every frame stands in an older one up to that of a
  context, every function in a frame, no table has two roles, and the variables of a call are the
  parameters of a function in the frame around it. New objects and functions, changes of variables
  and the frames of calls and of contexts keep a store so.
-/

namespace GuardedText

theorem Obj.Renewed.not_isOverridden {o p : Obj} (h : o.Renewed p) (ho : ¬ o.IsOverridden) :
    ¬ p.IsOverridden := by
  cases h with
  | same => exact ho
  | bound | awaited => exact id

namespace Store

variable {s s' : Store}

/-- The names in a table are some parameters. -/
def Binds (s : Store) (table : Ref) (params : List Text) : Prop :=
  ∃ names, s.names? table = some names ∧ ∀ key, key ∈ names ↔ ∃ n ∈ params, key = .name n

/-- What a frame may hold. An outermost one stands over an object of the caller. The frame of a call
stands in an older one with the same built-ins, in which the function called was written, over the
parameters of that function. -/
def Stands (s : Store) (r locals : Ref) : Option Ref → Ref → Prop
  | none, globals =>
    (∃ o, s[locals]? = some o ∧ o.IsPlain) ∧ s.IsTable globals
  | some parent, globals =>
    s.IsTable locals ∧ s.IsTable globals ∧ parent < r ∧
      (∃ l p, s.frame? parent = some (l, p, globals)) ∧
      ∃ (f : Ref) (params : List Text) (body : Expr) (attributes : Attributes),
        s[f]? = some (.arrow params body parent attributes) ∧ s.Binds locals params

/-- Frames stand in older ones up to those of contexts and functions in frames, no table has two
roles, and functions leave properties alone and have the bodies that they were written with. -/
structure Scoped (s : Store) : Prop where
  apart : s.Apart
  frames : ∀ {r locals globals : Ref} {parent : Option Ref},
    s.frame? r = some (locals, parent, globals) → s.Stands r locals parent globals
  closed : ∀ {r frame : Ref} {params : List Text} {body : Expr} {attributes : Attributes},
    s[r]? = some (.arrow params body frame attributes) →
      body.writes = false ∧ (s.frame? frame).isSome
  kept : ¬ s.Overridden

theorem Stands.builtins {r locals globals : Ref} {parent : Option Ref}
    (h : s.Stands r locals parent globals) : s.IsTable globals := by
  cases parent with
  | none => exact h.2
  | some parent => exact h.2.1

/-- What a frame holds stays so while the store grows. -/
theorem Stands.mono {r locals globals : Ref} {parent : Option Ref} (h : s.Grows s')
    (hglobals : ¬ s'.IsContext globals) (hlocals : parent ≠ none → ¬ s'.IsContext locals)
    (hstands : s.Stands r locals parent globals) : s'.Stands r locals parent globals := by
  have hbuiltins := h.isTable hglobals hstands.builtins
  cases parent with
  | none => exact ⟨h.plain hstands.1, hbuiltins⟩
  | some parent =>
    have hlocals := hlocals (nomatch ·)
    obtain ⟨hdict, -, hlt, ⟨l, p, hparent⟩, f, params, body, attributes, hf, hbinds⟩ := hstands
    obtain ⟨names, hnames, hmem⟩ := hbinds
    exact ⟨h.isTable hlocals hdict, hbuiltins, hlt, ⟨l, p, h.frame? hparent⟩, f, params, body,
      attributes, h.arrow hf, names, h.names? hlocals hnames, hmem⟩

namespace Scoped

/-- Objects of the caller alone are scoped. -/
theorem of_plain (h : ∀ o ∈ s, o.IsPlain) : s.Scoped := by
  have hframes := frame?_of_plain h
  refine ⟨⟨?_, ?_⟩, fun hr => ?_, fun hr => absurd (h _ (Array.mem_of_getElem? hr)) id, ?_⟩
  · rintro table ⟨globals, r, hr⟩
    cases (hframes r).symm.trans hr
  · rintro table ⟨parent, globals, r, hr⟩
    cases (hframes r).symm.trans hr
  · cases (hframes _).symm.trans hr
  · rintro ⟨o, ho, hover⟩
    exact (h o ho).not_isOverridden hover

/-- A store stays scoped while it grows, if its new frames and functions are as they should be. -/
theorem of_grows (h : s.Grows s') (hapart : s'.Apart)
    (hframes : ∀ {r locals globals : Ref} {parent : Option Ref},
      s'.frame? r = some (locals, parent, globals) → s.Stands r locals parent globals)
    (hclosed : ∀ {r frame : Ref} {params : List Text} {body : Expr} {attributes : Attributes},
      s'[r]? = some (.arrow params body frame attributes) →
        body.writes = false ∧ (s.frame? frame).isSome)
    (hkept : ¬ s'.Overridden) : s'.Scoped where
  apart := hapart
  frames {r locals globals parent} hr := by
    refine (hframes hr).mono h (fun hcontext => ?_) fun hparent hcontext => ?_
    · exact (hapart.ofContext hcontext).2 ⟨locals, parent, r, hr⟩
    · obtain ⟨p, rfl⟩ := Option.ne_none_iff_exists'.1 hparent
      exact (hapart.ofContext hcontext).1 ⟨p, globals, r, hr⟩
  closed hr := ⟨(hclosed hr).1, h.frame?_isSome (hclosed hr).2⟩
  kept := hkept

variable (hs : s.Scoped)
include hs

/-! ## What holds of scoped stores -/

theorem context_plain {table : Ref} (h : s.IsContext table) :
    ∃ o, s[table]? = some o ∧ o.IsPlain := by
  obtain ⟨globals, r, hr⟩ := h
  exact (hs.frames hr).1

theorem variables_isTable {table : Ref} (h : s.IsVariables table) : s.IsTable table := by
  obtain ⟨parent, globals, r, hr⟩ := h
  exact (hs.frames hr).1

theorem builtins_isTable {table : Ref} (h : s.IsBuiltins table) : s.IsTable table := by
  obtain ⟨locals, parent, r, hr⟩ := h
  exact (hs.frames hr).builtins

/-- Every frame stands in older ones, up to that of a context. -/
theorem nested {r : Ref} (hr : (s.frame? r).isSome) :
    ∃ context globals tables, s.Nested context globals r tables := by
  suffices ∀ {locals parent globals}, s.frame? r = some (locals, parent, globals) →
      ∃ context tables, s.Nested context globals r tables by
    obtain ⟨⟨locals, parent, globals⟩, hframe⟩ := Option.isSome_iff_exists.1 hr
    obtain ⟨context, tables, h⟩ := this hframe
    exact ⟨context, globals, tables, h⟩
  clear hr
  induction r using Nat.strong_induction_on with
  | _ r ih =>
    intro locals parent globals hframe
    cases parent with
    | none => exact ⟨locals, [], .outermost hframe⟩
    | some parent =>
      obtain ⟨-, -, hlt, ⟨l, p, hparent⟩, -⟩ := hs.frames hframe
      obtain ⟨context, tables, h⟩ := ih parent hlt hparent
      exact ⟨context, locals :: tables, .inner hframe hlt h⟩

/-! ## Steps -/

/-- A new object that is no frame. -/
theorem push_object {o : Obj} (ho : o.scope? = none) (hkept : ¬ o.IsOverridden)
    (hclosed : ∀ {frame : Ref} {params : List Text} {body : Expr} {attributes : Attributes},
      o = .arrow params body frame attributes →
        body.writes = false ∧ (s.frame? frame).isSome) : Scoped (s.push o) := by
  have hframes := frame?_push_of_none s ho
  refine of_grows (.push o) (hs.apart.congr hframes) (fun hr => ?_) (fun hr => ?_)
    (not_overridden_push hs.kept hkept)
  · exact hs.frames (hframes _ ▸ hr)
  · rw [Array.getElem?_push] at hr
    split at hr
    · exact hclosed (Option.some.inj hr)
    · exact hs.closed hr

/-- A new object that is no function of a guard either. -/
theorem push {o : Obj} (ho : o.IsPlain) : Scoped (s.push o) :=
  hs.push_object ho.scope?_eq ho.not_isOverridden fun h => absurd ho (h ▸ id)

/-- A new expression in the syntax of a function. -/
theorem push_expression (e : Expr) (inner : Option Value) : Scoped (s.push (.expression e inner)) :=
  hs.push_object rfl id nofun

/-- A new function in a frame. -/
theorem push_arrow {frame : Ref} (hframe : (s.frame? frame).isSome) (params : List Text)
    {body : Expr} (hbody : body.writes = false) (attributes : Attributes) :
    Scoped (s.push (.arrow params body frame attributes)) :=
  hs.push_object rfl id fun h => by
    cases h
    exact ⟨hbody, hframe⟩

/-- No frame knows a new table. -/
theorem fresh (entries : Entries) : ¬ IsContext (s.push (.dict entries)) s.size ∧
    ¬ IsVariables (s.push (.dict entries)) s.size ∧
    ¬ IsBuiltins (s.push (.dict entries)) s.size := by
  have hnew : s[s.size]? = none := Array.getElem?_eq_none (Nat.le_refl _)
  rw [isContext_push, isVariables_push, isBuiltins_push]
  refine ⟨?_, ?_, ?_⟩
  · rintro (h | ⟨_, ⟨⟩⟩)
    obtain ⟨o, ho, -⟩ := hs.context_plain h
    cases hnew.symm.trans ho
  · rintro (h | ⟨_, _, ⟨⟩⟩)
    obtain ⟨entries, hentries⟩ := hs.variables_isTable h
    cases hnew.symm.trans hentries
  · rintro (h | ⟨_, _, ⟨⟩⟩)
    obtain ⟨entries, hentries⟩ := hs.builtins_isTable h
    cases hnew.symm.trans hentries

/-- A new frame. -/
theorem push_frame {locals globals : Ref} {parent : Option Ref}
    (hstands : s.Stands s.size locals parent globals)
    (hapart : Apart (s.push (.frame locals parent globals))) :
    Scoped (s.push (.frame locals parent globals)) := by
  refine of_grows (.push _) hapart (fun hr => ?_) (fun hr => ?_) (not_overridden_push hs.kept id)
  · rw [frame?_push] at hr
    split at hr
    · rename_i hsize
      cases hr
      exact hsize ▸ hstands
    · exact hs.frames hr
  · rw [Array.getElem?_push] at hr
    split at hr
    · cases hr
    · exact hs.closed hr

/-- An object gives way to what may become of it, or a context to another object of the caller. -/
theorem set {r : Ref} {o o' : Obj} (hr : s[r]? = some o)
    (ho : o.Renewed o' ∨ s.IsContext r ∧ o.IsPlain ∧ o'.IsPlain)
    (hbuiltins : ¬ s.IsBuiltins r) : Scoped (s.setIfInBounds r o') := by
  have hscope : o'.scope? = o.scope? := by
    rcases ho with ho | ⟨-, hplain, hplain'⟩
    · exact ho.scope?_eq
    · rw [hplain.scope?_eq, hplain'.scope?_eq]
  have hframes := frame?_setIfInBounds hr hscope
  have hkept : ¬ o'.IsOverridden := by
    rcases ho with ho | ⟨-, -, hplain⟩
    · exact ho.not_isOverridden fun hover => hs.kept ⟨o, Array.mem_of_getElem? hr, hover⟩
    · exact hplain.not_isOverridden
  refine of_grows (.set hr ho hbuiltins) (hs.apart.congr hframes) (fun ht => ?_) (fun ht => ?_)
    (not_overridden_set hs.kept r hkept)
  · exact hs.frames (hframes _ ▸ ht)
  · rw [Array.getElem?_setIfInBounds] at ht
    split at ht
    · rename_i hrt
      subst hrt
      rw [if_pos (Array.getElem?_eq_some_iff.1 hr).1] at ht
      cases ht
      rcases ho with ho | ⟨-, -, hplain⟩
      · exact hs.closed (ho.of_arrow ▸ hr)
      · exact hplain.elim
    · exact hs.closed ht

end Scoped

end Store

end GuardedText
