import Mathlib.Logic.Relation
import GuardedText.Guard.Basic
import GuardedText.Proofs.Scope.Evaluate

/-
  Scopes throughout a session. Roots are opened over contexts, guards are evaluated in them one
  after another and functions called, at first among objects of the caller alone (`World.Step`). If
  no guard writes or removes a property or reaches for what the host keeps inside its objects, every
  step keeps the store scoped and lets it grow, and so the whole session does (`World.scopes_kept`).
  A guard that writes properties can get at the tables of frames through the function objects it
  makes, and then nothing of this holds (`World.scopes_exposed`); nor does it if a guard changes
  these tables by the methods that the host gives to scopes and mappings.
-/

namespace GuardedText

open Relation

/-! ## New roots -/

/-- The regime of stores with the frames of another one. -/
@[reducible]
def Regime.still (s₀ : Store) : Regime where
  inv s := ∀ r, s.frame? r = s₀.frame? r
  may _ _ := True
  ordinary _ := trivial
  push hs ho r := (Store.frame?_push_of_none _ ho.scope?_eq r).trans (hs r)
  spend hs hr t := (@Store.frame?_setIfInBounds _ _ _ (.pending .spent) hr rfl t).trans (hs t)

/-- An object that the caller can give to a new root: no frame has it as its table. -/
def Store.Offers (s : Store) (context : Ref) : Prop :=
  (∃ o, s[context]? = some o ∧ o.IsPlain) ∧ ¬ s.IsVariables context ∧ ¬ s.IsBuiltins context

theorem Store.Offers.of_plain {s : Store} (h : ∀ o ∈ s, o.IsPlain) {context : Ref}
    (hlt : context < s.size) : s.Offers context := by
  refine ⟨⟨s[context], Array.getElem?_eq_getElem hlt, h _ (Array.getElem_mem hlt)⟩, ?_, ?_⟩
  · rintro ⟨_, _, r, hr⟩
    cases (Store.frame?_of_plain h r).symm.trans hr
  · rintro ⟨_, _, r, hr⟩
    cases (Store.frame?_of_plain h r).symm.trans hr

namespace Eval

theorem openRoot_eq_ok {context root : Ref} {w w' : World} (h : openRoot context w = .ok root w') :
    ∃ globals v, newGlobals w = .ok globals v ∧ root = v.store.size ∧
      w'.store = v.store.push (.frame context none globals) := by
  unfold openRoot at h
  generalize newGlobals = make at h ⊢
  simp only [bind, EStateM.bind] at h
  split at h
  · rename_i globals v hmake
    cases h
    exact ⟨globals, v, hmake, rfl, rfl⟩
  · cases h

/-- A new root over a context has built-ins of its own. -/
theorem scoped_openRoot {w w' : World} (hs : w.store.Scoped) {context root : Ref}
    (hcontext : w.store.Offers context) (h : openRoot context w = .ok root w') :
    w'.store.Scoped ∧ w.store.Grows w'.store ∧
      ∃ globals, w.store.size ≤ globals ∧ w'.store.frame? root = some (context, none, globals) := by
  obtain ⟨globals, v, hnew, rfl, hw'⟩ := openRoot_eq_ok h
  obtain ⟨s, entries, hs', rfl, hv⟩ :=
    (@newGlobals_last (.scoping w.store) w ⟨hs, .refl _⟩).1 _ _ hnew
  have hframes : ∀ r, v.store.frame? r = w.store.frame? r :=
    ((@World.obeys_iff (.still w.store) _ _ _ _).1 (@obeys_newGlobals (.still w.store)) w
      fun _ => rfl).1 _ _ hnew
  have hgrows : w.store.Grows v.store := hv ▸ hs'.2.trans (.push _)
  have hv' : v.store.Scoped := hv ▸ hs'.1.push trivial
  have hglobals : v.store[s.size]? = some (.dict entries) := by rw [hv, Array.getElem?_push_size]
  obtain ⟨hnoContext, hnoVariables, -⟩ := hv ▸ hs'.1.fresh entries
  obtain ⟨hplain, hvariables, hbuiltins⟩ := hcontext
  have hne : context ≠ s.size := by
    obtain ⟨o, ho, -⟩ := hplain
    exact Nat.ne_of_lt (Nat.lt_of_lt_of_le (Array.getElem?_eq_some_iff.1 ho).1 hs'.2.size)
  have hstands : v.store.Stands v.store.size context none s.size :=
    ⟨hgrows.plain hplain, entries, hglobals⟩
  have hapart : Store.Apart (v.store.push (.frame context none s.size)) := by
    refine hv'.apart.push_root ?_ ⟨hnoContext, hnoVariables⟩ hne
    simpa only [Store.IsVariables, Store.IsBuiltins, hframes] using ⟨hvariables, hbuiltins⟩
  rw [hw']
  exact ⟨hv'.push_frame hstands hapart, hgrows.trans (.push _), s.size, hs'.2.size,
    (Store.frame?_push _ _).trans (if_pos rfl)⟩

end Eval

/-! ## Sessions -/

/-- How a computation that stays outside of the objects of the host leaves the world, with a value
or with a fault. -/
def Eval.Ends {α : Type} (x : Eval α) (w w' : World) : Prop :=
  Eval.StaysOutside (x w) ∧ ((∃ a, x w = .ok a w') ∨ ∃ e, x w = .error e w')

theorem Eval.Ends.value {α : Type} {x : Eval α} {w w' : World} {a : α} (h : x w = .ok a w') :
    x.Ends w w' :=
  ⟨h ▸ staysOutside_ok _ _, .inl ⟨a, h⟩⟩

/-- A step of a session: an expression that leaves properties alone is evaluated in a frame, a value
is called, a call of a function begins, or a root is opened over a context. Evaluations and calls
are steps if they stay outside of the objects of the host. Evaluation is put together from such
steps, so whatever holds after every step holds while guards are evaluated, too. -/
inductive World.Step : World → World → Prop where
  | evaluate {w w' : World} {depth : Nat} {waiting : Waiting} {frame : Ref} {e : Expr}
      (hframe : (w.store.frame? frame).isSome) (he : e.writes = false)
      (h : (Eval.evaluate (Eval.callValue depth) waiting frame e).Ends w w') : Step w w'
  | call {w w' : World} {depth : Nat} {f : Value} {args : List Value}
      (h : (Eval.callValue depth f args).Ends w w') : Step w w'
  | enter {w : World} {f frame l globals : Ref} {p : Option Ref} {params : List Text} {body : Expr}
      {attributes : Attributes} (hf : w.store[f]? = some (.arrow params body frame attributes))
      (hframe : w.store.frame? frame = some (l, p, globals)) (args : List Value) :
      Step w (Eval.entered w params frame globals args)
  | openRoot {w w' : World} {context root : Ref} (hcontext : w.store.Offers context)
      (h : Eval.openRoot context w = .ok root w') : Step w w'

/-- What obeys a regime of scoped stores leaves a scoped store that has grown. -/
theorem Eval.Ends.scoped {α : Type} {x : Eval α} {w w' : World} (h : x.Ends w w')
    (hs : w.store.Scoped) (hx : @Eval.Obeys (.scoping w.store) _ x) :
    w'.store.Scoped ∧ w.store.Grows w'.store := by
  obtain ⟨hok, herror⟩ := (@World.obeys_iff (.scoping w.store) _ _ _ _).1 hx w ⟨hs, .refl _⟩
  obtain ⟨-, ⟨a, ha⟩ | ⟨e, he⟩⟩ := h
  · exact hok a w' ha
  · exact (herror e w' he).2

/-- A step keeps the store scoped and lets it grow. -/
theorem World.Step.scoped {w w' : World} (h : w.Step w') (hs : w.store.Scoped) :
    w'.store.Scoped ∧ w.store.Grows w'.store := by
  cases h with
  | evaluate hframe he h =>
    exact h.scoped hs (Eval.scoped_evaluate_of (Eval.scoped_callValue _ _) _ hframe he)
  | call h => exact h.scoped hs (Eval.scoped_callValue _ _ _ _)
  | enter hf hframe args =>
    obtain ⟨hs', hgrows, -⟩ := Eval.scoped_entered hs hf hframe args
    exact ⟨hs', hgrows⟩
  | openRoot hcontext h =>
    obtain ⟨hs', hgrows, -⟩ := Eval.scoped_openRoot hs hcontext h
    exact ⟨hs', hgrows⟩

/-- So does a session. -/
theorem World.scoped_of_steps {w w' : World} (h : ReflTransGen World.Step w w')
    (hs : w.store.Scoped) : w'.store.Scoped ∧ w.store.Grows w'.store := by
  induction h with
  | refl => exact ⟨hs, .refl _⟩
  | tail _ hstep ih =>
    obtain ⟨hs', hgrows⟩ := hstep.scoped ih.1
    exact ⟨hs', ih.2.trans hgrows⟩

/-- Scopes throughout a session that begins among objects of the caller and whose guards leave
properties alone and stay outside of the objects of the host. No frame changes, the built-ins of
every root stay what they are, and nothing but contexts gains or loses names. The frame of a call
stands in the frame in which the function was written and binds its parameters; so does every frame
that begins with a call, for good. In every frame a name stands for the innermost variable of that
name outwards, else for what the context has under it, else for the built-in. -/
theorem World.scopes_kept {w₀ u v : World} (h₀ : ∀ o ∈ w₀.store, o.IsPlain)
    (hu : ReflTransGen World.Step w₀ u) (hv : ReflTransGen World.Step u v) :
    (∀ {r : Ref} {frame : Ref × Option Ref × Ref}, u.store.frame? r = some frame →
      v.store.frame? r = some frame) ∧
    (∀ {table : Ref}, u.store.IsBuiltins table → v.store[table]? = u.store[table]?) ∧
    (∀ {table : Ref} {names : List Key}, ¬ v.store.IsContext table →
      u.store.names? table = some names → v.store.names? table = some names) ∧
    (∀ {r locals parent globals : Ref}, u.store.frame? r = some (locals, some parent, globals) →
      ∃ (f : Ref) (params : List Text) (body : Expr) (attributes : Attributes),
        u.store[f]? = some (.arrow params body parent attributes) ∧ u.store.Binds locals params) ∧
    (∀ {f frame : Ref} {params : List Text} {body : Expr} {attributes : Attributes},
      u.store[f]? = some (.arrow params body frame attributes) →
      ∃ l p globals, u.store.frame? frame = some (l, p, globals) ∧ ∀ depth args,
        Eval.callValue (depth + 1) (.ref f) args u =
          Eval.evaluate (Eval.callValue depth) .forbidden (u.store.size + 1) body
            (Eval.entered u params frame globals args) ∧
        (Eval.entered u params frame globals args).store.frame? (u.store.size + 1) =
          some (u.store.size, some frame, globals) ∧
        (Eval.entered u params frame globals args).store.Binds u.store.size params) ∧
    ∀ {r : Ref}, (u.store.frame? r).isSome → ∃ context globals tables,
      u.store.Nested context globals r tables ∧ ∀ name, u.store.resolve? r name =
        (tables ++ [context, globals]).findSome? (u.store.binding? · name) := by
  obtain ⟨hs, -⟩ := scoped_of_steps hu (.of_plain h₀)
  obtain ⟨-, hgrows⟩ := scoped_of_steps hv hs
  refine ⟨hgrows.frame?, fun htable => ?_, fun hne hnames => hgrows.names? hne hnames,
    fun hr => ?_, fun hf => ?_, fun hr => ?_⟩
  · obtain ⟨entries, hentries⟩ := hs.builtins_isTable htable
    rw [hentries]
    exact hgrows.builtins htable hentries
  · obtain ⟨-, -, -, -, hfunction⟩ := hs.frames hr
    exact hfunction
  · obtain ⟨⟨l, p, globals⟩, hframe⟩ := Option.isSome_iff_exists.1 (hs.closed hf).2
    refine ⟨l, p, globals, hframe, fun depth args => ⟨?_, ?_⟩⟩
    · obtain ⟨hs', -⟩ := Eval.scoped_entered hs hf hframe args
      rw [Eval.callValue_ref, hf]
      exact Eval.callFunction_of_ok (Eval.enter_eq hframe _ args)
        (Store.bodyToCall_of_not_overridden hs'.kept)
    · exact (Eval.scoped_entered hs hf hframe args).2.2
  · obtain ⟨context, globals, tables, hnested⟩ := hs.nested hr
    exact ⟨context, globals, tables, hnested, hnested.resolve?⟩

/-- A new root over an empty context, a guard that is evaluated in it, and its value. -/
def Guard.alone (g : Guard) : Option (Ref × World × Value × World) :=
  match Eval.openRoot 0 { store := #[.dict []] } with
  | .ok root u =>
    match Eval.run .forbidden root g.expr u with
    | .ok value v => some (root, u, value, v)
    | .error _ _ => none
  | .error _ _ => none

theorem Guard.alone_eq_some {g : Guard} {root : Ref} {u v : World} {value : Value}
    (h : g.alone = some (root, u, value, v)) :
    Eval.openRoot 0 { store := #[.dict []] } = .ok root u ∧
      Eval.run .forbidden root g.expr u = .ok value v := by
  unfold alone at h
  generalize Eval.openRoot 0 { store := #[.dict []] } = opened at h ⊢
  cases opened with
  | error => cases h
  | ok root' u' =>
    cases hrun : Eval.run .forbidden root' g.expr u' with
    | error => simp [hrun] at h
    | ok value' v' =>
      simp only [hrun, Option.some.injEq, Prod.mk.injEq] at h
      obtain ⟨rfl, rfl, rfl, rfl⟩ := h
      exact ⟨rfl, hrun⟩

/-- A guard that makes a function and calls it. -/
def calling : Guard where
  code := "f = x => x, f(1)"
  expr := .sequence [.assign .set (.name "f") (.arrow ["x"] (.name "x")),
    .call (.name "f") [.single (.literal (.number (.int 1)))] false]

theorem World.scopes_kept_calling :
    Guard.compile "f = x => x, f(1)" = .ok calling ∧
    ∃ root u value v, calling.alone = some (root, u, value, v) ∧
      (∀ {table : Ref}, u.store.IsBuiltins table → v.store[table]? = u.store[table]?) ∧
      ∀ {table : Ref} {names : List Key}, ¬ v.store.IsContext table →
        u.store.names? table = some names → v.store.names? table = some names := by
  have hcompile : Guard.compile "f = x => x, f(1)" = .ok calling := rfl
  refine ⟨hcompile, ?_⟩
  have hplain : ∀ o ∈ #[Obj.dict []], o.IsPlain := by simp [Obj.IsPlain]
  obtain ⟨⟨root, u, value, v⟩, h⟩ :=
    Option.isSome_iff_exists.1 (show calling.alone.isSome by decide +kernel)
  obtain ⟨hopen, hrun⟩ := Guard.alone_eq_some h
  have hoffers := @Store.Offers.of_plain _ hplain 0 (by decide)
  obtain ⟨-, -, globals, -, hroot⟩ := Eval.scoped_openRoot (.of_plain hplain) hoffers hopen
  obtain ⟨-, hbuiltins, hnames, -⟩ := World.scopes_kept hplain
    (.single (.openRoot hoffers hopen))
    (.single (.evaluate (by rw [hroot]; rfl) (show calling.expr.writes = false from rfl)
      (.value hrun)))
  exact ⟨root, u, value, v, h, hbuiltins, hnames⟩

/-- A guard that writes into the built-ins, which it reaches through the frame of a function. -/
def exposing : Guard where
  code := "f = x => x, f.scope.globals.Foo = 5, Foo"
  expr := .sequence [.assign .set (.name "f") (.arrow ["x"] (.name "x")),
    .assign .set (.member (.member (.member (.name "f") "scope" false) "globals" false) "Foo")
      (.literal (.number (.int 5))),
    .name "Foo"]

/-- Whether a value is the number that the guard writes. -/
def Value.isFive : Value → Bool
  | .num (.int 5) => true
  | _ => false

/-- A guard that writes properties can add a built-in to its root; the name then stands for it. -/
theorem World.scopes_exposed :
    Guard.compile "f = x => x, f.scope.globals.Foo = 5, Foo" = .ok exposing ∧
    ∃ root u value v, exposing.alone = some (root, u, value, v) ∧ value.isFive ∧
      u.store.global? root "Foo" = none ∧ (v.store.global? root "Foo").any Value.isFive := by
  have hcompile : Guard.compile "f = x => x, f.scope.globals.Foo = 5, Foo" = .ok exposing := rfl
  have h : exposing.alone.any (fun (root, u, value, v) => value.isFive &&
      (u.store.global? root "Foo").isNone && (v.store.global? root "Foo").any Value.isFive) := by
    decide +kernel
  cases halone : exposing.alone with
  | none => simp [halone] at h
  | some result =>
    obtain ⟨root, u, value, v⟩ := result
    simp only [halone, Option.any_some, Bool.and_eq_true, Option.isNone_iff_eq_none] at h
    exact ⟨hcompile, root, u, value, v, rfl, h.1.1, h.1.2, h.2⟩

end GuardedText
