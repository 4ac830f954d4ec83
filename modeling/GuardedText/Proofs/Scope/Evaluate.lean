import GuardedText.Proofs.Eval.Bodies
import GuardedText.Proofs.Scope.Scoped

/-
  Evaluation in scoped stores. Evaluating an expression and calling a function keep a store scoped
  and let it grow, whether they end with a value or a fault (`Eval.scoped_evaluate`,
  `Eval.scoped_callValue`): assigning changes the value of a parameter or an entry of the context,
  removing leaves parameters alone, and a call opens a frame over its parameters.
-/

set_option mvcgen.warning false

namespace GuardedText

open Std.Do

/-- The frame and the table that a name is assigned in: where it is bound, else in the context. -/
theorem Store.Nested.assigned {s : Store} {context globals r : Ref} {tables : List Ref}
    (h : s.Nested context globals r tables) (name : Text) :
    ∃ locals parent, s.frame? ((s.owner? name s.size r).getD (s.outermost s.size r)) =
      some (locals, parent, globals) ∧ (parent ≠ none → (s.binding? locals name).isSome) := by
  obtain ⟨hnone, -⟩ | ⟨owner, locals, parent, howner, hframe, hbound, -⟩ := h.owner? name h.lt_size
  · rw [hnone]
    exact ⟨context, none, h.frame?_outermost h.lt_size, fun h => absurd rfl h⟩
  · rw [howner]
    exact ⟨locals, parent, hframe, fun _ => hbound⟩

/-- The variables of a frame take other values; those of a call keep their names. -/
theorem Store.Scoped.rebind {s : Store} (hs : s.Scoped) {r locals globals : Ref}
    {parent : Option Ref} (hr : s.frame? r = some (locals, parent, globals))
    {entries entries' : Entries} (hlocals : s[locals]? = some (.dict entries))
    (hkeys : parent ≠ none → Table.keys entries' = Table.keys entries) :
    Scoped (s.setIfInBounds locals (.dict entries')) ∧
      s.Grows (s.setIfInBounds locals (.dict entries')) := by
  have hrenewed : (Obj.dict entries).Renewed (.dict entries') ∨
      s.IsContext locals ∧ (Obj.dict entries).IsPlain ∧ (Obj.dict entries').IsPlain := by
    cases parent with
    | none => exact .inr ⟨⟨globals, r, hr⟩, trivial, trivial⟩
    | some parent => exact .inl (.bound (hkeys (nomatch ·)))
  have hbuiltins : ¬ s.IsBuiltins locals := by
    cases parent with
    | none => exact (hs.apart.ofContext ⟨globals, r, hr⟩).2
    | some parent => exact hs.apart.ofVariables ⟨parent, globals, r, hr⟩
  exact ⟨hs.set hlocals hrenewed hbuiltins, .set hlocals hrenewed hbuiltins⟩

/-- The regime of stores that are scoped and have grown from one. -/
@[reducible]
def Regime.scoping (s₀ : Store) : Regime where
  inv s := s.Scoped ∧ s₀.Grows s
  may _ _ := True
  ordinary _ := trivial
  push hs ho := ⟨hs.1.push ho, hs.2.trans (.push _)⟩
  spend {s r p} hs hr := by
    have hbuiltins : ¬ s.IsBuiltins r := fun hr' => by
      obtain ⟨entries, hentries⟩ := hs.1.builtins_isTable hr'
      cases hr.symm.trans hentries
    exact ⟨hs.1.set hr (.inl (.awaited _ _)) hbuiltins,
      hs.2.trans (.set hr (.inl (.awaited _ _)) hbuiltins)⟩

namespace Eval

section

variable {s₀ : Store} {frame : Ref}

/-! ## Names -/

theorem updateVariables_eq {w : World} {locals globals : Ref} {parent : Option Ref}
    (hframe : w.store.frame? frame = some (locals, parent, globals)) (f : Entries → Entries) :
    updateVariables frame f w = .ok () (match w.store[locals]? with
      | some (.dict entries) => { w with store := w.store.setIfInBounds locals (.dict (f entries)) }
      | _ => w) := by
  simp only [updateVariables, bind, EStateM.bind, get, getThe, MonadStateOf.get, EStateM.get,
    hframe]
  cases w.store[locals]? with
  | none => rfl
  | some o => cases o <;> rfl

/-- Changing the variables of a frame, where those of a call keep their names. -/
theorem scoped_updateVariables {w : World} (hw : @World.Obeys (.scoping s₀) w)
    {locals globals : Ref} {parent : Option Ref}
    (hframe : w.store.frame? frame = some (locals, parent, globals)) {f : Entries → Entries}
    (hkeys : parent ≠ none → ∀ {entries}, w.store[locals]? = some (.dict entries) →
      Table.keys (f entries) = Table.keys entries) :
    ∃ w', updateVariables frame f w = .ok () w' ∧ @World.Obeys (.scoping s₀) w' := by
  refine ⟨_, updateVariables_eq hframe f, ?_⟩
  split
  · rename_i entries hlocals
    obtain ⟨hs, hgrows⟩ := hw.1.rebind hframe hlocals fun hparent => hkeys hparent hlocals
    exact ⟨hs, hw.2.trans hgrows⟩
  · exact hw

/-- Assigning gives a parameter another value or changes the context. -/
theorem scoped_assignName (hframe : (s₀.frame? frame).isSome) (name : Text) (v : Value) :
    @Obeys (.scoping s₀) _ (assignName frame name v) := by
  refine (@World.obeys_iff (.scoping s₀) _ _ _ _).2 fun w hw => ?_
  obtain ⟨context, globals, tables, hnested⟩ := hw.1.nested (hw.2.frame?_isSome hframe)
  obtain ⟨locals, parent, howner, hbound⟩ := hnested.assigned name
  obtain ⟨w', hok, hw'⟩ := scoped_updateVariables hw howner (f := Table.insert (.name name) v)
    fun hparent entries hlocals => by
      obtain ⟨names, hnames, hmem⟩ := Store.binding?_isSome.1 (hbound hparent)
      rw [Store.names?_dict hlocals] at hnames
      rw [Table.keys_insert, if_pos (Option.some.inj hnames ▸ hmem)]
  have hassign : assignName frame name v w = .ok () w' := hok
  rw [hassign]
  exact ⟨fun _ _ h => by cases h; exact hw', nofun⟩

/-- Removing a name changes nothing but the context. -/
theorem scoped_deleteName (hframe : (s₀.frame? frame).isSome) (name : Text) :
    @Obeys (.scoping s₀) _ (deleteName frame name) := by
  refine (@World.obeys_iff (.scoping s₀) _ _ _ _).2 fun w hw => ?_
  obtain ⟨context, globals, tables, hnested⟩ := hw.1.nested (hw.2.frame?_isSome hframe)
  suffices ∃ gone w', deleteName frame name w = .ok gone w' ∧
      @World.Obeys (.scoping s₀) w' by
    obtain ⟨gone, w', hok, hw'⟩ := this
    rw [hok]
    exact ⟨fun _ _ h => by cases h; exact hw', nofun⟩
  simp only [deleteName, bind, EStateM.bind, get, getThe, MonadStateOf.get, EStateM.get]
  obtain ⟨hnone, -⟩ | ⟨owner, locals, parent, howner, hlocals, -, -⟩ :=
    hnested.owner? name hnested.lt_size
  · rw [hnone]
    exact ⟨true, w, rfl, hw⟩
  · simp only [howner, hlocals]
    cases parent with
    | some parent => exact ⟨false, w, rfl, hw⟩
    | none =>
      obtain ⟨w', hok, hw'⟩ := scoped_updateVariables hw hlocals
        (f := Table.erase (.name name)) fun hparent => absurd rfl hparent
      refine ⟨true, w', ?_, hw'⟩
      simp only [EStateM.bind, hok]
      rfl

/-! ## Expressions -/

/-- A regime of scoped stores admits what leaves properties alone. -/
theorem admits_sparing {call : Caller} (waiting : Waiting) (hframe : (s₀.frame? frame).isSome)
    (hcall : ∀ f args, @Obeys (.scoping s₀) _ (call f args)) :
    Admits (.scoping s₀) .sparing call waiting frame where
  waits _ := .inr fun _ _ => trivial
  loose _ := fun _ _ => trivial
  calls := hcall
  assign := scoped_assignName hframe
  delete := scoped_deleteName hframe
  put h := h.elim
  drop h := h.elim
  close params _ hbody := @obeys_closure_of (.scoping s₀) _ _ _
    (fun {_ e} inner hw _ => ⟨hw.1.push_expression e inner, hw.2.trans (.push _)⟩)
    (fun attributes hw => ⟨hw.1.push_arrow (hw.2.frame?_isSome hframe) params hbody attributes,
      hw.2.trans (.push _)⟩) call waiting

/-- Evaluating in a frame that exists keeps a store scoped and lets it grow, if calls do. -/
theorem scoped_evaluate_of {call : Caller}
    (hcall : ∀ f args, @Obeys (.scoping s₀) _ (call f args)) (waiting : Waiting)
    (hframe : (s₀.frame? frame).isSome) {e : Expr} (he : e.writes = false) :
    @Obeys (.scoping s₀) _ (evaluate call waiting frame e) :=
  @within_evaluate (.scoping s₀) _ _ _ _ (admits_sparing waiting hframe hcall) True
    (fun _ _ _ => trivial) e (e.within_sparing he)

end

/-! ## Calls -/

theorem enter_eq {w : World} {frame l globals : Ref} {p : Option Ref}
    (hframe : w.store.frame? frame = some (l, p, globals)) (params : List Text)
    (args : List Value) :
    enter params frame args w = .ok (w.store.size + 1) (entered w params frame globals args) := by
  rw [enter_apply, hframe]
  rfl

/-- The variables of a call are the parameters of the function. -/
theorem mem_keys_bindParams (params : List Text) (args : List Value) (key : Key) :
    key ∈ Table.keys (bindParams params args) ↔ ∃ n ∈ params, key = .name n := by
  have hnames : params.zipIdx.map (fun entry => Key.name entry.1) = params.map Key.name := by
    conv_rhs => rw [← List.zipIdx_map_fst 0 params, List.map_map]
    rfl
  rw [bindParams, Table.mem_keys_insertAll, Table.keys, List.map_map]
  change key ∈ params.zipIdx.map (fun entry => Key.name entry.1) ↔ _
  rw [hnames]
  simp [eq_comm]

/-- A call of a function keeps a store scoped and lets it grow. -/
theorem scoped_entered {w : World} (hs : w.store.Scoped) {f frame l globals : Ref}
    {p : Option Ref} {params : List Text} {body : Expr} {attributes : Attributes}
    (hf : w.store[f]? = some (.arrow params body frame attributes))
    (hframe : w.store.frame? frame = some (l, p, globals)) (args : List Value) :
    (entered w params frame globals args).store.Scoped ∧
      w.store.Grows (entered w params frame globals args).store ∧
      (entered w params frame globals args).store.frame? (w.store.size + 1) =
        some (w.store.size, some frame, globals) ∧
      (entered w params frame globals args).store.Binds w.store.size params := by
  let t := w.store.push (.dict (bindParams params args))
  have hgrows : w.store.Grows t := .push _
  have ht : Store.Scoped t := hs.push trivial
  have hlocals : t[w.store.size]? = some (.dict (bindParams params args)) :=
    Array.getElem?_push_size
  obtain ⟨hcontext, -, hbuiltins⟩ := hs.fresh (bindParams params args)
  have hglobals : Store.IsBuiltins t globals := hgrows.isBuiltins ⟨l, p, frame, hframe⟩
  have hsize : t.size = w.store.size + 1 := Array.size_push _
  have hlt : frame < t.size := by
    rw [hsize]
    exact Nat.lt_succ_of_lt (Array.getElem?_eq_some_iff.1 (Store.frame?_eq_some.1 hframe)).1
  have hstands : Store.Stands t t.size w.store.size (some frame) globals :=
    ⟨⟨_, hlocals⟩, ht.builtins_isTable hglobals, hlt, ⟨l, p, hgrows.frame? hframe⟩, f, params, body,
      attributes, Store.getElem?_push_of_eq _ hf, _, Store.names?_dict hlocals,
      mem_keys_bindParams params args⟩
  refine ⟨ht.push_frame hstands (ht.apart.push_call hglobals ⟨hcontext, hbuiltins⟩),
    hgrows.trans (.push _), ?_, ?_⟩
  · refine (Store.frame?_push _ _).trans (if_pos ?_)
    exact hsize.symm
  · exact ⟨_, Store.names?_dict (Store.getElem?_push_of_eq _ hlocals),
      mem_keys_bindParams params args⟩

/-- Calling a value keeps a store scoped and lets it grow. -/
theorem scoped_callValue (depth : Nat) (s₀ : Store) (f : Value) (args : List Value) :
    @Obeys (.scoping s₀) _ (callValue depth f args) := by
  induction depth generalizing s₀ f args with
  | zero => exact @obeys_throw (.scoping s₀) _ _ (by simp)
  | succ depth ih =>
    refine @obeys_callValue_succ (.scoping s₀) depth (ih s₀)
      (fun {w r frame params written attributes} hw hr args => ?_) f args
    obtain ⟨hbody, hframe⟩ := hw.1.closed hr
    obtain ⟨⟨l, p, globals⟩, hframe⟩ := Option.isSome_iff_exists.1 hframe
    obtain ⟨hs, hgrows, hinner, -⟩ := scoped_entered hw.1 hr hframe args
    refine @obeysFrom_callFunction (.scoping s₀) _ _ _ _ _ _ _ _ _ (enter_eq hframe params args)
      ⟨hs, hw.2.trans hgrows⟩ fun e he => ?_
    rw [Store.bodyToCall_of_not_overridden hs.kept] at he
    cases he
    -- The body is evaluated in a store that has grown already, and grows on from there.
    have hevaluate := scoped_evaluate_of (ih (entered w params frame globals args).store)
      .forbidden (by rw [hinner]; rfl) hbody
    have hresults := (@obeys_iff (.scoping _) _ _).1 hevaluate
      (entered w params frame globals args) ⟨hs, .refl _⟩
    exact ⟨fun v w' h => ⟨(hresults.1 v w' h).1, (hw.2.trans hgrows).trans (hresults.1 v w' h).2⟩,
      fun e w' h => ⟨trivial, (hresults.2 e w' h).2.1,
        (hw.2.trans hgrows).trans (hresults.2 e w' h).2.2⟩⟩

end Eval

end GuardedText
