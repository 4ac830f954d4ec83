import GuardedText.Proofs.Eval.Policy
import GuardedText.Proofs.Property.Change

/-
  Regimes about the bodies of functions. Assignments, removals and new frames change objects that
  exist or add frames to them, but a function keeps its body as written for good; what a guard may
  put in its place are the expressions that it sees in the syntax of functions
  (`Store.bodyToCall_eq_ok`). A regime that outlives every write and demands something of bodies
  only is `Regime.Lenient`; names, properties and calls then obey it. `Regime.bodies` is the one in
  which all bodies have a property, and all expressions in the syntax of functions another one.
-/

set_option mvcgen.warning false

namespace GuardedText

open Std.Do

/-! ## Syntax of functions -/

/-- What a guard sees in the syntax of a function with a body: the body and what a chain in its
place has inside it. -/
def Expr.exposed : Expr → List Expr
  | .chain e closed => [e, .chain e closed]
  | e => [e]

/-- The syntax of a function in which a guard has put something in the place of the body. -/
def Obj.IsOverridden : Obj → Prop
  | .node _ (some _) => True
  | _ => False

namespace Obj.IsOverridden

variable {o o' : Obj}

theorem setOwn (ho : o.IsOverridden) (attributes : Attributes) :
    (o.setOwn attributes).IsOverridden := by
  cases o <;> exact ho

theorem put {key v : Value} {name : Text} (h : Store.putProperty o key name v = .ok o')
    (ho : o.IsOverridden) : o'.IsOverridden := by
  cases Store.put_of_putProperty h with
  | own _ _ hput => exact hput ▸ ho.setOwn _
  | body => trivial
  | _ => exact ho.elim

theorem drop {key : Value} {name : Text} {left : Obj × Bool}
    (h : Store.dropProperty o key name = .ok left) (ho : o.IsOverridden) :
    left.1.IsOverridden := by
  obtain ⟨o', gone⟩ := left
  cases Store.drop_of_dropProperty h with
  | other => exact ho
  | _ => exact ho.elim

end Obj.IsOverridden

theorem Obj.IsPlain.not_isOverridden {o : Obj} (ho : o.IsPlain) : ¬ o.IsOverridden := by
  cases o with
  | node body put =>
    cases put with
    | none => exact id
    | some put => exact ho.elim
  | _ => exact id

namespace Store

/-- A guard has put something in the place of the body of a function. -/
def Overridden (s : Store) : Prop := ∃ o ∈ s, o.IsOverridden

variable {s : Store} {written : Expr} {attributes : Attributes}

theorem mem_of_get? {v : Value} {o : Obj} (h : s.get? v = some o) : o ∈ s := by
  cases v with
  | ref r => exact Array.mem_of_getElem? h
  | _ => cases h

/-- A call evaluates the body of the function, unless a guard has put an expression of the syntax of
functions in its place. -/
theorem bodyToCall_eq_ok {e : Expr} (h : s.bodyToCall written attributes = .ok e) :
    e = written ∨ s.Overridden ∧ ∃ inner, .expression e inner ∈ s := by
  unfold bodyToCall at h
  split at h
  · rename_i body put hnode
    obtain ⟨v, -, hv⟩ := Option.bind_eq_some_iff.1 hnode
    split at h
    · rename_i inner hput
      cases h
      exact .inr ⟨⟨_, mem_of_get? hv, trivial⟩, inner, mem_of_get? hput⟩
    · cases h
  · cases h
    exact .inl rfl

theorem bodyToCall_of_not_overridden (h : ¬ s.Overridden) :
    s.bodyToCall written attributes = .ok written := by
  unfold bodyToCall
  split
  · rename_i hnode
    obtain ⟨v, -, hv⟩ := Option.bind_eq_some_iff.1 hnode
    exact absurd ⟨_, mem_of_get? hv, trivial⟩ h
  · rfl

@[simp]
theorem direct_bodyToCall (s : Store) (written : Expr) (attributes : Attributes) :
    Direct (s.bodyToCall written attributes) := by
  unfold bodyToCall
  split
  · split <;> simp
  · simp

theorem not_overridden_push (h : ¬ s.Overridden) {o : Obj} (ho : ¬ o.IsOverridden) :
    ¬ Overridden (s.push o) := by
  rintro ⟨p, hp, hover⟩
  rcases Array.mem_push.1 hp with hp | rfl
  · exact h ⟨p, hp, hover⟩
  · exact ho hover

theorem not_overridden_set (h : ¬ s.Overridden) (r : Ref) {o : Obj} (ho : ¬ o.IsOverridden) :
    ¬ Overridden (s.setIfInBounds r o) := by
  rintro ⟨p, hp, hover⟩
  rcases Array.mem_or_eq_of_mem_setIfInBounds hp with hp | rfl
  · exact h ⟨p, hp, hover⟩
  · exact ho hover

theorem Overridden.push (h : s.Overridden) (o : Obj) : Overridden (s.push o) := by
  obtain ⟨p, hp, hover⟩ := h
  exact ⟨p, Array.mem_push_of_mem o hp, hover⟩

/-- What was put in the place of a body may give way to something else, but not vanish. -/
theorem Overridden.set (h : s.Overridden) {r : Ref} {o o' : Obj} (hr : s[r]? = some o)
    (ho : o.IsOverridden → o'.IsOverridden) : Overridden (s.setIfInBounds r o') := by
  obtain ⟨p, hp, hover⟩ := h
  obtain ⟨i, hi⟩ := Array.mem_iff_getElem?.1 hp
  by_cases hir : r = i
  · subst hir
    cases hr.symm.trans hi
    exact ⟨o', Array.mem_of_getElem? (Array.getElem?_setIfInBounds_self_of_lt
      (Array.getElem?_eq_some_iff.1 hr).1), ho hover⟩
  · exact ⟨p, Array.mem_of_getElem? ((Array.getElem?_setIfInBounds_ne hir).trans hi), hover⟩

end Store

/-! ## Regimes that outlive every write -/

/-- A regime that outlives every write to a property or a variable and every new frame, and every
new function whose body is as it demands. -/
class Regime.Lenient extends Regime where
  put : ∀ {s : Store} {r : Ref} {o o' : Obj} {key v : Value} {name : Text}, inv s →
    s[r]? = some o → Store.putProperty o key name v = .ok o' → inv (s.setIfInBounds r o')
  drop : ∀ {s : Store} {r : Ref} {o : Obj} {key : Value} {name : Text} {left : Obj × Bool}, inv s →
    s[r]? = some o → Store.dropProperty o key name = .ok left → inv (s.setIfInBounds r left.1)
  rebind : ∀ {s : Store} {r : Ref} {entries : Entries} (entries' : Entries), inv s →
    s[r]? = some (.dict entries) → inv (s.setIfInBounds r (.dict entries'))
  enter : ∀ {s : Store} (locals : Ref) (parent : Option Ref) (globals : Ref), inv s →
    inv (s.push (.frame locals parent globals))
  /-- What the body of a function has to be. -/
  body : Expr → Prop
  expose : ∀ {s : Store} {e e' : Expr} (inner : Option Value), inv s → body e → e' ∈ e.exposed →
    inv (s.push (.expression e' inner))
  close : ∀ {s : Store} {e : Expr} (params : List Text) (frame : Ref) (attributes : Attributes),
    inv s → body e → inv (s.push (.arrow params e frame attributes))
  closed : ∀ {s : Store} {r frame : Ref} {params : List Text} {e : Expr} {attributes : Attributes},
    inv s → s[r]? = some (.arrow params e frame attributes) → body e

section

variable [Regime.Lenient] {w : World} (hw : w.Obeys)
include hw

theorem World.Obeys.put {r : Ref} {o o' : Obj} {key v : Value} {name : Text}
    (hr : w.store[r]? = some o) (h : Store.putProperty o key name v = .ok o') :
    World.Obeys { w with store := w.store.setIfInBounds r o' } :=
  Regime.Lenient.put hw hr h

theorem World.Obeys.drop {r : Ref} {o : Obj} {key : Value} {name : Text} {left : Obj × Bool}
    (hr : w.store[r]? = some o) (h : Store.dropProperty o key name = .ok left) :
    World.Obeys { w with store := w.store.setIfInBounds r left.1 } :=
  Regime.Lenient.drop hw hr h

theorem World.Obeys.written {r frame : Ref} {params : List Text} {e : Expr} {attributes : Attributes}
    (hr : w.store[r]? = some (.arrow params e frame attributes)) : Regime.Lenient.body e :=
  Regime.Lenient.closed hw hr

end

namespace Eval

/-- A computation without the store leaves the world alone. -/
theorem lift_eq {α : Type} (x : Except Fault α) :
    lift x = match x with
      | .ok a => pure a
      | .error e => throw e := by
  cases x <;> rfl

section

variable [Regime]

/-- A computation that starts in a world ends with the objects as a regime has them, and stops with
a fault that the regime allows or not at all. -/
def ObeysFrom {α : Type} (x : Eval α) (w : World) : Prop :=
  (∀ a w', x w = .ok a w' → w'.Obeys) ∧
    ∀ e w', x w = .error e w' → Regime.may e w'.store ∧ w'.Obeys

theorem obeys_iff {α : Type} {x : Eval α} : Obeys x ↔ ∀ w : World, w.Obeys → ObeysFrom x w :=
  World.obeys_iff

theorem obeys_throw {α : Type} {e : Fault} (he : ¬ e.IsControl) : Obeys (throw e : Eval α) := by
  mvcgen
  exact ⟨Regime.ordinary he, ‹_›⟩

/-- Making the syntax of a function obeys a regime that outlives the expressions in it. -/
theorem obeys_exposeBody {body : Expr}
    (hexpose : ∀ {w : World} {e : Expr} (inner : Option Value), w.Obeys → e ∈ body.exposed →
      World.Obeys { w with store := w.store.push (.expression e inner) })
    (frame : Ref) : Obeys (exposeBody frame body) := by
  have hinner : Obeys (exposeInner body) := by
    cases body with
    | chain e closed =>
      unfold exposeInner allocate
      mvcgen
      exact hexpose _ ‹_› (by simp [Expr.exposed])
    | _ => mvcgen [exposeInner]
  have hbody : body ∈ body.exposed := by cases body <;> simp [Expr.exposed]
  have hwritten (inner : Option Value) : Obeys (allocate (.expression body inner)) := by
    unfold allocate
    mvcgen
    exact hexpose inner ‹_› hbody
  have hnode (written : Value) : Obeys (allocate (.node written none)) := obeys_allocate _ trivial
  mvcgen [exposeBody, hinner, hwritten, hnode, -obeys_allocate]

/-- Making a function obeys a regime that outlives the new objects. -/
theorem obeys_closure_of {frame : Ref} {params : List Text} {body : Expr}
    (hexpose : ∀ {w : World} {e : Expr} (inner : Option Value), w.Obeys → e ∈ body.exposed →
      World.Obeys { w with store := w.store.push (.expression e inner) })
    (hclose : ∀ {w : World} (attributes : Attributes), w.Obeys →
      World.Obeys { w with store := w.store.push (.arrow params body frame attributes) })
    (call : Caller) (waiting : Waiting) :
    Obeys (evaluate call waiting frame (.arrow params body)) := by
  have hexposeBody := obeys_exposeBody hexpose frame
  unfold evaluate allocate
  mvcgen [hexposeBody]
  exact hclose _ ‹_›

/-! ## Calls -/

/-- The world in which the body of a function is evaluated. -/
def entered (w : World) (params : List Text) (frame globals : Ref) (args : List Value) : World :=
  { w with
    store := (w.store.push (.dict (bindParams params args))).push
      (.frame w.store.size (some frame) globals) }

omit [Regime] in
theorem enter_apply (w : World) (params : List Text) (frame : Ref) (args : List Value) :
    enter params frame args w = .ok (w.store.size + 1)
      (entered w params frame (((w.store.frame? frame).map fun (_, _, g) => g).getD 0) args) := by
  simp only [enter, allocate, openFrame, bind, EStateM.bind, get, getThe, MonadStateOf.get,
    EStateM.get, set, MonadStateOf.set, EStateM.set, pure, EStateM.pure, entered]
  simp

omit [Regime] in
/-- What calling an object is. -/
theorem callValue_ref (depth : Nat) (r : Ref) (args : List Value) (w : World) :
    callValue (depth + 1) (.ref r) args w = (match w.store[r]? with
      | some (.arrow params written frame attributes) =>
        callFunction (callValue depth) params written frame attributes args
      | some (.method m self _) => callMethod (callValue depth) m self args
      | some (.builtin b _) => callBuiltin b args
      | some (.host h _) => callHost h args
      | _ => throw .badCall : Eval Value) w := rfl

section

variable {call : Caller} {w w' : World} {params : List Text} {written e : Expr} {frame inner : Ref}
  {attributes : Attributes} {args : List Value}

omit [Regime] in
/-- A call of a function evaluates an expression in a new frame. -/
theorem callFunction_of_ok (henter : enter params frame args w = .ok inner w')
    (hbody : w'.store.bodyToCall written attributes = .ok e) :
    callFunction call params written frame attributes args w =
      evaluate call .forbidden inner e w' := by
  simp only [callFunction, read, bind, EStateM.bind, henter, get, getThe, MonadStateOf.get,
    EStateM.get, hbody, pure, EStateM.pure]

/-- A call of a function obeys a regime if the expression that it evaluates does. -/
theorem obeysFrom_callFunction
    (henter : enter params frame args w = .ok inner w') (hw' : w'.Obeys)
    (hevaluate : ∀ e, w'.store.bodyToCall written attributes = .ok e →
      ObeysFrom (evaluate call .forbidden inner e) w') :
    ObeysFrom (callFunction call params written frame attributes args) w := by
  cases hbody : w'.store.bodyToCall written attributes with
  | error e =>
    have hfails : callFunction call params written frame attributes args w = .error e w' := by
      simp only [callFunction, read, bind, EStateM.bind, henter, get, getThe, MonadStateOf.get,
        EStateM.get, hbody]
      rfl
    refine ⟨fun a w'' h => ?_, fun e' w'' h => ?_⟩ <;> cases hfails.symm.trans h
    exact ⟨Regime.ordinary (Store.direct_bodyToCall _ _ _ e hbody), hw'⟩
  | ok e => simpa only [ObeysFrom, callFunction_of_ok henter hbody] using hevaluate e hbody

end

/-- A call obeys a regime if calls of the functions of guards do where calls nest less deep. -/
theorem obeys_callValue_succ {depth : Nat} (hcall : ∀ f args, Obeys (callValue depth f args))
    (hfunction : ∀ {w : World} {r frame : Ref} {params : List Text} {written : Expr}
      {attributes : Attributes}, w.Obeys →
        w.store[r]? = some (.arrow params written frame attributes) → ∀ args,
          ObeysFrom (callFunction (callValue depth) params written frame attributes args) w)
    (f : Value) (args : List Value) : Obeys (callValue (depth + 1) f args) := by
  have hbad : Obeys (throw .badCall : Eval Value) := obeys_throw (by simp)
  refine obeys_iff.2 fun w hw => ?_
  cases f with
  | type t => exact obeys_iff.1 (obeys_convert t args) w hw
  | ref r =>
    have hresult : ObeysFrom (match w.store[r]? with
        | some (.arrow params written frame attributes) =>
          callFunction (callValue depth) params written frame attributes args
        | some (.method m self _) => callMethod (callValue depth) m self args
        | some (.builtin b _) => callBuiltin b args
        | some (.host h _) => callHost h args
        | _ => throw .badCall : Eval Value) w := by
      cases hr : w.store[r]? with
      | none => exact obeys_iff.1 hbad w hw
      | some o =>
        cases o with
        | arrow => exact hfunction hw hr args
        | method m self => exact obeys_iff.1 (obeys_callMethod hcall m self args) w hw
        | builtin b => exact obeys_iff.1 (obeys_callBuiltin b args) w hw
        | host h => exact obeys_iff.1 (obeys_callHost h args) w hw
        | _ => exact obeys_iff.1 hbad w hw
    simpa only [ObeysFrom, callValue_ref] using hresult
  | _ => exact obeys_iff.1 hbad w hw

end

variable [Regime.Lenient]

@[spec]
theorem obeys_setProperty (object key v : Value) : Obeys (setProperty object key v) := by
  have hmay {o : Obj} {name : Text} {e : Fault} (h : Store.putProperty o key name v = .error e) :
      ∀ s, Regime.may e s := fun _ => Regime.ordinary (Store.direct_putProperty o key name v e h)
  mvcgen [setProperty, replace, lift_eq, -obeys_lift]
  all_goals try simp
  all_goals grind [→ World.Obeys.put]

@[spec]
theorem obeys_deleteProperty (object key : Value) : Obeys (deleteProperty object key) := by
  have hmay {o : Obj} {name : Text} {e : Fault} (h : Store.dropProperty o key name = .error e) :
      ∀ s, Regime.may e s := fun _ => Regime.ordinary (Store.direct_dropProperty o key name e h)
  mvcgen [deleteProperty, replace, lift_eq, -obeys_lift]
  all_goals try simp
  all_goals grind [→ World.Obeys.drop]

@[spec]
theorem obeys_updateVariables (frame : Ref) (f : Entries → Entries) :
    Obeys (updateVariables frame f) := by
  mvcgen [updateVariables, replace]
  rename_i w hw _ _ _ _ _ _ hlocals _
  exact Regime.Lenient.rebind _ hw hlocals

@[spec]
theorem obeys_assignName (frame : Ref) (name : Text) (v : Value) :
    Obeys (assignName frame name v) := by
  mvcgen [assignName]

@[spec]
theorem obeys_deleteName (frame : Ref) (name : Text) : Obeys (deleteName frame name) := by
  mvcgen [deleteName]

@[spec]
theorem obeys_openFrame (locals : Ref) (parent : Option Ref) (globals : Ref) :
    Obeys (openFrame locals parent globals) := by
  mvcgen [openFrame]
  rename_i w hw
  exact Regime.Lenient.enter locals parent globals hw

@[spec]
theorem obeys_enter (params : List Text) (frame : Ref) (args : List Value) :
    Obeys (enter params frame args) := by
  mvcgen [enter]

theorem obeys_openRoot (context : Ref) : Obeys (openRoot context) := by
  mvcgen [openRoot, obeys_newGlobals]

/-- A new function whose body is as the regime demands. -/
theorem obeys_closure (call : Caller) (waiting : Waiting) (frame : Ref) (params : List Text)
    {body : Expr} (hbody : Regime.Lenient.body body) :
    Obeys (evaluate call waiting frame (.arrow params body)) :=
  obeys_closure_of (fun inner hw he => Regime.Lenient.expose inner hw hbody he)
    (fun attributes hw => Regime.Lenient.close params frame attributes hw hbody) call waiting

/-- A lenient regime admits a policy that asks of bodies what it asks of them itself. -/
theorem Admits.lenient {p : Policy} {call : Caller} {waiting : Waiting} {frame : Ref}
    (hwaits : p.waits → waiting = .allowed ∨ Regime.Allows .suspended)
    (hloose : p.loose → Regime.Allows .shortCircuit)
    (hbody : ∀ body, p.body body → Regime.Lenient.body body)
    (hcall : ∀ f args, Obeys (call f args)) :
    Admits Regime.Lenient.toRegime p call waiting frame where
  waits := hwaits
  loose := hloose
  calls := hcall
  assign := obeys_assignName frame
  delete := obeys_deleteName frame
  put _ := obeys_setProperty
  drop _ := obeys_deleteProperty
  close params body h := obeys_closure call waiting frame params (hbody body h)

/-- A call obeys a regime if the bodies of functions do where calls nest less deep, and so do the
expressions that a guard may put in their place. -/
theorem obeys_callValue
    (hshown : ∀ {s : Store} {e : Expr} {inner : Option Value}, Regime.inv s →
      .expression e inner ∈ s → Regime.Lenient.body e)
    (hbody : ∀ {depth : Nat}, (∀ f args, Obeys (callValue depth f args)) →
      ∀ frame body, Regime.Lenient.body body →
        Obeys (evaluate (callValue depth) .forbidden frame body))
    (depth : Nat) (f : Value) (args : List Value) : Obeys (callValue depth f args) := by
  induction depth generalizing f args with
  | zero => exact obeys_throw (by simp)
  | succ depth ih =>
    refine obeys_callValue_succ ih (fun {w r frame params written attributes} hw hr args => ?_) f args
    have henter := enter_apply w params frame args
    have hw' := (obeys_iff.1 (obeys_enter params frame args) w hw).1 _ _ henter
    refine obeysFrom_callFunction henter hw' fun e he => ?_
    refine obeys_iff.1 (hbody ih _ e ?_) _ hw'
    rcases Store.bodyToCall_eq_ok he with rfl | ⟨-, inner, hmem⟩
    · exact hw.written hr
    · exact hshown hw' hmem

end Eval

/-! ## Bodies of functions -/

/-- What is said of the body of an object that is a function of a guard, and of an expression in the
syntax of one. -/
def Obj.HasBody (P Q : Expr → Prop) : Obj → Prop
  | .arrow _ body _ _ => P body
  | .expression e _ => Q e
  | _ => True

section

variable {P Q : Expr → Prop}

theorem Obj.IsPlain.hasBody {o : Obj} (ho : o.IsPlain) : o.HasBody P Q := by
  cases o with
  | arrow | frame | expression => exact ho.elim
  | _ => trivial

theorem Obj.HasBody.setOwn {o : Obj} (ho : o.HasBody P Q) (attributes : Attributes) :
    (o.setOwn attributes).HasBody P Q := by
  cases o <;> exact ho

/-- A function keeps its body when it is given a property. -/
theorem Obj.HasBody.put {o o' : Obj} {key v : Value} {name : Text} (ho : o.HasBody P Q)
    (h : Store.putProperty o key name v = .ok o') : o'.HasBody P Q := by
  cases Store.put_of_putProperty h with
  | own _ _ hput => exact hput ▸ ho.setOwn _
  | _ => trivial

theorem Obj.HasBody.drop {o : Obj} {key : Value} {name : Text} {left : Obj × Bool}
    (ho : o.HasBody P Q) (h : Store.dropProperty o key name = .ok left) : left.1.HasBody P Q := by
  obtain ⟨o', gone⟩ := left
  cases Store.drop_of_dropProperty h with
  | other => exact ho
  | _ => trivial

variable {s : Store} (hs : ∀ o ∈ s, o.HasBody P Q)
include hs

theorem Store.hasBody_push {o : Obj} (ho : o.HasBody P Q) : ∀ p ∈ s.push o, p.HasBody P Q := by
  intro p hp
  rcases Array.mem_push.1 hp with hp | rfl
  · exact hs p hp
  · exact ho

theorem Store.hasBody_set (r : Ref) {o : Obj} (ho : o.HasBody P Q) :
    ∀ p ∈ s.setIfInBounds r o, p.HasBody P Q := by
  intro p hp
  rcases Array.mem_or_eq_of_mem_setIfInBounds hp with hp | rfl
  · exact hs p hp
  · exact ho

end

/-- The regime in which the bodies of all functions have one property and the expressions in their
syntax another one. -/
@[reducible]
def Regime.bodies (P Q : Expr → Prop) (hexposed : ∀ e, P e → ∀ e' ∈ e.exposed, Q e')
    (may : Fault → Prop) (ordinary : ∀ {e : Fault}, ¬ e.IsControl → may e) : Regime.Lenient where
  inv s := ∀ o ∈ s, o.HasBody P Q
  may e _ := may e
  ordinary := ordinary
  push hs ho := Store.hasBody_push hs (Obj.IsPlain.hasBody ho)
  spend {_ r _} hs _ := Store.hasBody_set hs r trivial
  put {_ r _ _ _ _ _} hs hr h :=
    Store.hasBody_set hs r (Obj.HasBody.put (hs _ (Array.mem_of_getElem? hr)) h)
  drop {_ r _ _ _ _} hs hr h :=
    Store.hasBody_set hs r (Obj.HasBody.drop (hs _ (Array.mem_of_getElem? hr)) h)
  rebind {_ r _} _ hs _ := Store.hasBody_set hs r trivial
  enter _ _ _ hs := Store.hasBody_push hs trivial
  body := P
  expose _ hs he hmem := Store.hasBody_push hs (hexposed _ he _ hmem)
  close _ _ _ hs hbody := Store.hasBody_push hs hbody
  closed hs hr := hs _ (Array.mem_of_getElem? hr)

end GuardedText
