import Mathlib
import GuardedText.Eval.Call
import GuardedText.Proofs.Result
import GuardedText.Proofs.Value.Direct

/-
  Properties of a whole evaluation. What evaluation does to the objects that exist is little:
  built-in functions and methods only make new objects, and waiting marks a value as taken. A
  property of the objects that outlives this, together with the faults that are allowed to stop an
  evaluation, is a `Regime`; every operation that touches no names, no properties and no functions
  of guards then obeys it (`Eval.Obeys`), if the functions it calls do.
-/

set_option mvcgen.warning false

namespace GuardedText

open Std.Do

/-- An object that is no function of a guard and no frame, nor an expression of a function or a
syntax that a guard has put another one into. -/
def Obj.IsPlain : Obj → Prop
  | .arrow _ _ _ _ | .frame _ _ _ | .expression _ _ | .node _ (some _) => False
  | _ => True

/-- What evaluation keeps true of the objects, and which faults may stop it. -/
class Regime where
  /-- What holds of the objects. -/
  inv : Store → Prop
  /-- The faults that may stop an evaluation, and among which objects. -/
  may : Fault → Store → Prop
  /-- Only a fault by which evaluation leaves an expression can be ruled out. -/
  ordinary : ∀ {e : Fault} {s : Store}, ¬ e.IsControl → may e s
  /-- New objects of the built-in functions do no harm. -/
  push : ∀ {s : Store} {o : Obj}, inv s → o.IsPlain → inv (s.push o)
  /-- Nor does taking a value that was waited for. -/
  spend : ∀ {s : Store} {r : Ref} {p : Pending}, inv s → s[r]? = some (.pending p) →
    inv (s.setIfInBounds r (.pending .spent))

attribute [simp] Regime.ordinary

/-- The objects of a world are as a regime has them. -/
def World.Obeys [Regime] (w : World) : Prop := Regime.inv w.store

/-- A fault may stop an evaluation among any objects that are as a regime has them. -/
def Regime.Allows [Regime] (e : Fault) : Prop := ∀ w : World, w.Obeys → Regime.may e w.store

variable [Regime]

theorem Regime.Allows.may {e : Fault} (h : Allows e) {w : World} (hw : w.Obeys) :
    Regime.may e w.store := h w hw

theorem World.Obeys.push {w : World} (hw : w.Obeys) {o : Obj} (ho : o.IsPlain) :
    World.Obeys { w with store := w.store.push o } :=
  Regime.push hw ho

theorem World.Obeys.spend {w : World} (hw : w.Obeys) {r : Ref} {p : Pending}
    (hr : w.store[r]? = some (.pending p)) :
    World.Obeys { w with store := w.store.setIfInBounds r (.pending .spent) } :=
  Regime.spend hw hr

omit [Regime] in
/-- A triple says something about each result. -/
theorem World.triple_iff {ε α : Type} {x : EStateM ε World α} {P : World → Prop}
    {Q : α → World → Prop} {E : ε → World → Prop} :
    ⦃fun w => ⌜P w⌝⦄ x ⦃post⟨fun a w => ⌜Q a w⌝, fun e w => ⌜E e w⌝⟩⦄ ↔
      ∀ w, P w → (∀ a w', x w = .ok a w' → Q a w') ∧ ∀ e w', x w = .error e w' → E e w' := by
  constructor
  · intro h w hw
    have hx := h w hw
    simp only [wp, PredTrans.apply, EStateM.run] at hx
    refine ⟨fun a w' hok => ?_, fun e w' herror => ?_⟩
    · rw [hok] at hx
      exact hx
    · rw [herror] at hx
      exact hx
  · intro h w hw
    simp only [wp, PredTrans.apply, EStateM.run]
    split
    · exact (h w hw).1 _ _ ‹_›
    · exact (h w hw).2 _ _ ‹_›

/-- A computation that obeys a regime and whose errors have a property, as a triple and by its
results. -/
theorem World.obeys_iff {ε α : Type} {x : EStateM ε World α} {P : ε → World → Prop} :
    ⦃fun w => ⌜w.Obeys⌝⦄ x ⦃post⟨fun _ w => ⌜w.Obeys⌝, fun e w => ⌜P e w ∧ w.Obeys⌝⟩⦄ ↔
      ∀ w, w.Obeys → (∀ a w', x w = .ok a w' → w'.Obeys) ∧
        ∀ e w', x w = .error e w' → P e w' ∧ w'.Obeys :=
  World.triple_iff

namespace Eval

/-- A computation that starts among objects as a regime has them leaves them so, and stops with a
fault that the regime allows or not at all. -/
abbrev Obeys {α : Type} (x : Eval α) : Prop :=
  ⦃fun w => ⌜w.Obeys⌝⦄ x
    ⦃post⟨fun _ w => ⌜w.Obeys⌝, fun e w => ⌜Regime.may e w.store ∧ w.Obeys⌝⟩⦄

@[spec]
theorem obeys_read {α : Type} (f : Store → Except Fault α) (hf : ∀ s, Direct (f s)) :
    Obeys (read f) := by
  mvcgen [read]
  rename_i w hw e he
  exact ⟨Regime.ordinary (hf w.store e he), hw⟩

@[spec]
theorem obeys_lift {α : Type} (x : Except Fault α) (hx : Direct x) : Obeys (lift x) :=
  obeys_read _ fun _ => hx

@[spec]
theorem obeys_refuse {α : Type} (m : Misuse) : Obeys (refuse m : Eval α) := by
  mvcgen [refuse]
  simp_all

@[spec]
theorem obeys_allocate (o : Obj) (ho : o.IsPlain) : Obeys (allocate o) := by
  mvcgen [allocate]
  rename_i w hw
  exact hw.push ho

@[spec]
theorem obeys_mapM {α β : Type} {f : α → Eval β} (hf : ∀ a, Obeys (f a)) (xs : List α) :
    Obeys (xs.mapM f) := by
  induction xs with
  | nil => mvcgen [List.mapM_nil]
  | cons x xs ih =>
    rw [List.mapM_cons]
    mvcgen [hf, ih]

@[spec]
theorem obeys_elim {α β : Type} {x : Eval β} {f : α → Eval β} (hx : Obeys x)
    (hf : ∀ a, Obeys (f a)) (o : Option α) : Obeys (o.elim x f) := by
  cases o with
  | none => exact hx
  | some a => exact hf a

/-! ## Properties -/

@[spec]
theorem obeys_getProperty (object key : Value) : Obeys (getProperty object key) := by
  mvcgen [getProperty] <;> simp [Obj.IsPlain]

/-! ## Built-in functions -/

section

variable {call : Caller} (hcall : ∀ f args, Obeys (call f args))
include hcall

theorem obeys_visit {α : Type} (self f : Value)
    {step : α → Value → Value → Except Fault (α × Bool)} (hstep : ∀ a v w, Direct (step a v w))
    (fuel i : Nat) (acc : α) : Obeys (visit call self f step fuel i acc) := by
  induction fuel generalizing i acc with
  | zero =>
    mvcgen [visit]
    simp_all
  | succ fuel ih =>
    mvcgen [visit, itemsNow, hcall, ih]
    exact hstep _ _ _

theorem obeys_visitAll {α : Type} (self f : Value) (start : α)
    {step : α → Value → Value → Except Fault (α × Bool)} (hstep : ∀ a v w, Direct (step a v w)) :
    Obeys (visitAll call self f start step) := by
  have hvisit := obeys_visit hcall self f hstep
  mvcgen [visitAll, itemsNow, hvisit]
  simp

end

@[spec]
theorem obeys_joined (items : List Value) (separator : Value) : Obeys (joined items separator) := by
  mvcgen [joined] <;> simp

@[spec]
theorem obeys_callText (m : Method) (t : Text) (args : List Value) :
    Obeys (callText m t args) := by
  mvcgen [callText, newList] <;> simp_all [Obj.IsPlain]

@[spec]
theorem obeys_callArray {call : Caller} (hcall : ∀ f args, Obeys (call f args)) (m : Method)
    (self : Value) (args : List Value) : Obeys (callArray call m self args) := by
  have hvisit {α : Type} (self f : Value) (start : α)
      {step : α → Value → Value → Except Fault (α × Bool)}
      (hstep : ∀ a v w, Direct (step a v w)) :=
    obeys_visitAll hcall self f start hstep
  mvcgen [callArray, newList, itemsNow, hvisit]
  all_goals try simp [Obj.IsPlain, direct_ite]
  all_goals assumption

@[spec]
theorem obeys_callMethod {call : Caller} (hcall : ∀ f args, Obeys (call f args)) (m : Method)
    (self : Value) (args : List Value) : Obeys (callMethod call m self args) := by
  have hcallArray := obeys_callArray hcall
  mvcgen [callMethod, hcallArray, -obeys_callArray] <;> simp_all

@[spec]
theorem obeys_onNumber (v : Value) {f : Num → Except Fault Num} (hf : ∀ n, Direct (f n)) :
    Obeys (onNumber v f) := by
  mvcgen [onNumber]
  · simp
  · exact hf _

mutual

theorem obeys_ofJson : ∀ document : Json, Obeys (ofJson document)
  | .null | .bool _ | .number _ | .text _ => by mvcgen [ofJson]
  | .array items => by
    have hitems := obeys_ofItems items
    mvcgen [ofJson, hitems]
    simp [Obj.IsPlain]
  | .object members => by
    have hmembers := obeys_ofMembers members
    mvcgen [ofJson, hmembers]
    simp [Obj.IsPlain]

theorem obeys_ofItems : ∀ items : List Json, Obeys (ofItems items)
  | [] => by mvcgen [ofItems]
  | item :: items => by
    have hitem := obeys_ofJson item
    have hitems := obeys_ofItems items
    mvcgen [ofItems, hitem, hitems]

theorem obeys_ofMembers : ∀ members : List (Text × Json), Obeys (ofMembers members)
  | [] => by mvcgen [ofMembers]
  | (_, item) :: members => by
    have hitem := obeys_ofJson item
    have hmembers := obeys_ofMembers members
    mvcgen [ofMembers, hitem, hmembers]

end

@[spec]
theorem obeys_parseJson (t : Text) : Obeys (parseJson t) := by
  mvcgen [parseJson, obeys_ofJson]

@[spec]
theorem obeys_callBuiltin (f : Builtin) (args : List Value) : Obeys (callBuiltin f args) := by
  mvcgen [callBuiltin, newList]
  all_goals try simp [Obj.IsPlain]
  all_goals assumption

@[spec]
theorem obeys_convert (t : HostType) (args : List Value) : Obeys (convert t args) := by
  mvcgen [convert]
  all_goals try simp_all [Obj.IsPlain]
  split <;> simp

@[spec]
theorem obeys_callHost (f : HostFunction) (args : List Value) : Obeys (callHost f args) := by
  mvcgen [callHost] <;> simp_all [Obj.IsPlain]

/-! ## Names -/

@[spec]
theorem obeys_lookupName (frame : Ref) (name : Text) : Obeys (lookupName frame name) := by
  mvcgen [lookupName]
  simp_all

@[spec]
theorem obeys_builtin (b : Builtin) : Obeys (builtin b) := by
  mvcgen [builtin]
  simp [Obj.IsPlain]

@[spec]
theorem obeys_builtins (table : List (String × Builtin)) : Obeys (builtins table) := by
  mvcgen [builtins]

@[spec]
theorem obeys_builtinObject (table : List (String × Builtin)) :
    Obeys (builtinObject table) := by
  mvcgen [builtinObject]
  simp [Obj.IsPlain]

/-- The table of the built-ins is the object that was made last. -/
theorem newGlobals_last (w : World) (hw : w.Obeys) :
    (∀ r w', newGlobals w = .ok r w' →
      ∃ s entries, Regime.inv s ∧ r = s.size ∧ w'.store = s.push (.dict entries)) ∧
    ∀ e w', newGlobals w = .error e w' → Regime.may e w'.store ∧ w'.Obeys := by
  revert w
  refine World.triple_iff.1 ?_
  -- Sealed, so that the tables of names are not built when the goal is unfolded.
  have hbuiltins := obeys_builtins
  have hobject := obeys_builtinObject
  unfold newGlobals
  generalize builtins = make at hbuiltins ⊢
  generalize builtinObject = makeObject at hobject ⊢
  mvcgen [hbuiltins, hobject]
  rename_i w hw
  exact ⟨w.store, _, hw, rfl, rfl⟩

theorem obeys_newGlobals : Obeys newGlobals := by
  have hlast := newGlobals_last
  generalize newGlobals = make at hlast ⊢
  refine World.obeys_iff.2 fun w hw => ?_
  obtain ⟨hok, herror⟩ := hlast w hw
  refine ⟨fun r w' h => ?_, herror⟩
  obtain ⟨s, entries, hs, -, hstore⟩ := hok r w' h
  rw [World.Obeys, hstore]
  exact Regime.push hs trivial

/-! ## Parts of evaluation -/

/-- A wait may be stopped only where waiting is forbidden. -/
theorem obeys_wait {waiting : Waiting} (h : waiting = .allowed ∨ Regime.Allows .suspended)
    (v : Value) : Obeys (wait waiting v) := by
  mvcgen [wait, replace]
  all_goals try simp_all
  all_goals
    have hbad (s : Store) : Regime.may .badValue s := Regime.ordinary (by simp)
    grind [→ World.Obeys.spend, → Regime.Allows.may]

@[spec]
theorem obeys_assignWith (op : AssignOp) {current value : Eval Value} {put : Value → Eval Unit}
    (hcurrent : Obeys current) (hvalue : Obeys value) (hput : ∀ v, Obeys (put v)) :
    Obeys (assignWith op current value put) := by
  mvcgen [assignWith, hcurrent, hvalue, hput] <;> simp

@[spec]
theorem obeys_spreadItems (v : Value) : Obeys (spreadItems v) := by
  cases v <;> mvcgen [spreadItems] <;> simp

@[spec]
theorem obeys_spreadEntries (v : Value) : Obeys (spreadEntries v) := by
  cases v <;> mvcgen [spreadEntries]
  simp

/-- An access without a base may be stopped only where it is optional. -/
theorem obeys_demand {optional : Bool} (h : optional = false ∨ Regime.Allows .shortCircuit)
    (v : Value) : Obeys (demand optional v) := by
  mvcgen [demand]
  rename_i w hw
  exact ⟨(h.resolve_left (by simp_all)).may hw, hw⟩

end Eval

end GuardedText
