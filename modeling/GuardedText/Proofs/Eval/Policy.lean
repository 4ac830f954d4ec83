import GuardedText.Proofs.Eval.Regime

/-
  What expressions do, and the regimes that admit it. A `Policy` says which of the things that only
  some expressions do an expression may do: wait, leave a chain from outside of it, write
  properties, make functions of some kind. Evaluation follows the expression, so that whatever is
  within a policy obeys every regime that admits the policy (`Eval.within_evaluate`). Along the
  spine of a chain an evaluation may stop for want of a base; the chain turns this into `undefined`
  (`Eval.evaluate_chain`), so there and only there one fault more is allowed (`Regime.lax`).
-/

set_option mvcgen.warning false

namespace GuardedText

open Std.Do

/-! ## Policies -/

/-- What an expression may do. -/
structure Policy where
  /-- It may wait, outside of functions. -/
  waits : Prop
  /-- Optional accesses may stand outside of chains. -/
  loose : Prop
  /-- Properties may be written and removed, outside of functions. -/
  writes : Prop
  /-- The bodies that functions may have. -/
  body : Expr → Prop

mutual

/-- An expression keeps to a policy; `inside` tells whether an optional access may stand on its
spine. -/
def Expr.Within (p : Policy) (inside : Prop) : Expr → Prop
  | .literal _ | .name _ => True
  | .array items => withinItems p items
  | .object entries => withinEntries p entries
  | .unary _ e | .deleteValue e => e.Within p p.loose
  | .delete place => place.Within p
  | .await e => p.waits ∧ e.Within p p.loose
  | .binary _ l r | .logical _ l r => l.Within p p.loose ∧ r.Within p p.loose
  | .conditional t c a => t.Within p p.loose ∧ c.Within p p.loose ∧ a.Within p p.loose
  | .assign _ place value => place.Within p ∧ value.Within p p.loose
  | .sequence parts => withinAll p parts
  | .member o _ optional => (optional = true → inside) ∧ o.Within p inside
  | .index o k optional => (optional = true → inside) ∧ o.Within p inside ∧ k.Within p p.loose
  | .call callee arguments optional =>
    (optional = true → inside) ∧ callee.Within p inside ∧ withinItems p arguments
  | .arrow _ body => p.body body
  | .chain body _ => body.Within p True

/-- What a policy asks of a place that is written or removed. -/
def Place.Within (p : Policy) : Place → Prop
  | .name _ => True
  | .member object _ => p.writes ∧ object.Within p p.loose
  | .index object key => p.writes ∧ object.Within p p.loose ∧ key.Within p p.loose

/-- What a policy asks of some expressions. -/
def withinAll (p : Policy) : List Expr → Prop
  | [] => True
  | e :: es => e.Within p p.loose ∧ withinAll p es

/-- What a policy asks of some items. -/
def withinItems (p : Policy) : List Item → Prop
  | [] => True
  | .single e :: items | .spread e :: items => e.Within p p.loose ∧ withinItems p items

/-- What a policy asks of some entries. -/
def withinEntries (p : Policy) : List Entry → Prop
  | [] => True
  | .named _ e :: entries | .spread e :: entries => e.Within p p.loose ∧ withinEntries p entries
  | .computed k e :: entries =>
    k.Within p p.loose ∧ e.Within p p.loose ∧ withinEntries p entries

end

/-! ## Chains -/

/-- A regime that allows an evaluation to stop for want of a base, too. -/
@[reducible]
def Regime.lax (R : Regime) : Regime :=
  { R with
    may := fun e s => R.may e s ∨ e = .shortCircuit
    ordinary := fun h => .inl (R.ordinary h) }

namespace Eval

/-- What obeys a regime obeys it when more faults are allowed. -/
theorem obeys_lax {R : Regime} {α : Type} {x : Eval α} (hx : Obeys x) : @Obeys R.lax α x := by
  refine (@World.obeys_iff R.lax _ _ _ _).2 fun w hw => ?_
  obtain ⟨hok, herror⟩ := World.obeys_iff.1 hx w hw
  exact ⟨hok, fun e w' h => ⟨.inl (herror e w' h).1, (herror e w' h).2⟩⟩

/-- What a chain makes of the result of its body. -/
def bounded : EStateM.Result Fault World Value → EStateM.Result Fault World Value
  | .error .shortCircuit w => .ok .undefined w
  | result => result

theorem bounded_error {e : Fault} (he : e ≠ .shortCircuit) (w : World) :
    bounded (.error e w) = .error e w := by
  cases e <;> first | rfl | exact absurd rfl he

theorem evaluate_chain (call : Caller) (waiting : Waiting) (frame : Ref) (body : Expr)
    (closed : Bool) (w : World) :
    evaluate call waiting frame (.chain body closed) w =
      bounded (evaluate call waiting frame body w) := by
  simp only [evaluate, tryCatch, tryCatchThe, MonadExceptOf.tryCatch, EStateM.tryCatch]
  cases evaluate call waiting frame body w with
  | ok v w' => rfl
  | error e w' =>
    by_cases he : e = .shortCircuit
    · subst he
      rfl
    · rw [bounded_error he]
      simp only [he, if_false]
      rfl

/-- A chain goes on with `undefined` where its body stops for want of a base. -/
theorem obeys_chain {R : Regime} {call : Caller} {waiting : Waiting} {frame : Ref}
    {body : Expr} (hbody : @Obeys R.lax _ (evaluate call waiting frame body))
    (closed : Bool) : Obeys (evaluate call waiting frame (.chain body closed)) := by
  refine World.obeys_iff.2 fun w hw => ?_
  obtain ⟨hok, herror⟩ := (@World.obeys_iff R.lax _ _ _ _).1 hbody w hw
  rw [evaluate_chain]
  cases hresult : evaluate call waiting frame body w with
  | ok v w' => exact ⟨fun _ _ h => by cases h; exact hok v w' hresult, nofun⟩
  | error e w' =>
    obtain ⟨hmay, hw'⟩ := herror e w' hresult
    by_cases he : e = .shortCircuit
    · subst he
      exact ⟨fun _ _ h => by cases h; exact hw', nofun⟩
    · rw [bounded_error he]
      exact ⟨nofun, fun _ _ h => by cases h; exact ⟨hmay.resolve_right he, hw'⟩⟩

/-- Where an optional access stands on a spine, it may stop for want of a base. -/
theorem spine_may [R : Regime] {optional : Bool} {inside : Prop}
    (hinside : inside → R.Allows .shortCircuit) (h : optional = true → inside) :
    optional = false ∨ R.Allows .shortCircuit := by
  cases optional with
  | false => exact .inl rfl
  | true => exact .inr (hinside (h rfl))

/-! ## Evaluating -/

/-- A regime puts up with all that a policy allows, where functions are called in some way and names
looked up in some frame. -/
structure Admits (R : Regime) (p : Policy) (call : Caller) (waiting : Waiting) (frame : Ref) :
    Prop where
  waits : p.waits → waiting = .allowed ∨ R.Allows .suspended
  loose : p.loose → R.Allows .shortCircuit
  calls : ∀ f args, Obeys (call f args)
  assign : ∀ name v, Obeys (assignName frame name v)
  delete : ∀ name, Obeys (deleteName frame name)
  put : p.writes → ∀ object key v, Obeys (setProperty object key v)
  drop : p.writes → ∀ object key, Obeys (deleteProperty object key)
  close : ∀ params {body}, p.body body → Obeys (evaluate call waiting frame (.arrow params body))

theorem Admits.lax {R : Regime} {p : Policy} {call : Caller} {waiting : Waiting} {frame : Ref}
    (h : Admits R p call waiting frame) : Admits R.lax p call waiting frame where
  waits hp := (h.waits hp).imp_right fun h _ hw => .inl (h.may hw)
  loose _ _ _ := .inr rfl
  calls f args := obeys_lax (h.calls f args)
  assign name v := obeys_lax (h.assign name v)
  delete name := obeys_lax (h.delete name)
  put hp object key v := obeys_lax (h.put hp object key v)
  drop hp object key := obeys_lax (h.drop hp object key)
  close params _ hbody := obeys_lax (h.close params hbody)

mutual

/-- Evaluating an expression within a policy that a regime admits obeys the regime. -/
theorem within_evaluate [R : Regime] {p : Policy} {call : Caller} {waiting : Waiting}
    {frame : Ref} (hR : Admits R p call waiting frame) {inside : Prop}
    (hinside : inside → R.Allows .shortCircuit) :
    ∀ e : Expr, e.Within p inside → Obeys (evaluate call waiting frame e)
  | .literal _, _ => by mvcgen [evaluate]
  | .name n, _ => by mvcgen [evaluate]
  | .array items, h => by
    have hitems := within_evaluateItems hR items h
    mvcgen [evaluate, newList, hitems]
    simp [Obj.IsPlain]
  | .object entries, h => by
    have hentries := within_evaluateEntries hR entries h []
    mvcgen [evaluate, hentries]
    simp [Obj.IsPlain]
  | .unary op e, h => by
    have he := within_evaluate hR hR.loose e h
    mvcgen [evaluate, he] <;> simp
  | .delete (.name n), h => by
    have hdelete := hR.delete n
    mvcgen [evaluate, hdelete]
  | .delete (.member o n), h => by
    have ho := within_evaluate hR hR.loose o h.2
    have hdrop := hR.drop h.1
    mvcgen [evaluate, ho, hdrop]
  | .delete (.index o k), h => by
    have ho := within_evaluate hR hR.loose o h.2.1
    have hk := within_evaluate hR hR.loose k h.2.2
    have hdrop := hR.drop h.1
    mvcgen [evaluate, ho, hk, hdrop]
  | .deleteValue e, h => by
    have he := within_evaluate hR hR.loose e h
    mvcgen [evaluate, he]
  | .await e, h => by
    have he := within_evaluate hR hR.loose e h.2
    have hwait := obeys_wait (hR.waits h.1)
    mvcgen [evaluate, he, hwait]
  | .binary op l r, h => by
    have hl := within_evaluate hR hR.loose l h.1
    have hr := within_evaluate hR hR.loose r h.2
    mvcgen [evaluate, hl, hr]
    simp
  | .logical op l r, h => by
    have hl := within_evaluate hR hR.loose l h.1
    have hr := within_evaluate hR hR.loose r h.2
    mvcgen [evaluate, hl, hr]
    simp
  | .conditional t c a, h => by
    have ht := within_evaluate hR hR.loose t h.1
    have hc := within_evaluate hR hR.loose c h.2.1
    have ha := within_evaluate hR hR.loose a h.2.2
    mvcgen [evaluate, ht, hc, ha]
    simp
  | .assign op (.name n) value, h => by
    have hvalue := within_evaluate hR hR.loose value h.2
    have hassign := hR.assign n
    mvcgen [evaluate, hvalue, hassign]
  | .assign op (.member o n) value, h => by
    have ho := within_evaluate hR hR.loose o h.1.2
    have hvalue := within_evaluate hR hR.loose value h.2
    have hput := hR.put h.1.1
    mvcgen [evaluate, ho, hvalue, hput]
  | .assign op (.index o k) value, h => by
    have ho := within_evaluate hR hR.loose o h.1.2.1
    have hk := within_evaluate hR hR.loose k h.1.2.2
    have hvalue := within_evaluate hR hR.loose value h.2
    have hput := hR.put h.1.1
    mvcgen [evaluate, ho, hk, hvalue, hput]
  | .sequence parts, h => by
    have hparts := within_evaluateSequence hR parts h .undefined
    mvcgen [evaluate, hparts]
  | .member o n optional, h => by
    have ho := within_evaluate hR hinside o h.2
    have hdemand := obeys_demand (spine_may hinside h.1)
    mvcgen [evaluate, ho, hdemand]
  | .index o k optional, h => by
    have ho := within_evaluate hR hinside o h.2.1
    have hk := within_evaluate hR hR.loose k h.2.2
    have hdemand := obeys_demand (spine_may hinside h.1)
    mvcgen [evaluate, ho, hk, hdemand]
  | .call callee arguments optional, h => by
    have hcallee := within_evaluate hR hinside callee h.2.1
    have harguments := within_evaluateItems hR arguments h.2.2
    have hdemand := obeys_demand (spine_may hinside h.1)
    have hcall := hR.calls
    mvcgen [evaluate, hcallee, harguments, hcall, hdemand]
  | .arrow params body, h => hR.close params h
  | .chain body closed, h =>
    obeys_chain (@within_evaluate R.lax p call waiting frame hR.lax True (fun _ _ _ => .inr rfl) body h)
      closed

theorem within_evaluateItems [R : Regime] {p : Policy} {call : Caller} {waiting : Waiting}
    {frame : Ref} (hR : Admits R p call waiting frame) :
    ∀ items : List Item, withinItems p items → Obeys (evaluateItems call waiting frame items)
  | [], _ => by mvcgen [evaluateItems]
  | .single e :: items, h => by
    have he := within_evaluate hR hR.loose e h.1
    have hitems := within_evaluateItems hR items h.2
    mvcgen [evaluateItems, he, hitems]
  | .spread e :: items, h => by
    have he := within_evaluate hR hR.loose e h.1
    have hitems := within_evaluateItems hR items h.2
    mvcgen [evaluateItems, he, hitems]

theorem within_evaluateEntries [R : Regime] {p : Policy} {call : Caller} {waiting : Waiting}
    {frame : Ref} (hR : Admits R p call waiting frame) :
    ∀ entries : List Entry, withinEntries p entries →
      ∀ found, Obeys (evaluateEntries call waiting frame found entries)
  | [], _, _ => by mvcgen [evaluateEntries]
  | .named k e :: entries, h, found => by
    have he := within_evaluate hR hR.loose e h.1
    have hentries := within_evaluateEntries hR entries h.2
    mvcgen [evaluateEntries, he, hentries]
  | .computed k e :: entries, h, found => by
    have hk := within_evaluate hR hR.loose k h.1
    have he := within_evaluate hR hR.loose e h.2.1
    have hentries := within_evaluateEntries hR entries h.2.2
    mvcgen [evaluateEntries, hk, he, hentries]
    simp
  | .spread e :: entries, h, found => by
    have he := within_evaluate hR hR.loose e h.1
    have hentries := within_evaluateEntries hR entries h.2
    mvcgen [evaluateEntries, he, hentries]

theorem within_evaluateSequence [R : Regime] {p : Policy} {call : Caller} {waiting : Waiting}
    {frame : Ref} (hR : Admits R p call waiting frame) :
    ∀ parts : List Expr, withinAll p parts →
      ∀ last, Obeys (evaluateSequence call waiting frame last parts)
  | [], _, _ => by mvcgen [evaluateSequence]
  | e :: es, h, last => by
    have he := within_evaluate hR hR.loose e h.1
    have hes := within_evaluateSequence hR es h.2
    mvcgen [evaluateSequence, he, hes]

end

end Eval

end GuardedText
