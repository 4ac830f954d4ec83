import GuardedText.Proofs.Eval.Bodies

/-
  Evaluation without waiting. No function that a guard leaves in the store waits (`World.Prompt`).
  With the demand that no evaluation is stopped by a wait this is a regime (`noWait`), and what
  obeys it is `Eval.Prompt`.
-/

set_option mvcgen.warning false

namespace GuardedText

open Std.Do

/-- A function of a guard does not wait, nor an expression in the syntax of one. -/
def Obj.Prompt : Obj → Prop
  | .arrow _ body _ _ => body.suspends = false
  | .expression e _ => e.suspends = false
  | _ => True

/-- No function of a guard waits, nor what may be put in the place of its body. -/
def World.Prompt (w : World) : Prop := ∀ o ∈ w.store, o.Prompt

/-- What guards see of a body that does not wait does not wait. -/
theorem Expr.exposed_suspends {e : Expr} (h : e.suspends = false) :
    ∀ e' ∈ e.exposed, e'.suspends = false := by
  cases e with
  | chain e closed =>
    intro e' he'
    rcases List.mem_pair.1 he' with rfl | rfl <;> exact h
  | _ =>
    intro e' he'
    cases List.mem_singleton.1 he'
    exact h

/-- The regime in which no function of a guard waits and no wait stops an evaluation. -/
@[reducible]
def noWait : Regime.Lenient :=
  Regime.bodies (·.suspends = false) (·.suspends = false) (fun _ => Expr.exposed_suspends)
    (· ≠ .suspended) fun h hwait => h (Fault.isControl_iff.2 (.inl hwait))

theorem World.prompt_iff_obeys {w : World} : w.Prompt ↔ letI := noWait; w.Obeys := Iff.rfl

/-- A computation that keeps functions from waiting, and whose errors have a property, as a triple
and by its results. -/
theorem World.prompt_iff {ε α : Type} {x : EStateM ε World α} {P : ε → Prop} :
    ⦃fun w => ⌜w.Prompt⌝⦄ x ⦃post⟨fun _ w => ⌜w.Prompt⌝, fun e w => ⌜P e ∧ w.Prompt⌝⟩⦄ ↔
      ∀ w, w.Prompt → (∀ a w', x w = .ok a w' → w'.Prompt) ∧
        ∀ e w', x w = .error e w' → P e ∧ w'.Prompt :=
  letI := noWait
  World.obeys_iff

namespace Eval

/-- A computation on a world in which no function waits leaves such a world and is not stopped by a
wait. -/
abbrev Prompt {α : Type} (x : Eval α) : Prop :=
  ⦃fun w => ⌜w.Prompt⌝⦄ x
    ⦃post⟨fun _ w => ⌜w.Prompt⌝, fun e w => ⌜e ≠ .suspended ∧ w.Prompt⌝⟩⦄

theorem prompt_iff_obeys {α : Type} {x : Eval α} : Prompt x ↔ letI := noWait; Obeys x := Iff.rfl

/-- Asking whether a value is true does not wait. -/
theorem prompt_truthy {x : Eval Value} (hx : Prompt x) :
    Prompt (do lift (Store.truthy (← x)) : Eval Bool) := by
  let _ := noWait
  rw [prompt_iff_obeys] at hx ⊢
  mvcgen [hx]
  simp

theorem prompt_openRoot (context : Ref) : Prompt (openRoot context) := by
  -- Sealed, so that the tables of names are not built when the goal is unfolded.
  have hroot := @obeys_openRoot noWait
  generalize openRoot = root at hroot ⊢
  exact prompt_iff_obeys.2 (hroot context)

end Eval

end GuardedText
