import GuardedText.Proofs.Eval.Fits
import GuardedText.Proofs.Eval.Prompt

/-
  Expressions that do not wait. Evaluating an expression where it fits is not stopped by a wait, nor
  is any call, whatever calls it makes itself (`prompt_evaluate`, `prompt_callValue`). Forbidding an
  expression without `await` to wait changes nothing (`evaluate_forbidden`).
-/

namespace GuardedText

/-! ## Evaluating -/

/-- The policy of an expression that fits: where waiting is forbidden it does not wait, and no
function in it does. -/
def Policy.fits (waiting : Waiting) : Policy where
  waits := waiting = .allowed
  loose := True
  writes := True
  body e := e.suspends = false

mutual

/-- An expression that fits keeps to the policy. -/
theorem Expr.within_of_fits {waiting : Waiting} :
    ∀ e : Expr, e.Fits waiting → e.Within (.fits waiting) True
  | .literal _, _ | .name _, _ => trivial
  | .array items, h => withinItems_of_fits items h
  | .object entries, h => withinEntries_of_fits entries h
  | .unary _ e, h | .deleteValue e, h | .chain e _, h => e.within_of_fits h
  | .delete place, h => place.within_of_fits h
  | .await e, h => ⟨h.1, e.within_of_fits h.2⟩
  | .binary _ l r, h | .logical _ l r, h => ⟨l.within_of_fits h.1, r.within_of_fits h.2⟩
  | .conditional t c a, h =>
    ⟨t.within_of_fits h.1, c.within_of_fits h.2.1, a.within_of_fits h.2.2⟩
  | .assign _ place value, h => ⟨place.within_of_fits h.1, value.within_of_fits h.2⟩
  | .sequence parts, h => withinAll_of_fits parts h
  | .member o _ _, h => ⟨fun _ => trivial, o.within_of_fits h⟩
  | .index o k _, h => ⟨fun _ => trivial, o.within_of_fits h.1, k.within_of_fits h.2⟩
  | .call callee arguments _, h =>
    ⟨fun _ => trivial, callee.within_of_fits h.1, withinItems_of_fits arguments h.2⟩
  | .arrow _ _, h => h

theorem Place.within_of_fits {waiting : Waiting} :
    ∀ place : Place, place.Fits waiting → place.Within (.fits waiting)
  | .name _, _ => trivial
  | .member object _, h => ⟨trivial, object.within_of_fits h⟩
  | .index object key, h => ⟨trivial, object.within_of_fits h.1, key.within_of_fits h.2⟩

theorem withinAll_of_fits {waiting : Waiting} :
    ∀ es : List Expr, fitsAll waiting es → withinAll (.fits waiting) es
  | [], _ => trivial
  | e :: es, h => ⟨e.within_of_fits h.1, withinAll_of_fits es h.2⟩

theorem withinItems_of_fits {waiting : Waiting} :
    ∀ items : List Item, fitsItems waiting items → withinItems (.fits waiting) items
  | [], _ => trivial
  | .single e :: items, h | .spread e :: items, h =>
    ⟨e.within_of_fits h.1, withinItems_of_fits items h.2⟩

theorem withinEntries_of_fits {waiting : Waiting} :
    ∀ entries : List Entry, fitsEntries waiting entries → withinEntries (.fits waiting) entries
  | [], _ => trivial
  | .named _ e :: entries, h | .spread e :: entries, h =>
    ⟨e.within_of_fits h.1, withinEntries_of_fits entries h.2⟩
  | .computed k e :: entries, h =>
    ⟨k.within_of_fits h.1, e.within_of_fits h.2.1, withinEntries_of_fits entries h.2.2⟩

end

namespace Eval

/-- Evaluating an expression that fits does not end in a wait, if no call does. -/
theorem prompt_evaluate {call : Caller} (hcall : ∀ f args, Prompt (call f args)) {waiting : Waiting}
    (frame : Ref) {e : Expr} (h : e.Fits waiting) : Prompt (evaluate call waiting frame e) := by
  let _ := noWait
  have hmay : Regime.Allows .shortCircuit := fun _ _ => Fault.noConfusion
  exact prompt_iff_obeys.2 (within_evaluate
    (Admits.lenient .inl (fun _ => hmay) (fun _ h => h) hcall)
    (fun _ => hmay) e (e.within_of_fits h))

/-- A call does not end in a wait, whatever calls it makes itself. -/
theorem prompt_callValue (depth : Nat) (f : Value) (args : List Value) :
    Prompt (callValue depth f args) := by
  let _ := noWait
  exact prompt_iff_obeys.2 (@obeys_callValue noWait (fun hs hmem => hs _ hmem)
    (fun ih frame body h => prompt_evaluate ih frame (body.fits_of_not_suspends h)) depth f args)

theorem prompt_run {waiting : Waiting} (frame : Ref) {e : Expr} (h : e.Fits waiting) :
    Prompt (run waiting frame e) :=
  prompt_evaluate (prompt_callValue callLimit) frame h

/-! ## Forbidding what does not happen -/

mutual

/-- Forbidding an expression to wait changes nothing if it does not. -/
theorem evaluate_forbidden (call : Caller) (frame : Ref) : ∀ e : Expr, e.suspends = false →
    evaluate call .forbidden frame e = evaluate call .allowed frame e
  | .literal _, _ | .name _, _ | .delete (.name _), _ | .arrow _ _, _ => by simp only [evaluate]
  | .array items, h => by simp only [evaluate, evaluateItems_forbidden call frame items h]
  | .object entries, h => by simp only [evaluate, evaluateEntries_forbidden call frame entries h]
  | .unary _ e, h | .deleteValue e, h | .chain e _, h | .member e _ _, h
  | .delete (.member e _), h => by
    simp only [evaluate, evaluate_forbidden call frame e h]
  | .await _, h => nomatch h
  | .binary _ l r, h | .logical _ l r, h | .index l r _, h | .delete (.index l r), h => by
    simp only [Expr.suspends, Place.suspends, Bool.or_eq_false_iff] at h
    simp only [evaluate, evaluate_forbidden call frame l h.1, evaluate_forbidden call frame r h.2]
  | .conditional t c a, h => by
    simp only [Expr.suspends, Bool.or_eq_false_iff] at h
    simp only [evaluate, evaluate_forbidden call frame t h.1.1,
      evaluate_forbidden call frame c h.1.2, evaluate_forbidden call frame a h.2]
  | .assign _ (.name _) value, h => by
    simp only [Expr.suspends, Place.suspends, Bool.or_eq_false_iff] at h
    simp only [evaluate, evaluate_forbidden call frame value h.2]
  | .assign _ (.member o _) value, h => by
    simp only [Expr.suspends, Place.suspends, Bool.or_eq_false_iff] at h
    simp only [evaluate, evaluate_forbidden call frame o h.1,
      evaluate_forbidden call frame value h.2]
  | .assign _ (.index o k) value, h => by
    simp only [Expr.suspends, Place.suspends, Bool.or_eq_false_iff] at h
    simp only [evaluate, evaluate_forbidden call frame o h.1.1,
      evaluate_forbidden call frame k h.1.2, evaluate_forbidden call frame value h.2]
  | .sequence parts, h => by simp only [evaluate, evaluateSequence_forbidden call frame parts h]
  | .call callee arguments _, h => by
    simp only [Expr.suspends, Bool.or_eq_false_iff] at h
    simp only [evaluate, evaluate_forbidden call frame callee h.1,
      evaluateItems_forbidden call frame arguments h.2]

theorem evaluateItems_forbidden (call : Caller) (frame : Ref) : ∀ items : List Item,
    suspendsItems items = false →
      evaluateItems call .forbidden frame items = evaluateItems call .allowed frame items
  | [], _ => by simp only [evaluateItems]
  | .single e :: items, h | .spread e :: items, h => by
    simp only [suspendsItems, Bool.or_eq_false_iff] at h
    simp only [evaluateItems, evaluate_forbidden call frame e h.1,
      evaluateItems_forbidden call frame items h.2]

theorem evaluateEntries_forbidden (call : Caller) (frame : Ref) : ∀ entries : List Entry,
    suspendsEntries entries = false → ∀ found,
      evaluateEntries call .forbidden frame found entries =
        evaluateEntries call .allowed frame found entries
  | [], _, _ => by simp only [evaluateEntries]
  | .named _ e :: entries, h, found | .spread e :: entries, h, found => by
    simp only [suspendsEntries, Bool.or_eq_false_iff] at h
    simp only [evaluateEntries, evaluate_forbidden call frame e h.1,
      evaluateEntries_forbidden call frame entries h.2]
  | .computed k e :: entries, h, found => by
    simp only [suspendsEntries, Bool.or_eq_false_iff] at h
    simp only [evaluateEntries, evaluate_forbidden call frame k h.1.1,
      evaluate_forbidden call frame e h.1.2, evaluateEntries_forbidden call frame entries h.2]

theorem evaluateSequence_forbidden (call : Caller) (frame : Ref) : ∀ parts : List Expr,
    suspendsAny parts = false → ∀ last,
      evaluateSequence call .forbidden frame last parts =
        evaluateSequence call .allowed frame last parts
  | [], _, _ => by simp only [evaluateSequence]
  | e :: es, h, last => by
    simp only [suspendsAny, Bool.or_eq_false_iff] at h
    simp only [evaluateSequence, evaluate_forbidden call frame e h.1,
      evaluateSequence_forbidden call frame es h.2]

end

end Eval

end GuardedText
