import GuardedText.Proofs.Grown
import GuardedText.Proofs.Property.Element
import GuardedText.Proofs.Scope.Evaluate

/-
  Functions of texts and arrays, found under their names and called (`Eval.invoke`). Looking one up
  makes a new object for it and changes nothing else (`Eval.invoke_method`).
-/

namespace GuardedText

namespace Store

/-- A text or an array has its functions under their names. -/
theorem property_method {s : Store} {object : Value} {elements : List Value}
    {methods : List (String × Method)} (hobject : s.sequence? object = some (elements, methods))
    {name : Text} {m : Method} (hm : methodNamed? methods name = some m) :
    s.property object (.text name) = .ok (.method m) := by
  have hdigits : ¬(name ≠ [] ∧ name.all CodePoint.isDigit = true) := by
    rintro ⟨-, hall⟩
    rw [methodNamed?_eq_none hobject (Text.not_startsSmall_of_digits hall)] at hm
    cases hm
  have hlength : name ≠ Text.ofString "length" := by
    rintro rfl
    have hnone : methodNamed? methods (Text.ofString "length") = none := by
      rcases methods_of_sequence? hobject with rfl | rfl <;> rfl
    rw [hnone] at hm
    cases hm
  rw [property_sequence hobject rfl, sequenceProperty, if_neg hlength,
    index?_of_not_digits hdigits, hm]
  rfl

end Store

namespace Eval

open Store

/-- A function of a value, found under its name and called. -/
def invoke (object : Value) (name : Text) (args : List Value) : Eval Value := do
  let f ← getProperty object (.text name)
  callValue callLimit f args

/-- The world in which a function of a value has been looked up. -/
def lookedUp (w : World) (m : Method) (object : Value) : World := w.grown #[.method m object []]

/-- A function of a text or an array is called on it. -/
theorem invoke_method {w : World} {object : Value} {elements : List Value}
    {methods : List (String × Method)}
    (hobject : w.store.sequence? object = some (elements, methods)) {name : Text} {m : Method}
    (hm : methodNamed? methods name = some m) (args : List Value) :
    invoke object name args w =
      callMethod (callValue (callLimit - 1)) m object args (lookedUp w m object) := by
  have hfound : getProperty object (.text name) w =
      .ok (.ref w.store.size) (lookedUp w m object) := by
    rw [getProperty, read_bind_apply, property_method hobject hm]
    exact allocate_eq _ w
  have hstore : (lookedUp w m object).store[w.store.size]? = some (.method m object []) :=
    get?_grown w _
  show EStateM.bind (getProperty object (.text name)) (callValue callLimit · args) w = _
  rw [EStateM.bind, hfound]
  show callValue (callLimit - 1 + 1) (.ref w.store.size) args (lookedUp w m object) = _
  rw [callValue_ref, hstore]

/-- A function of a text. -/
theorem invoke_text {name : Text} {m : Method} (hm : methodNamed? textMethods name = some m)
    (t : Text) (args : List Value) (w : World) :
    invoke (.text t) name args w = callText m t args (lookedUp w m (.text t)) :=
  have hobject : w.store.sequence? (.text t) = some (characters t, textMethods) := rfl
  invoke_method hobject hm args

end Eval

end GuardedText
