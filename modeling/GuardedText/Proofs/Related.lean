import Mathlib.Data.List.Forall2
import GuardedText.Fault
import GuardedText.Table

/-
  Results that are related part by part: optional values, lists, tables, and computations that end
  with related results or with the same fault.
-/

section

variable {α β γ δ : Type} {R : α → β → Prop} {S : γ → δ → Prop}

/-! ## Optional values and lists -/

theorem Option.Rel.bind {a : Option α} {b : Option β} {f : α → Option γ} {g : β → Option δ}
    (h : Option.Rel R a b) (hfg : ∀ a b, R a b → Option.Rel S (f a) (g b)) :
    Option.Rel S (a.bind f) (b.bind g) := by
  cases h with
  | none => exact .none
  | some h => exact hfg _ _ h

theorem Option.Rel.map {a : Option α} {b : Option β} {f : α → γ} {g : β → δ}
    (h : Option.Rel R a b) (hfg : ∀ a b, R a b → S (f a) (g b)) :
    Option.Rel S (a.map f) (b.map g) := by
  cases h with
  | none => exact .none
  | some h => exact .some (hfg _ _ h)

theorem Option.Rel.getD {a : Option α} {b : Option β} {c : α} {d : β} (h : Option.Rel R a b)
    (hcd : R c d) : R (a.getD c) (b.getD d) := by
  cases h with
  | none => exact hcd
  | some h => exact h

theorem Option.Rel.isSome_eq {a : Option α} {b : Option β} (h : Option.Rel R a b) :
    a.isSome = b.isSome := by
  cases h <;> rfl

theorem Option.Rel.isNone_eq {a : Option α} {b : Option β} (h : Option.Rel R a b) :
    a.isNone = b.isNone := by
  cases h <;> rfl

namespace List.Forall₂

variable {xs : List α} {ys : List β}

theorem getElem? (h : List.Forall₂ R xs ys) (i : Nat) : Option.Rel R xs[i]? ys[i]? := by
  induction h generalizing i with
  | nil => exact .none
  | cons h _ ih =>
    cases i with
    | zero => exact .some h
    | succ i => exact ih i

theorem getD (h : List.Forall₂ R xs ys) (i : Nat) {a : α} {b : β} (hab : R a b) :
    R (xs.getD i a) (ys.getD i b) := by
  rw [List.getD_eq_getElem?_getD, List.getD_eq_getElem?_getD]
  exact (h.getElem? i).getD hab

theorem headD (h : List.Forall₂ R xs ys) {a : α} {b : β} (hab : R a b) :
    R (xs.headD a) (ys.headD b) := by
  cases h with
  | nil => exact hab
  | cons h _ => exact h

theorem set (h : List.Forall₂ R xs ys) (i : Nat) {a : α} {b : β} (hab : R a b) :
    List.Forall₂ R (xs.set i a) (ys.set i b) := by
  induction h generalizing i with
  | nil => exact .nil
  | cons h hs ih =>
    cases i with
    | zero => exact .cons hab hs
    | succ i => exact .cons h (ih i)

theorem append {xs' : List α} {ys' : List β} (h : List.Forall₂ R xs ys)
    (h' : List.Forall₂ R xs' ys') : List.Forall₂ R (xs ++ xs') (ys ++ ys') :=
  List.rel_append h h'

theorem map {f : α → γ} {g : β → δ} (h : List.Forall₂ R xs ys)
    (hfg : ∀ a b, R a b → S (f a) (g b)) : List.Forall₂ S (xs.map f) (ys.map g) :=
  List.rel_map (fun a b => hfg a b) h

theorem flatMap {f : α → List γ} {g : β → List δ} (h : List.Forall₂ R xs ys)
    (hfg : ∀ a b, R a b → List.Forall₂ S (f a) (g b)) :
    List.Forall₂ S (xs.flatMap f) (ys.flatMap g) :=
  List.rel_flatMap h fun a b => hfg a b

theorem filter {f : α → Bool} {g : β → Bool} (h : List.Forall₂ R xs ys)
    (hfg : ∀ a b, R a b → f a = g b) : List.Forall₂ R (xs.filter f) (ys.filter g) :=
  List.rel_filter (fun a b hab => Bool.eq_iff_iff.1 (hfg a b hab)) h

theorem replicate (n : Nat) {a : α} {b : β} (hab : R a b) :
    List.Forall₂ R (List.replicate n a) (List.replicate n b) := by
  induction n with
  | zero => exact .nil
  | succ n ih => exact .cons hab ih

/-- A function that makes nothing of the difference makes the same of related lists. -/
theorem map_eq {f : α → γ} {g : β → γ} (h : List.Forall₂ R xs ys)
    (hfg : ∀ a b, R a b → f a = g b) : xs.map f = ys.map g := by
  induction h with
  | nil => rfl
  | cons h _ ih => rw [List.map_cons, List.map_cons, hfg _ _ h, ih]

theorem any_eq {f : α → Bool} {g : β → Bool} (h : List.Forall₂ R xs ys)
    (hfg : ∀ a b, R a b → f a = g b) : xs.any f = ys.any g := by
  induction h with
  | nil => rfl
  | cons h _ ih => rw [List.any_cons, List.any_cons, hfg _ _ h, ih]

theorem findIdx?_eq {f : α → Bool} {g : β → Bool} (h : List.Forall₂ R xs ys)
    (hfg : ∀ a b, R a b → f a = g b) : xs.findIdx? f = ys.findIdx? g := by
  induction h with
  | nil => rfl
  | cons h _ ih => rw [List.findIdx?_cons, List.findIdx?_cons, hfg _ _ h, ih]

theorem find? {f : α → Bool} {g : β → Bool} (h : List.Forall₂ R xs ys)
    (hfg : ∀ a b, R a b → f a = g b) : Option.Rel R (xs.find? f) (ys.find? g) := by
  induction h with
  | nil => exact .none
  | @cons a b _ _ hab _ ih =>
    rw [List.find?_cons, List.find?_cons, hfg a b hab]
    cases g b with
    | true => exact .some hab
    | false => exact ih

theorem zipIdx (h : List.Forall₂ R xs ys) (n : Nat) :
    List.Forall₂ (fun a b => R a.1 b.1 ∧ a.2 = b.2) (xs.zipIdx n) (ys.zipIdx n) := by
  induction h generalizing n with
  | nil => exact .nil
  | cons h _ ih => exact .cons ⟨h, rfl⟩ (ih (n + 1))

end List.Forall₂

namespace GuardedText

/-! ## Computations -/

/-- Two computations end with related results or with the same fault. -/
inductive Except.Agree (R : α → β → Prop) : Except Fault α → Except Fault β → Prop where
  | ok {a : α} {b : β} : R a b → Agree R (.ok a) (.ok b)
  | error (e : Fault) : Agree R (.error e) (.error e)

namespace Except.Agree

theorem of_eq {x y : Except Fault α} (h : x = y) : Except.Agree Eq x y := by
  subst h
  cases x with
  | ok a => exact .ok rfl
  | error e => exact .error e

theorem eq {x y : Except Fault α} (h : Except.Agree Eq x y) : x = y := by
  cases h with
  | ok h => rw [h]
  | error => rfl

theorem bind {x : Except Fault α} {y : Except Fault β} {f : α → Except Fault γ}
    {g : β → Except Fault δ} (h : Except.Agree R x y)
    (hfg : ∀ a b, R a b → Except.Agree S (f a) (g b)) : Except.Agree S (x >>= f) (y >>= g) := by
  cases h with
  | ok h => exact hfg _ _ h
  | error e => exact .error e

/-- Computations that start alike go on with one value. -/
theorem bind_eq {x y : Except Fault γ} {f : γ → Except Fault α} {g : γ → Except Fault β}
    (h : x = y) (hfg : ∀ c, Except.Agree R (f c) (g c)) :
    Except.Agree R (x >>= f) (y >>= g) :=
  (of_eq h).bind fun c _ hcd => hcd ▸ hfg c

/-- What is known of each result alone joins what is known of both. -/
theorem and {x : Except Fault α} {y : Except Fault β} {P : α → Prop} {Q : β → Prop}
    (h : Except.Agree R x y) (hx : ∀ a, x = .ok a → P a) (hy : ∀ b, y = .ok b → Q b) :
    Except.Agree (fun a b => R a b ∧ P a ∧ Q b) x y := by
  cases h with
  | ok h => exact .ok ⟨h, hx _ rfl, hy _ rfl⟩
  | error e => exact .error e

end Except.Agree

end GuardedText

namespace List.Forall₂

open GuardedText (Fault)

variable {xs : List α} {ys : List β}

theorem mapM_eq {f : α → Except Fault γ} {g : β → Except Fault γ} (h : List.Forall₂ R xs ys)
    (hfg : ∀ a b, R a b → f a = g b) : xs.mapM f = ys.mapM g := by
  induction h with
  | nil => rfl
  | cons h _ ih => rw [List.mapM_cons, List.mapM_cons, hfg _ _ h, ih]

theorem mapM_agree {S : γ → δ → Prop} {f : α → Except Fault γ} {g : β → Except Fault δ}
    (h : List.Forall₂ R xs ys) (hfg : ∀ a b, R a b → GuardedText.Except.Agree S (f a) (g b)) :
    GuardedText.Except.Agree (List.Forall₂ S) (xs.mapM f) (ys.mapM g) := by
  induction h with
  | nil => exact .ok .nil
  | cons h _ ih =>
    rw [List.mapM_cons, List.mapM_cons]
    exact (hfg _ _ h).bind fun c d hcd => ih.bind fun cs ds hcds => .ok (.cons hcd hcds)

/-- A loop that makes nothing of the difference ends alike on related lists. -/
theorem forIn_eq {R : α → α → Prop} {xs ys : List α} {f : α → γ → Except Fault (ForInStep γ)}
    (h : List.Forall₂ R xs ys) (hf : ∀ a b c, R a b → f a c = f b c) (c : γ) :
    forIn xs c f = forIn ys c f := by
  induction h generalizing c with
  | nil => rfl
  | cons h _ ih =>
    rw [List.forIn_cons, List.forIn_cons, hf _ _ _ h]
    congr 1
    funext step
    cases step with
    | done => rfl
    | yield c => exact ih c

end List.Forall₂

end
