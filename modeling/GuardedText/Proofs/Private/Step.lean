import GuardedText.Proofs.Private.Content
import GuardedText.Proofs.Private.Image

/-
  Computations on worlds that agree. Two of them agree if they end with related results or with the
  same fault, in worlds that agree again and whose host objects have the private attributes that
  they had. Making an object and giving way to one are such steps; everything else that evaluation
  does is put together from them (`Eval.Agree.bind`).
-/

namespace GuardedText

/-! ## What a step may change -/

/-- A world becomes another by making objects, and none of its host objects gains, loses or changes
a private attribute. -/
structure World.Leads (w v : World) : Prop where
  /-- No object goes. -/
  size : w.store.size ≤ v.store.size
  /-- Private attributes stay as they are. -/
  privates : v.store.privates = w.store.privates

theorem World.Leads.refl (w : World) : w.Leads w := ⟨Nat.le_refl _, rfl⟩

theorem World.Leads.trans {w v u : World} (h : w.Leads v) (h' : v.Leads u) : w.Leads u :=
  ⟨Nat.le_trans h.size h'.size, h'.privates.trans h.privates⟩

namespace Store

theorem privates_push (s : Store) {o : Obj} (ho : o.privates = none) :
    privates (s.push o) = s.privates := by
  funext r
  unfold privates
  rw [Array.getElem?_push]
  split
  · rename_i hr
    rw [hr, Array.getElem?_eq_none (Nat.le_refl _)]
    exact ho
  · rfl

theorem privates_set {s : Store} {r : Ref} {o q : Obj} (h : s[r]? = some o)
    (hq : q.privates = o.privates) : privates (s.setIfInBounds r q) = s.privates := by
  funext t
  unfold privates
  rw [Array.getElem?_setIfInBounds]
  split
  · rename_i hr
    subst hr
    rw [if_pos (Array.getElem?_eq_some_iff.1 h).1, h]
    exact hq
  · rfl

theorem Rooted.push {s : Store} (hs : s.Rooted) {o : Obj} (ho : o.Rooted s.size) :
    Rooted (s.push o) := by
  intro r q hq
  rw [Array.getElem?_push] at hq
  split at hq
  · rename_i hr
    obtain rfl := Option.some.inj hq
    exact hr ▸ ho
  · exact hs r q hq

theorem Rooted.set {s : Store} (hs : s.Rooted) {r : Ref} {o q : Obj} (h : s[r]? = some o)
    (hq : o.Keeps q) : Rooted (s.setIfInBounds r q) := by
  intro t u hu
  rw [Array.getElem?_setIfInBounds] at hu
  split at hu
  · rename_i hr
    subst hr
    rw [if_pos (Array.getElem?_eq_some_iff.1 h).1] at hu
    obtain rfl := Option.some.inj hu
    exact hq.rooted r (hs r o h)
  · exact hs t u hu

variable {p : Pairing} {s s' : Store}

/-- Objects that are made on both sides are paired. -/
theorem Agree.push (hs : Store.Agree p s s') {o o' : Obj} (ho : Obj.Agree p o o')
    (hroot : o.Rooted s.size) (hroot' : o'.Rooted s'.size) :
    Store.Agree p (s.push o) (s'.push o') := by
  refine ⟨fun r r' hr => ?_, fun i => ?_, hs.rooted.push hroot, hs.rooted'.push hroot'⟩
  · rw [Array.getElem?_push, Array.getElem?_push]
    have hsize : r = s.size ↔ r' = s'.size := Relator.rel_eq p.unique hr (hs.fresh 0)
    by_cases hnew : r = s.size
    · rw [if_pos hnew, if_pos (hsize.1 hnew)]
      exact .some ho
    · rw [if_neg hnew, if_neg (hnew ∘ hsize.2)]
      exact hs.objects r r' hr
  · have hnext := hs.fresh (1 + i)
    rwa [Array.size_push, Array.size_push, Nat.add_assoc, Nat.add_assoc]

theorem Agree.set (hs : Store.Agree p s s') {r r' : Ref} (hr : p.pairs r r') {o o' q q' : Obj}
    (ho : s[r]? = some o) (ho' : s'[r']? = some o') (hq : Obj.Agree p q q') (hkeeps : o.Keeps q)
    (hkeeps' : o'.Keeps q') :
    Store.Agree p (s.setIfInBounds r q) (s'.setIfInBounds r' q') := by
  refine ⟨fun t t' ht => ?_, fun i => ?_, hs.rooted.set ho hkeeps, hs.rooted'.set ho' hkeeps'⟩
  · rw [Array.getElem?_setIfInBounds, Array.getElem?_setIfInBounds]
    have hsame : r = t ↔ r' = t' := Relator.rel_eq p.unique hr ht
    by_cases hhere : r = t
    · rw [if_pos hhere, if_pos (hsame.1 hhere), if_pos (Array.getElem?_eq_some_iff.1 ho).1,
        if_pos (Array.getElem?_eq_some_iff.1 ho').1]
      exact .some hq
    · rw [if_neg hhere, if_neg (hhere ∘ hsame.2)]
      exact hs.objects t t' ht
  · rw [Array.size_setIfInBounds, Array.size_setIfInBounds]
    exact hs.fresh i

end Store

theorem World.Leads.push (w : World) {o : Obj} (ho : o.privates = none) :
    w.Leads { w with store := w.store.push o } :=
  ⟨by simp, Store.privates_push _ ho⟩

theorem World.Agree.push {p : Pairing} {w w' : World} (hw : World.Agree p w w') {o o' : Obj}
    (ho : Obj.Agree p o o') (hroot : o.Rooted w.store.size) (hroot' : o'.Rooted w'.store.size) :
    World.Agree p { w with store := w.store.push o } { w' with store := w'.store.push o' } :=
  ⟨hw.store.push ho hroot hroot', hw.calls, hw.now, hw.chance⟩

/-! ## Computations -/

namespace Eval

variable {α β γ δ : Type} {p : Pairing} {R : α → β → Prop} {S : γ → δ → Prop} {w w' : World}

/-- Ends of two computations on worlds that agree: related results or one fault, in worlds that
agree again. -/
inductive Outcome (p : Pairing) (R : α → β → Prop) (w w' : World) :
    EStateM.Result Fault World α → EStateM.Result Fault World β → Prop where
  | ok {a : α} {b : β} {v v' : World} : R a b → World.Agree p v v' → w.Leads v → w'.Leads v' →
      Outcome p R w w' (.ok a v) (.ok b v')
  | error (e : Fault) {v v' : World} : World.Agree p v v' → w.Leads v → w'.Leads v' →
      Outcome p R w w' (.error e v) (.error e v')

theorem Outcome.staysOutside {r : EStateM.Result Fault World α} {r' : EStateM.Result Fault World β}
    (h : Outcome p R w w' r r') (hr : StaysOutside r) : StaysOutside r' := by
  cases h with
  | ok => exact staysOutside_ok _ _
  | error => exact (staysOutside_error _ _).2 ((staysOutside_error _ _).1 hr)

theorem Outcome.trans {v v' : World} (hl : w.Leads v) (hl' : w'.Leads v')
    {r : EStateM.Result Fault World α} {r' : EStateM.Result Fault World β}
    (h : Outcome p R v v' r r') : Outcome p R w w' r r' := by
  cases h with
  | ok h hu hm hm' => exact .ok h hu (hl.trans hm) (hl'.trans hm')
  | error e hu hm hm' => exact .error e hu (hl.trans hm) (hl'.trans hm')

/-- Computations that end alike. -/
def Agree (p : Pairing) (R : α → β → Prop) (w w' : World) (x : Eval α) (y : Eval β) : Prop :=
  Outcome p R w w' (x w) (y w')

theorem read_apply (f : Store → Except Fault α) (w : World) :
    read f w = match f w.store with
      | .ok a => .ok a w
      | .error e => .error e w := by
  change (match f w.store with | .ok a => pure a | .error e => throw e : Eval α) w = _
  cases f w.store <;> rfl

namespace Agree

/-- A look at the world goes on with the two worlds. -/
theorem get_bind {f : World → Eval α} {g : World → Eval β}
    (h : Eval.Agree p R w w' (f w) (g w')) :
    Eval.Agree p R w w' (get >>= f) (get >>= g) :=
  h

section

variable (hw : World.Agree p w w')
include hw

theorem pure {a : α} {b : β} (h : R a b) : Eval.Agree p R w w' (Pure.pure a) (Pure.pure b) :=
  .ok h hw (.refl w) (.refl w')

theorem throw (e : Fault) : Eval.Agree p R w w' (throw e) (throw e) :=
  .error e hw (.refl w) (.refl w')

/-- What is read off the stores leaves the worlds alone. -/
theorem read_bind {f : Store → Except Fault α} {g : Store → Except Fault β} {k : α → Eval γ}
    {l : β → Eval δ} (h : Except.Agree R (f w.store) (g w'.store))
    (hkl : ∀ a b, R a b → Eval.Agree p S w w' (k a) (l b)) :
    Eval.Agree p S w w' (Eval.read f >>= k) (Eval.read g >>= l) := by
  unfold Eval.Agree at hkl ⊢
  change Outcome p S w w' (EStateM.bind (Eval.read f) k w) (EStateM.bind (Eval.read g) l w')
  unfold EStateM.bind
  rw [read_apply, read_apply]
  generalize f w.store = x, g w'.store = y at h ⊢
  cases h with
  | ok h => exact hkl _ _ h
  | error e => exact .error e hw (.refl w) (.refl w')

theorem read {f : Store → Except Fault α} {g : Store → Except Fault β}
    (h : Except.Agree R (f w.store) (g w'.store)) :
    Eval.Agree p R w w' (Eval.read f) (Eval.read g) := by
  rw [← bind_pure (Eval.read f), ← bind_pure (Eval.read g)]
  exact read_bind hw h fun _ _ => .pure hw

/-- Both sides read one result. -/
theorem read_bind_eq {f g : Store → Except Fault γ} {k : γ → Eval α} {l : γ → Eval β}
    (h : f w.store = g w'.store) (hkl : ∀ c, Eval.Agree p R w w' (k c) (l c)) :
    Eval.Agree p R w w' (Eval.read f >>= k) (Eval.read g >>= l) :=
  read_bind hw (.of_eq h) fun c _ hcd => hcd ▸ hkl c

theorem lift {x : Except Fault α} {y : Except Fault β} (h : Except.Agree R x y) :
    Eval.Agree p R w w' (Eval.lift x) (Eval.lift y) :=
  read hw h

theorem lift_bind {x : Except Fault α} {y : Except Fault β} {k : α → Eval γ} {l : β → Eval δ}
    (h : Except.Agree R x y) (hkl : ∀ a b, R a b → Eval.Agree p S w w' (k a) (l b)) :
    Eval.Agree p S w w' (Eval.lift x >>= k) (Eval.lift y >>= l) :=
  read_bind hw h hkl

theorem lift_bind_eq {x y : Except Fault γ} {k : γ → Eval α} {l : γ → Eval β} (h : x = y)
    (hkl : ∀ c, Eval.Agree p R w w' (k c) (l c)) :
    Eval.Agree p R w w' (Eval.lift x >>= k) (Eval.lift y >>= l) :=
  read_bind_eq hw h hkl

/-- A fault ends both sides. -/
theorem throw_bind (e : Fault) {k : γ → Eval α} {l : γ → Eval β} :
    Eval.Agree p R w w' (MonadExcept.throw e >>= k) (MonadExcept.throw e >>= l) :=
  .error e hw (.refl w) (.refl w')

theorem refuse_bind (m : Misuse) {k : γ → Eval α} {l : γ → Eval β} :
    Eval.Agree p R w w' (refuse m >>= k) (refuse m >>= l) :=
  .error _ hw (.refl w) (.refl w')

end

theorem bind {x : Eval α} {y : Eval β} {f : α → Eval γ} {g : β → Eval δ}
    (h : Eval.Agree p R w w' x y)
    (hfg : ∀ a b v v', R a b → World.Agree p v v' → w.Leads v → w'.Leads v' →
      Eval.Agree p S v v' (f a) (g b)) :
    Eval.Agree p S w w' (x >>= f) (y >>= g) := by
  unfold Eval.Agree at h ⊢
  change Outcome p S w w' (EStateM.bind x f w) (EStateM.bind y g w')
  unfold EStateM.bind
  generalize x w = r, y w' = r' at h ⊢
  cases h with
  | error e hv hl hl' => exact .error e hv hl hl'
  | ok hab hv hl hl' => exact .trans hl hl' (hfg _ _ _ _ hab hv hl hl')

/-- Computations that start with one result go on with it. -/
theorem bind_eq {x y : Eval γ} {f : γ → Eval α} {g : γ → Eval β}
    (h : Eval.Agree p Eq w w' x y)
    (hfg : ∀ c v v', World.Agree p v v' → w.Leads v → w'.Leads v' →
      Eval.Agree p R v v' (f c) (g c)) :
    Eval.Agree p R w w' (x >>= f) (y >>= g) :=
  h.bind fun c _ v v' hcd => hcd ▸ hfg c v v'

theorem imp {T : α → β → Prop} {x : Eval α} {y : Eval β} (h : Eval.Agree p R w w' x y)
    (himp : ∀ a b, R a b → T a b) : Eval.Agree p T w w' x y := by
  unfold Eval.Agree at h ⊢
  generalize x w = r, y w' = r' at h ⊢
  cases h with
  | ok h hv hl hl' => exact .ok (himp _ _ h) hv hl hl'
  | error e hv hl hl' => exact .error e hv hl hl'

theorem tryCatch {x : Eval α} {y : Eval β} {f : Fault → Eval α} {g : Fault → Eval β}
    (h : Eval.Agree p R w w' x y)
    (hfg : ∀ e v v', World.Agree p v v' → Eval.Agree p R v v' (f e) (g e)) :
    Eval.Agree p R w w' (tryCatch x f) (tryCatch y g) := by
  unfold Eval.Agree at h ⊢
  change Outcome p R w w' (EStateM.tryCatch x f w) (EStateM.tryCatch y g w')
  unfold EStateM.tryCatch
  generalize x w = r, y w' = r' at h ⊢
  cases h with
  | ok h hv hl hl' => exact .ok h hv hl hl'
  | error e hv hl hl' => exact .trans hl hl' (hfg e _ _ hv)

section

variable (hw : World.Agree p w w')
include hw

theorem mapM {xs : List α} {ys : List β} {f : α → Eval γ} {g : β → Eval δ}
    (h : List.Forall₂ R xs ys)
    (hfg : ∀ a b v v', R a b → World.Agree p v v' → Eval.Agree p S v v' (f a) (g b)) :
    Eval.Agree p (List.Forall₂ S) w w' (xs.mapM f) (ys.mapM g) := by
  induction h generalizing w w' with
  | nil => exact .pure hw .nil
  | cons h _ ih =>
    rw [List.mapM_cons, List.mapM_cons]
    exact (hfg _ _ w w' h hw).bind fun c d v v' hcd hv _ _ =>
      (ih hv).bind fun cs ds u u' hcds hu _ _ => .pure hu (.cons hcd hcds)

/-- What is made of the elements is the same on both sides. -/
theorem mapM_eq {xs : List α} {ys : List β} {f : α → Eval γ} {g : β → Eval γ}
    (h : List.Forall₂ R xs ys)
    (hfg : ∀ a b v v', R a b → World.Agree p v v' → Eval.Agree p Eq v v' (f a) (g b)) :
    Eval.Agree p Eq w w' (xs.mapM f) (ys.mapM g) :=
  imp (mapM hw h hfg) fun _ _ hcds => List.forall₂_eq_eq_eq ▸ hcds

/-! ## Objects -/

/-- Objects that are made on both sides without private attributes agree from then on. -/
theorem allocate {o o' : Obj} (ho : Obj.Agree p o o') (hplain : o.privates = none)
    (hplain' : o'.privates = none) (hroot : o.Rooted w.store.size)
    (hroot' : o'.Rooted w'.store.size) :
    Eval.Agree p (Value.Agree p) w w' (Eval.allocate o) (Eval.allocate o') :=
  .ok (.ref (hw.store.fresh 0)) (hw.push ho hroot hroot') (.push w hplain) (.push w' hplain')

theorem newList {items items' : List Value} (h : Values.Agree p items items') :
    Eval.Agree p (Value.Agree p) w w' (Eval.newList items) (Eval.newList items') :=
  allocate hw (.list h) rfl rfl trivial trivial

theorem newDict {entries entries' : Entries} (h : Table.Agree p entries entries') :
    Eval.Agree p (Value.Agree p) w w' (Eval.allocate (.dict entries))
      (Eval.allocate (.dict entries')) :=
  allocate hw (.dict h) rfl rfl trivial trivial

/-- Paired objects give way to others that agree and keep what there is to keep. -/
theorem replace {r r' : Ref} (hr : p.pairs r r') {o o' q q' : Obj} (ho : w.store[r]? = some o)
    (ho' : w'.store[r']? = some o') (hq : Obj.Agree p q q') (hkeeps : o.Keeps q)
    (hkeeps' : o'.Keeps q') :
    Eval.Agree p Eq w w' (Eval.replace r q) (Eval.replace r' q') := by
  refine .ok rfl ?_ ?_ ?_
  · exact ⟨hw.store.set hr ho ho' hq hkeeps hkeeps', hw.calls, hw.now, hw.chance⟩
  · exact ⟨by simp, Store.privates_set ho hkeeps.privates⟩
  · exact ⟨by simp, Store.privates_set ho' hkeeps'.privates⟩

end

end Agree

/-! ## Properties -/

section

variable (hw : World.Agree p w w') {object object' key key' v v' : Value}
  (hobject : Value.Agree p object object') (hkey : Value.Agree p key key')
  (hv : Value.Agree p v v')
include hw hobject hkey

theorem agree_getProperty :
    Eval.Agree p (Value.Agree p) w w' (getProperty object key) (getProperty object' key') := by
  refine (Agree.read hw (Store.property_agree hw.store hobject hkey)).bind
    fun found found' v v' hfound hv _ _ => ?_
  cases hfound with
  | absent => exact .pure hv .undefined
  | value h => exact .pure hv h
  | method m => exact .allocate hv (.method m hobject .nil) rfl rfl trivial trivial

include hv in
theorem agree_setProperty :
    Eval.Agree p Eq w w' (setProperty object key v) (setProperty object' key' v') := by
  unfold setProperty
  rw [hobject.isNothing_eq]
  dsimp only
  split
  · exact .read_bind_eq hw (hw.store.toText_eq hobject) fun _ =>
      .read_bind_eq hw (hw.store.toText_eq hkey) fun _ => .refuse_bind hw _
  · refine .read_bind_eq hw (hw.store.keyText_eq hkey) fun name => ?_
    cases hobject with
    | type =>
      dsimp only
      split <;> exact .throw hw _
    | @ref r r' hr =>
      refine .get_bind ?_
      obtain ⟨ho, ho'⟩ | ⟨o, o', ho, ho', h⟩ := hw.store.object_cases hr <;> rw [ho, ho']
      · exact .pure hw rfl
      · refine .lift_bind hw ((Store.putProperty_agree hkey hv h name).and
          (fun _ => Obj.keeps_putProperty) fun _ => Obj.keeps_putProperty) ?_
        rintro q q' ⟨hq, hkeeps, hkeeps'⟩
        exact .replace hw hr ho ho' hq hkeeps hkeeps'
    | _ => exact .pure hw rfl

theorem agree_deleteProperty :
    Eval.Agree p Eq w w' (deleteProperty object key) (deleteProperty object' key') := by
  unfold deleteProperty
  rw [hobject.isNothing_eq]
  dsimp only
  split
  · exact .refuse_bind hw _
  · refine .read_bind_eq hw (hw.store.keyText_eq hkey) fun name => ?_
    cases hobject with
    | @ref r r' hr =>
      refine .get_bind ?_
      obtain ⟨ho, ho'⟩ | ⟨o, o', ho, ho', h⟩ := hw.store.object_cases hr <;> rw [ho, ho']
      · exact .pure hw rfl
      · refine .lift_bind hw ((Store.dropProperty_agree hkey h name).and
          (fun _ => Obj.keeps_dropProperty) fun _ => Obj.keeps_dropProperty) ?_
        rintro ⟨q, gone⟩ ⟨q', _⟩ ⟨⟨hq, rfl⟩, hkeeps, hkeeps'⟩
        exact (Agree.replace hw hr ho ho' hq hkeeps hkeeps').bind_eq fun _ _ _ hv _ _ =>
          .pure hv rfl
    | _ => exact .pure hw rfl

end

end Eval

end GuardedText
