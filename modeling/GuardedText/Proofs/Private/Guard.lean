import GuardedText.Guard.Basic
import GuardedText.Proofs.Private.Evaluate

/-
  Guards and private attributes. A guard that is evaluated over a context of each of two worlds that
  differ in private attributes only gives the same value or the same fault, makes the same calls and
  leaves contexts that differ in private attributes only; and it changes no private attribute of any
  object (`evaluateOver_private`). This is so as long as it stays outside of the objects of the host,
  whose methods compare and write out what they are given. Such worlds come from each other by giving host objects any other
  private attributes (`World.agree_of_shown`). They may hold the host's type of texts only where no
  guard gets at it: called with a host object, that type spells out the private attributes too
  (`evaluateOver_spelled`).
-/

namespace GuardedText

/-! ## Worlds with other private attributes -/

/-- The values that a pending value is or becomes. -/
def Pending.values : Pending → List Value
  | .ready v | .later v => [v]
  | .failing | .spent => []

/-- The values in an object, the private attributes of host objects aside. -/
def Obj.values : Obj → List Value
  | .list items | .tuple items => items
  | .dict entries | .frozen entries => entries.map (·.2)
  | .record attributes => attributes.shown.map (·.2)
  | .slots a b => a.toList ++ b.toList
  | .arrow _ _ home attributes => .ref home :: attributes.map (·.2)
  | .method _ self attributes => self :: attributes.map (·.2)
  | .builtin _ attributes | .host _ attributes => attributes.map (·.2)
  | .pending state => state.values
  | .frame locals parent globals => .ref locals :: .ref globals :: parent.toList.map .ref
  | .node body put => body :: put.toList
  | .expression _ inner => inner.toList

/-- An object without its private attributes. -/
def Obj.shown : Obj → Obj
  | .record attributes => .record attributes.shown
  | o => o

/-- Whether a value is in a store of `n` objects and not the host's type of texts. -/
def Value.isPlain (n : Nat) : Value → Bool
  | .type t => decide (t ≠ .string)
  | .ref r => decide (r < n)
  | _ => true

/-- The pairing for a store and one that has `k` objects more after the first `n`. -/
def Pairing.shift (n k : Nat) (h : Builtin.lasting.length ≤ n) : Pairing where
  pairs r r' := r' = if r < n then r else r + k
  unique := by
    constructor
    · intro (a : Nat) (b : Nat) (c : Nat) ha hb
      change c = if a < n then a else a + k at ha
      change c = if b < n then b else b + k at hb
      change a = b
      split at ha <;> split at hb <;> omega
    · rintro a _ _ rfl rfl
      rfl
  lasting r hr := (if_pos (Nat.lt_of_lt_of_le hr h)).symm
  spelled := False

/-- The pairing of every object with itself. -/
def Pairing.same : Pairing where
  pairs r r' := r = r'
  unique := ⟨fun _ _ _ h h' => h.trans h'.symm, fun _ _ _ h h' => h.symm.trans h'⟩
  lasting _ _ := rfl
  spelled := True

section

variable {p : Pairing}

/-- Two objects that are the same without their private attributes are host objects, or one object.
-/
theorem Obj.shown_eq {o o' : Obj} (h : o.shown = o'.shown) :
    (∃ attributes attributes', o = .record attributes ∧ o' = .record attributes' ∧
      attributes.shown = attributes'.shown) ∨ o = o' := by
  cases o <;> cases o' <;>
    first
    | exact .inr h
    | exact .inl ⟨_, _, rfl, rfl, Obj.record.inj h⟩
    | cases h

theorem Value.Agree.pairs {r r' : Ref} (h : Value.Agree p (.ref r) (.ref r')) : p.pairs r r' := by
  cases h with
  | ref h => exact h

theorem Table.agree_self {κ : Type} {t : List (κ × Value)}
    (h : ∀ v ∈ t.map (·.2), Value.Agree p v v) : Table.Agree p t t :=
  List.forall₂_same.2 fun e he => ⟨rfl, h e.2 (List.mem_map_of_mem he)⟩

theorem Option.agree_self {v? : Option Value} (h : ∀ v ∈ v?.toList, Value.Agree p v v) :
    Option.Rel (Value.Agree p) v? v? := by
  cases v? with
  | none => exact .none
  | some v => exact .some (h v (by simp))

/-- An object agrees with itself if the values in it do, and all values where private attributes
count. -/
theorem Obj.agree_self {o : Obj} (hvalues : ∀ v ∈ o.values, Value.Agree p v v)
    (hspelled : p.spelled → ∀ v, Value.Agree p v v) : Obj.Agree p o o := by
  cases o with
  | list items => exact .list (List.forall₂_same.2 hvalues)
  | tuple items => exact .tuple (List.forall₂_same.2 hvalues)
  | dict entries => exact .dict (Table.agree_self hvalues)
  | frozen entries => exact .frozen (Table.agree_self hvalues)
  | record attributes =>
    exact .record (Table.agree_self hvalues) fun h => Table.agree_self fun v _ => hspelled h v
  | slots a b =>
    exact .slots (Option.agree_self fun v hv => hvalues v (List.mem_append_left _ hv))
      (Option.agree_self fun v hv => hvalues v (List.mem_append_right _ hv))
  | arrow params body home attributes =>
    obtain ⟨hhome, hattributes⟩ := List.forall_mem_cons.1 hvalues
    exact .arrow params body hhome.pairs (Table.agree_self hattributes)
  | method m self attributes =>
    obtain ⟨hself, hattributes⟩ := List.forall_mem_cons.1 hvalues
    exact .method m hself (Table.agree_self hattributes)
  | builtin b attributes => exact .builtin b (Table.agree_self hvalues)
  | host f attributes => exact .host f (Table.agree_self hvalues)
  | pending state =>
    cases state with
    | ready v => exact .pending (.ready (hvalues v (List.mem_singleton_self v)))
    | later v => exact .pending (.later (hvalues v (List.mem_singleton_self v)))
    | failing => exact .pending .failing
    | spent => exact .pending .spent
  | frame locals parent globals =>
    obtain ⟨hlocals, hrest⟩ := List.forall_mem_cons.1 hvalues
    obtain ⟨hglobals, hparent⟩ := List.forall_mem_cons.1 hrest
    refine .frame hlocals.pairs ?_ hglobals.pairs
    cases parent with
    | none => exact .none
    | some parent => exact .some (hparent (.ref parent) (List.mem_singleton_self _)).pairs
  | node body put =>
    obtain ⟨hbody, hput⟩ := List.forall_mem_cons.1 hvalues
    exact .node hbody (Option.agree_self hput)
  | expression e inner => exact .expression e (Option.agree_self hvalues)

/-- Objects agree that are the same without their private attributes, if the values in them do and
private attributes do not count. -/
theorem Obj.agree_of_shown (hspelled : ¬ p.spelled) {o o' : Obj} (h : o.shown = o'.shown)
    (hvalues : ∀ v ∈ o.values, Value.Agree p v v) : Obj.Agree p o o' := by
  obtain ⟨_, _, rfl, rfl, hshown⟩ | rfl := Obj.shown_eq h
  · exact .record (hshown ▸ Table.agree_self hvalues) fun h => absurd h hspelled
  · exact Obj.agree_self hvalues fun h => absurd h hspelled

end

/-- A value agrees with itself if the object that it refers to is paired with itself; the type of
texts only does where guards may get at it. -/
theorem Value.agree_self {p : Pairing} {v : Value} (hpairs : ∀ r, v = .ref r → p.pairs r r)
    (hspelled : v = .type .string → p.spelled) : Value.Agree p v v := by
  cases v with
  | undefined => exact .undefined
  | null => exact .null
  | bool b => exact .bool b
  | num n => exact .num n
  | text t => exact .text t
  | type t => exact .type t fun h => hspelled (congrArg Value.type h)
  | ref r => exact .ref (hpairs r rfl)

theorem Value.agree_same (v : Value) : Value.Agree .same v v :=
  Value.agree_self (fun _ _ => rfl) fun _ => trivial

/-- A world agrees with itself, whatever guards get at. -/
theorem World.agree_same {w : World} (hrooted : w.store.Rooted) : World.Agree .same w w := by
  refine ⟨⟨?_, fun _ => rfl, hrooted, hrooted⟩, rfl, rfl, rfl⟩
  rintro r _ rfl
  cases w.store[r]? with
  | none => exact .none
  | some o =>
    exact .some (Obj.agree_self (fun v _ => Value.agree_same v) fun _ => Value.agree_same)

theorem Value.agree_of_isPlain {n k : Nat} {h : Builtin.lasting.length ≤ n} {v : Value}
    (hv : v.isPlain n) : Value.Agree (.shift n k h) v v := by
  refine Value.agree_self ?_ ?_
  · rintro r rfl
    exact (if_pos (of_decide_eq_true hv)).symm
  · rintro rfl
    exact absurd (rfl : HostType.string = .string) (of_decide_eq_true hv)

/-- Objects that refer to no frame may stand anywhere. -/
theorem Store.rooted_of_forall {s : Store} (h : ∀ o ∈ s, o.Rooted 0) : s.Rooted := by
  intro r o ho
  have hroot := h o (Array.mem_of_getElem? ho)
  unfold Obj.Rooted at hroot ⊢
  split
  · exact absurd hroot (Nat.not_lt_zero _)
  · exact absurd hroot (Nat.not_lt_zero _)
  · trivial

/-- Worlds agree if the objects of the one come first in the other and are the same there but for
private attributes. Their values are in the store and not the host's type of texts, except in
private attributes; objects that only private attributes of the other world lead to may follow. -/
theorem World.agree_of_shown {w w' : World} (hlasting : Builtin.lasting.length ≤ w.store.size)
    (hsame : (w'.store.toList.take w.store.size).map Obj.shown = w.store.toList.map Obj.shown)
    (hvalues : ∀ o ∈ w.store, ∀ v ∈ o.values, v.isPlain w.store.size)
    (hrooted : w.store.Rooted) (hrooted' : w'.store.Rooted)
    (hcalls : w.calls.map shownItems = w'.calls.map shownItems) (hnow : w.now = w'.now)
    (hchance : w.chance = w'.chance) :
    World.Agree (.shift w.store.size (w'.store.size - w.store.size) hlasting) w w' := by
  have hsize : w.store.size ≤ w'.store.size := by
    simpa using congrArg List.length hsame
  refine ⟨⟨fun r r' hr => ?_, fun i => ?_, hrooted, hrooted'⟩, hcalls, hnow, hchance⟩
  · rw [show r' = if r < w.store.size then r else _ from hr]
    split
    · rename_i hold
      have hshown : (w'.store[r]?).map Obj.shown = (w.store[r]?).map Obj.shown := by
        have := congrArg (·[r]?) hsame
        simpa [List.getElem?_take, hold] using this
      rw [Array.getElem?_eq_getElem hold] at hshown ⊢
      obtain ⟨o', ho', hshown⟩ := Option.map_eq_some_iff.1 hshown
      rw [ho']
      refine .some (Obj.agree_of_shown id hshown.symm fun v hv => ?_)
      exact Value.agree_of_isPlain (hvalues _ (Array.getElem_mem hold) v hv)
    · rename_i hnew
      rw [Array.getElem?_eq_none (Nat.not_lt.1 hnew), Array.getElem?_eq_none]
      · exact .none
      · have hend : w.store.size ≤ r := Nat.not_lt.1 hnew
        change w'.store.size ≤ r + (w'.store.size - w.store.size)
        omega
  · change w'.store.size + i = ite ..
    rw [if_neg (Nat.not_lt.2 (Nat.le_add_right _ i))]
    omega

namespace Guard

/-- The value of a guard in a new outermost frame over a context. -/
def evaluateOver (waiting : Waiting) (context : Ref) (g : Guard) : Eval Value := do
  Eval.run waiting (← Eval.openRoot context) g.expr

/-- What a guard leaves to be seen, private attributes aside. -/
structure Sight where
  /-- The value, or why there is none. -/
  result : Except Fault Image
  /-- The context. -/
  context : Image
  /-- The tracked calls. -/
  calls : List (List Image)

/-- What is seen of how a guard over a context ended. -/
def sight (context : Ref) : EStateM.Result Fault World Value → Sight
  | .ok v w =>
    ⟨.ok (w.store.imageOf v).shown, (w.store.imageOf (.ref context)).shown, w.calls.map shownItems⟩
  | .error e w => ⟨.error e, (w.store.imageOf (.ref context)).shown, w.calls.map shownItems⟩

section

variable {p : Pairing} {w w' : World} {context context' : Ref}

theorem agree_evaluateOver (hw : World.Agree p w w') (hcontext : p.pairs context context')
    (waiting : Waiting) (g : Guard) :
    Eval.Agree p (Value.Agree p) w w' (g.evaluateOver waiting context)
      (g.evaluateOver waiting context') :=
  Eval.agree_openRoot_bind hw hcontext fun _ _ _ _ hv hframes =>
    Eval.agree_run waiting g.expr hv hframes

/-- What is seen of computations that end alike is the same. -/
theorem sight_eq {r r' : EStateM.Result Fault World Value}
    (h : Eval.Outcome p (Value.Agree p) w w' r r') (hcontext : p.pairs context context') :
    sight context r = sight context' r' := by
  cases h with
  | ok hv hu _ _ =>
    rw [sight, sight, Store.imageOf_shown_eq hu.store hv,
      Store.imageOf_shown_eq hu.store (.ref hcontext), hu.calls]
  | error e hu _ _ =>
    rw [sight, sight, Store.imageOf_shown_eq hu.store (.ref hcontext), hu.calls]

/-- The world in which a computation ended. -/
def endWorld : EStateM.Result Fault World Value → World
  | .ok _ w | .error _ w => w

/-- No guard changes a private attribute of any object, whatever the context holds. -/
theorem privates_evaluateOver (hrooted : w.store.Rooted) (waiting : Waiting) (context : Ref)
    (g : Guard) :
    (endWorld (g.evaluateOver waiting context w)).store.privates = w.store.privates := by
  have hcontext : Pairing.same.pairs context context := rfl
  have hends := agree_evaluateOver (World.agree_same hrooted) hcontext waiting g
  unfold Eval.Agree at hends
  generalize g.evaluateOver waiting context w = r at hends ⊢
  cases hends with
  | ok _ _ hleads _ => exact hleads.privates
  | error _ _ hleads _ => exact hleads.privates

end

/-- A world with some objects after the lasting built-in functions. -/
def sampleWorld (objects : List Obj) : World :=
  { World.initial 0 0 with store := ((Builtin.lasting.map (Obj.builtin · [])) ++ objects).toArray }

/-- A context with a host object that has one attribute. -/
def bareSample : World :=
  sampleWorld [.record [("y", .num (.int 2))], .dict [(.name "o", .ref 11)]]

/-- The same context; the host object has an array as private attribute, too. -/
def lockedSample : World :=
  sampleWorld [.record [("_x", .ref 13), ("y", .num (.int 2))], .dict [(.name "o", .ref 11)],
    .list [.num (.int 3)]]

/-- A guard that reads the attribute. -/
def prying : Guard := ⟨"o._x", .member (.name "o") "_x" false⟩

/-- A context with the host's type of texts and a host object. -/
def typedSample (attributes : Attributes) : World :=
  sampleWorld [.record attributes, .dict [(.name "S", .type .string), (.name "o", .ref 11)]]

/-- A guard that calls the one with the other. -/
def spelling : Guard := ⟨"S(o)", .call (.name "S") [.single (.name "o")] false⟩

/-- The text that is seen as a value. -/
def Sight.text (s : Sight) : Text :=
  match s.result with
  | .ok (.text t) => t
  | _ => []

end Guard

end GuardedText
