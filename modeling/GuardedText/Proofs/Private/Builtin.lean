import GuardedText.Proofs.Private.Step

/-
  Calls of built-in functions on worlds that agree. A function is handed on to them as a way to call
  it, and calls of functions that agree are taken to agree here (`Eval.Calls`).
-/

namespace GuardedText

namespace Eval

open Store

variable {p : Pairing} {w w' : World}

/-- Ways to call that do the same with functions and arguments that agree. -/
def Calls (p : Pairing) (call call' : Caller) : Prop :=
  ∀ (f f' : Value) (args args' : List Value) (w w' : World), Value.Agree p f f' →
    Values.Agree p args args' → World.Agree p w w' →
    Eval.Agree p (Value.Agree p) w w' (call f args) (call' f' args')

/-! ## Going through arrays -/

/-- The items of arrays at one moment. -/
theorem agree_itemsNow_bind (hw : World.Agree p w w') {self self' : Value}
    (hself : Value.Agree p self self') {α β : Type} {R : α → β → Prop} {k : List Value → Eval α}
    {l : List Value → Eval β}
    (hkl : ∀ items items', Values.Agree p items items' →
      Eval.Agree p R w w' (k items) (l items')) :
    Eval.Agree p R w w' (itemsNow self >>= k) (itemsNow self' >>= l) :=
  hkl _ _ ((hw.store.items? hself).getD .nil)

section

variable {call call' : Caller} (hcall : Calls p call call') {self self' f f' : Value}
  (hself : Value.Agree p self self') (hf : Value.Agree p f f') {α β : Type} {R : α → β → Prop}
  {step : α → Value → Value → Except Fault (α × Bool)}
  {step' : β → Value → Value → Except Fault (β × Bool)}
  (hstep : ∀ a b item item' result result', R a b → Value.Agree p item item' →
    Value.Agree p result result' →
    Except.Agree (fun r r' => R r.1 r'.1 ∧ r.2 = r'.2) (step a item result)
      (step' b item' result'))
include hcall hself hf hstep

theorem agree_visit (fuel i : Nat) {a : α} {b : β} (hab : R a b) (hw : World.Agree p w w') :
    Eval.Agree p R w w' (visit call self f step fuel i a)
      (visit call' self' f' step' fuel i b) := by
  induction fuel generalizing i a b w w' with
  | zero => exact .throw hw _
  | succ fuel ih =>
    unfold visit
    refine agree_itemsNow_bind hw hself fun items items' hitems => ?_
    have hitem := hitems.getElem? i
    generalize items[i]? = item, items'[i]? = item' at hitem ⊢
    cases hitem with
    | none => exact .pure hw hab
    | some hitem =>
      refine (hcall _ _ _ _ w w' hf (.cons hitem (.cons (.num _) (.cons hself .nil))) hw).bind
        fun result result' v v' hresult hv _ _ => ?_
      refine .lift_bind hv (hstep a b _ _ _ _ hab hitem hresult) ?_
      rintro ⟨a, stop⟩ ⟨b, _⟩ ⟨hab, rfl⟩
      cases stop with
      | true => exact .pure hv hab
      | false => exact ih (i + 1) hab hv

theorem agree_visitAll {a : α} {b : β} (hab : R a b) (hw : World.Agree p w w') :
    Eval.Agree p R w w' (visitAll call self f a step) (visitAll call' self' f' b step') := by
  unfold visitAll
  refine .get_bind ?_
  rw [hw.store.callable_eq hf]
  dsimp only
  split
  · exact .read_bind_eq hw (hw.store.toText_eq hf) fun _ => .refuse_bind hw _
  · refine agree_itemsNow_bind hw hself fun items items' hitems => ?_
    rw [itemLimit, itemLimit, hitems.length_eq]
    exact agree_visit hcall hself hf hstep _ 0 hab hw

end

theorem agree_joined {items items' : List Value} {separator separator' : Value}
    (hw : World.Agree p w w') (hitems : Values.Agree p items items')
    (hseparator : Value.Agree p separator separator') :
    Eval.Agree p (Value.Agree p) w w' (joined items separator) (joined items' separator') := by
  have htexts (sep : Text) : Eval.Agree p (Value.Agree p) w w'
      (do
        let texts ← items.mapM fun item =>
          if isNothing item then pure [] else read (·.toText item)
        return .text (Text.join sep texts))
      (do
        let texts ← items'.mapM fun item =>
          if isNothing item then pure [] else read (·.toText item)
        return .text (Text.join sep texts)) := by
    refine (Agree.mapM_eq hw hitems fun item item' v v' hitem hv => ?_).bind_eq
      fun texts v v' hv _ _ => .pure hv (.text _)
    rw [hitem.isNothing_eq]
    split
    · exact .pure hv rfl
    · exact .read hv (.of_eq (hv.store.toText_eq hitem))
  have htext := hw.store.toText_eq hseparator
  unfold joined
  cases hseparator with
  | undefined => exact htexts _
  | _ => exact .read_bind_eq hw htext fun sep => htexts sep

/-! ## Functions of values -/

theorem agree_callText (m : Method) (t : Text) {args args' : List Value}
    (hw : World.Agree p w w') (hargs : Values.Agree p args args') :
    Eval.Agree p (Value.Agree p) w w' (callText m t args) (callText m t args') := by
  have hs := hw.store
  unfold callText
  cases m with
  | textIncludes | textStartsWith | textIndexOf =>
    cases hargs with
    | nil => exact .throw hw _
    | cons hpart hrest =>
      dsimp only
      rw [hrest.length_eq]
      split
      · exact .throw_bind hw _
      · exact .read_bind_eq hw (hs.toText_eq hpart) fun _ =>
          .read_bind_eq hw (position_eq hs (hrest.headD .undefined) _ _) fun _ =>
            .pure hw (by constructor)
  | textEndsWith =>
    cases hargs with
    | nil => exact .throw hw _
    | cons hpart hrest =>
      dsimp only
      rw [hrest.length_eq]
      split
      · exact .throw_bind hw _
      · exact .read_bind_eq hw (position_eq hs (hrest.headD .undefined) _ _) fun _ =>
          .read_bind_eq hw (hs.toText_eq hpart) fun _ => .pure hw (.bool _)
  | textLower | textUpper | textTrim | textToString =>
    cases hargs with
    | nil => exact .pure hw (.text _)
    | cons => exact .throw hw _
  | textSplit =>
    dsimp only
    rw [hargs.length_eq]
    split
    · exact .throw_bind hw _
    · refine .read_bind_eq hw (split_eq hs (hargs.headD .undefined) (hargs.getD 1 .undefined) t)
        fun parts => .newList hw ?_
      induction parts with
      | nil => exact .nil
      | cons part parts ih => exact .cons (.text part) ih
  | textSlice =>
    dsimp only
    rw [hargs.length_eq]
    split
    · exact .throw_bind hw _
    · exact .read_bind_eq hw
        (bounds_eq hs (hargs.headD .undefined) (hargs.getD 1 .undefined) _) fun _ =>
          .pure hw (.text _)
  | _ => exact .throw hw _

section

variable {call call' : Caller} (hcall : Calls p call call')
include hcall

theorem agree_callArray (m : Method) {self self' : Value} {args args' : List Value}
    (hw : World.Agree p w w') (hself : Value.Agree p self self')
    (hargs : Values.Agree p args args') :
    Eval.Agree p (Value.Agree p) w w' (callArray call m self args)
      (callArray call' m self' args') := by
  unfold callArray
  refine agree_itemsNow_bind hw hself fun items items' hitems => ?_
  cases m with
  | arrayIncludes =>
    rcases hargs with _ | ⟨hv, _ | _⟩
    · exact .throw hw _
    · exact .lift_bind_eq hw (holds_eq hitems hv) fun _ => .pure hw (.bool _)
    · exact .throw hw _
  | arrayIndexOf =>
    rcases hargs with _ | ⟨hv, _ | _⟩
    · exact .throw hw _
    · dsimp only
      rw [hitems.findIdx?_eq fun _ _ hitem => hitem.strictEquals_eq hv]
      exact .pure hw (.num _)
    · exact .throw hw _
  | arrayJoin | arrayToString =>
    rcases hargs with _ | ⟨hv, _ | _⟩
    · exact agree_joined hw hitems .undefined
    · exact agree_joined hw hitems hv
    · exact .throw hw _
  | arrayFilter =>
    rcases hargs with _ | ⟨hf, _ | _⟩
    · exact .throw hw _
    · refine (agree_visitAll (R := Values.Agree p) hcall hself hf ?_ .nil hw).bind
        fun kept kept' v v' hkept hv _ _ => .newList hv (List.rel_reverse hkept)
      intro kept kept' item item' result result' hkept hitem hresult
      refine .bind_eq hresult.truthy_eq fun keep => ?_
      cases keep with
      | true => exact .ok ⟨.cons hitem hkept, rfl⟩
      | false => exact .ok ⟨hkept, rfl⟩
    · exact .throw hw _
  | arrayMap =>
    rcases hargs with _ | ⟨hf, _ | _⟩
    · exact .throw hw _
    · refine (agree_visitAll (R := Values.Agree p) hcall hself hf ?_ .nil hw).bind
        fun results results' v v' hresults hv _ _ => .newList hv (List.rel_reverse hresults)
      intro results results' item item' result result' hresults hitem hresult
      exact .ok ⟨.cons hresult hresults, rfl⟩
    · exact .throw hw _
  | arraySome | arrayEvery =>
    rcases hargs with _ | ⟨hf, _ | _⟩
    · exact .throw hw _
    · refine (agree_visitAll (R := Eq) hcall hself hf ?_ rfl hw).bind_eq
        fun b v v' hv _ _ => .pure hv (.bool b)
      intro b b' item item' result result' hb hitem hresult
      exact .bind_eq hresult.truthy_eq fun b => .ok ⟨rfl, rfl⟩
    · exact .throw hw _
  | arrayFind =>
    rcases hargs with _ | ⟨hf, _ | _⟩
    · exact .throw hw _
    · refine agree_visitAll (R := Value.Agree p) hcall hself hf ?_ .undefined hw
      intro found found' item item' result result' hfound hitem hresult
      refine .bind_eq hresult.truthy_eq fun wanted => ?_
      cases wanted with
      | true => exact .ok ⟨hitem, rfl⟩
      | false => exact .ok ⟨hfound, rfl⟩
    · exact .throw hw _
  | arraySlice =>
    dsimp only
    rw [hargs.length_eq, hitems.length_eq]
    split
    · exact .throw_bind hw _
    · exact .read_bind_eq hw
        (bounds_eq hw.store (hargs.headD .undefined) (hargs.getD 1 .undefined) _) fun (i, j) =>
          .newList hw (List.forall₂_take _ (List.forall₂_drop _ hitems))
  | arrayConcat =>
    refine .get_bind (.newList hw (hitems.append (hargs.flatMap fun v v' hv => ?_)))
    exact (hw.store.items? hv).getD (.cons hv .nil)
  | _ => exact .throw hw _

theorem agree_callMethod (m : Method) {self self' : Value} {args args' : List Value}
    (hw : World.Agree p w w') (hself : Value.Agree p self self')
    (hargs : Values.Agree p args args') :
    Eval.Agree p (Value.Agree p) w w' (callMethod call m self args)
      (callMethod call' m self' args') := by
  have harray := agree_callArray hcall m hw hself hargs
  cases hself with
  | text t => exact agree_callText m t hw hargs
  | num n =>
    unfold callMethod
    cases m with
    | numberToString =>
      cases hargs with
      | nil => exact .lift_bind_eq hw rfl fun _ => .pure hw (.text _)
      | cons => exact .throw hw _
    | numberToFixed =>
      rcases hargs with _ | ⟨hv, _ | _⟩
      · exact .read_bind_eq hw (toFixed_eq hw.store (.num _) n) fun _ => .pure hw (.text _)
      · exact .read_bind_eq hw (toFixed_eq hw.store hv n) fun _ => .pure hw (.text _)
      · exact .throw hw _
    | _ => exact .throw hw _
  | _ => exact harray

end

/-! ## Functions that every guard knows -/

theorem agree_onNumber {v v' : Value} (hw : World.Agree p w w') (hv : Value.Agree p v v')
    (f : Num → Except Fault Num) :
    Eval.Agree p (Value.Agree p) w w' (onNumber v f) (onNumber v' f) :=
  .read_bind_eq hw (hw.store.toNumber_eq hv) fun _ => .lift_bind_eq hw rfl fun _ =>
    .pure hw (.num _)

mutual

/-- A document gives the same value in both worlds. -/
theorem agree_ofJson : ∀ (document : Json) {w w' : World}, World.Agree p w w' →
    Eval.Agree p (Value.Agree p) w w' (ofJson document) (ofJson document)
  | .null, _, _, hw => .pure hw .null
  | .bool b, _, _, hw => .pure hw (.bool b)
  | .number n, _, _, hw => .pure hw (.num n)
  | .text t, _, _, hw => .pure hw (.text t)
  | .array items, _, _, hw => by
    unfold ofJson
    exact (agree_ofItems items hw).bind fun _ _ _ _ h hv _ _ => .newList hv h
  | .object members, _, _, hw => by
    unfold ofJson
    exact (agree_ofMembers members hw).bind fun _ _ _ _ h hv _ _ => .newDict hv h

theorem agree_ofItems : ∀ (items : List Json) {w w' : World}, World.Agree p w w' →
    Eval.Agree p (Values.Agree p) w w' (ofItems items) (ofItems items)
  | [], _, _, hw => .pure hw .nil
  | item :: items, _, _, hw => by
    unfold ofItems
    exact (agree_ofJson item hw).bind fun _ _ _ _ h hv _ _ =>
      (agree_ofItems items hv).bind fun _ _ _ _ hs hu _ _ => .pure hu (.cons h hs)

theorem agree_ofMembers : ∀ (members : List (Text × Json)) {w w' : World}, World.Agree p w w' →
    Eval.Agree p (Table.Agree p) w w' (ofMembers members) (ofMembers members)
  | [], _, _, hw => .pure hw .nil
  | (_, item) :: members, _, _, hw => by
    unfold ofMembers
    exact (agree_ofJson item hw).bind fun _ _ _ _ h hv _ _ =>
      (agree_ofMembers members hv).bind fun _ _ _ _ hs hu _ _ => .pure hu (.cons ⟨rfl, h⟩ hs)

end

theorem agree_parseJson (t : Text) (hw : World.Agree p w w') :
    Eval.Agree p (Value.Agree p) w w' (parseJson t) (parseJson t) := by
  unfold parseJson
  cases Json.parse t with
  | ok document => exact agree_ofJson document hw
  | error e => exact .throw hw _

theorem agree_callBuiltin (f : Builtin) {args args' : List Value} (hw : World.Agree p w w')
    (hargs : Values.Agree p args args') :
    Eval.Agree p (Value.Agree p) w w' (callBuiltin f args) (callBuiltin f args') := by
  have hs := hw.store
  have hnumbers : Eval.Agree p Eq w w' (args.mapM fun v => read (·.toNumber v))
      (args'.mapM fun v => read (·.toNumber v)) :=
    .mapM_eq hw hargs fun _ _ _ _ hv hw => .read hw (.of_eq (hw.store.toNumber_eq hv))
  unfold callBuiltin
  cases f with
  | abs | floor | ceil | trunc | round | sqrt =>
    rcases hargs with _ | ⟨hv, _ | _⟩
    · exact .throw hw _
    · exact agree_onNumber hw hv _
    · exact .throw hw _
  | min | max =>
    exact hnumbers.bind_eq fun ns v v' hv _ _ => .lift_bind_eq hv rfl fun _ => .pure hv (.num _)
  | pow =>
    rcases hargs with _ | ⟨ha, _ | ⟨hb, _ | _⟩⟩
    · exact .throw hw _
    · exact .throw hw _
    · exact .read_bind_eq hw (hs.toNumber_eq ha) fun _ =>
        .read_bind_eq hw (hs.toNumber_eq hb) fun _ =>
          .lift_bind_eq hw rfl fun _ => .pure hw (.num _)
    · exact .throw hw _
  | random =>
    cases hargs with
    | nil =>
      refine .get_bind ?_
      rw [hw.chance]
      exact .pure hw (.num _)
    | cons => exact .throw hw _
  | now =>
    cases hargs with
    | nil =>
      refine .get_bind ?_
      rw [hw.now]
      exact .pure hw (.num _)
    | cons => exact .throw hw _
  | stringify =>
    cases hargs with
    | nil => exact .throw hw _
    | cons hv => exact .read hw (stringify_agree hs hv)
  | parseJson =>
    cases hargs with
    | nil => exact .throw hw _
    | cons hv => exact .read_bind_eq hw (hs.toText_eq hv) fun t => agree_parseJson t hw
  | isArray =>
    rcases hargs with _ | ⟨hv, _ | _⟩
    · exact .throw hw _
    · refine .get_bind ?_
      rw [(hs.items? hv).isSome_eq]
      exact .pure hw (.bool _)
    · exact .throw hw _
  | keys =>
    rcases hargs with _ | ⟨hv, _ | _⟩
    · exact .throw hw _
    · refine .read_bind hw (objectEntries_agree hs hv) fun _ _ hentries => .newList hw ?_
      refine hentries.map ?_
      rintro ⟨k, v⟩ ⟨_, v'⟩ ⟨rfl, -⟩
      exact .text k
    · exact .throw hw _
  | values =>
    rcases hargs with _ | ⟨hv, _ | _⟩
    · exact .throw hw _
    · exact .read_bind hw (objectEntries_agree hs hv) fun _ _ hentries =>
        .newList hw (hentries.map fun _ _ he => he.2)
    · exact .throw hw _
  | entries =>
    rcases hargs with _ | ⟨hv, _ | _⟩
    · exact .throw hw _
    · refine .read_bind hw (objectEntries_agree hs hv) fun _ _ hentries => ?_
      refine (Agree.mapM (S := Value.Agree p) hw hentries ?_).bind
        fun _ _ _ _ hpairs hv _ _ => .newList hv hpairs
      rintro ⟨k, v⟩ ⟨_, v'⟩ u u' ⟨rfl, hv⟩ hu
      exact .newList hu (.cons (.text k) (.cons hv .nil))
    · exact .throw hw _
  | toNumber =>
    rcases hargs with _ | ⟨hv, _ | _⟩
    · exact .pure hw (.num _)
    · exact .read_bind_eq hw (hs.toNumber_eq hv) fun _ => .pure hw (.num _)
    · exact .throw hw _
  | toText =>
    rcases hargs with _ | ⟨hv, _ | _⟩
    · exact .pure hw (.text _)
    · exact .read_bind_eq hw (hs.toText_eq hv) fun _ => .pure hw (.text _)
    · exact .throw hw _
  | toBoolean =>
    rcases hargs with _ | ⟨hv, _ | _⟩
    · exact .pure hw (.bool _)
    · exact .lift_bind_eq hw hv.truthy_eq fun _ => .pure hw (.bool _)
    · exact .throw hw _
  | parseInt =>
    rcases hargs with _ | ⟨hv, _ | ⟨hradix, _ | _⟩⟩
    · exact .throw hw _
    · exact .read_bind_eq hw (parseInt_eq hs hv .undefined) fun _ => .pure hw (.num _)
    · exact .read_bind_eq hw (parseInt_eq hs hv hradix) fun _ => .pure hw (.num _)
    · exact .throw hw _
  | parseFloat =>
    rcases hargs with _ | ⟨hv, _ | _⟩
    · exact .throw hw _
    · exact .read_bind_eq hw (parseFloat_eq hs hv) fun _ => .pure hw (.num _)
    · exact .throw hw _
  | isNaN =>
    rcases hargs with _ | ⟨hv, _ | _⟩
    · exact .throw hw _
    · refine .read_bind_eq hw (hs.toNumber_eq hv) fun n => ?_
      cases n <;> exact .pure hw (.bool _)
    · exact .throw hw _
  | isFinite =>
    rcases hargs with _ | ⟨hv, _ | _⟩
    · exact .throw hw _
    · exact .read_bind_eq hw (hs.toNumber_eq hv) fun _ => .lift_bind_eq hw rfl fun _ =>
        .pure hw (.bool _)
    · exact .throw hw _

/-! ## Functions and types of the host -/

/-- What is tried on both sides is found or missing on both. -/
theorem agree_elim {α β γ : Type} {R : β → γ → Prop} (hw : World.Agree p w w') (o : Option α)
    (e : Fault) {f : α → Eval β} {g : α → Eval γ} (hfg : ∀ a, Eval.Agree p R w w' (f a) (g a)) :
    Eval.Agree p R w w' (o.elim (throw e) f) (o.elim (throw e) g) := by
  cases o with
  | none => exact .throw hw e
  | some a => exact hfg a

theorem agree_convert {t : HostType} (ht : t = .string → p.spelled) {args args' : List Value}
    (hw : World.Agree p w w') (hargs : Values.Agree p args args') :
    Eval.Agree p (Value.Agree p) w w' (convert t args) (convert t args') := by
  have hs := hw.store
  unfold convert
  cases t with
  | string =>
    rcases hargs with _ | ⟨hv, _ | _⟩
    · exact .pure hw (.text _)
    · exact .read_bind_eq hw (displayOf_eq hs (ht rfl) hv) fun _ => .pure hw (.text _)
    · exact .throw hw _
  | integer =>
    rcases hargs with _ | ⟨hv, _ | ⟨hbase, _ | _⟩⟩
    · exact .pure hw (.num _)
    · cases hv with
      | bool => exact .pure hw (.num _)
      | num n =>
        dsimp only
        cases n.truncate? with
        | some k => exact .pure hw (.num _)
        | none => exact .lift_bind_eq hw rfl fun _ => .throw hw _
      | text t => exact agree_elim hw _ _ fun _ => .pure hw (.num _)
      | _ => exact .throw hw _
    · cases hv with
      | text t =>
        dsimp only
        rw [hostInteger?_eq hbase]
        split
        · exact agree_elim hw _ _ fun _ => .pure hw (.num _)
        · exact .throw hw _
      | _ => exact .throw hw _
    · cases hv <;> exact .throw hw _
  | double =>
    rcases hargs with _ | ⟨hv, _ | _⟩
    · exact .pure hw (.num _)
    · cases hv with
      | bool => exact .pure hw (.num _)
      | num n => exact .lift_bind_eq hw rfl fun _ => .pure hw (.num _)
      | text t => exact agree_elim hw _ _ fun _ => .pure hw (.num _)
      | _ => exact .throw hw _
    · cases hv <;> exact .throw hw _
  | boolean =>
    rcases hargs with _ | ⟨hv, _ | _⟩
    · exact .pure hw (.bool _)
    · refine .get_bind ?_
      rw [hs.hostTruthy_eq hv]
      exact .pure hw (.bool _)
    · exact .throw hw _
  | list =>
    rcases hargs with _ | ⟨hv, _ | _⟩
    · exact .newList hw .nil
    · exact .read_bind hw (hostItems_agree hs hv) fun _ _ hitems => .newList hw hitems
    · exact .throw hw _
  | mapping =>
    rcases hargs with _ | ⟨hv, _ | _⟩
    · exact .newDict hw .nil
    · refine .get_bind ?_
      have hentries := hs.entries? hv
      generalize w.store.entries? _ = entries, w'.store.entries? _ = entries' at hentries ⊢
      cases hentries with
      | some h => exact .newDict hw h
      | none =>
        refine .get_bind ?_
        rw [offersKeys_eq hs hv]
        split
        · exact .throw_bind hw _
        refine .read_bind hw (hostItems_agree hs hv) fun items items' hitems => ?_
        refine (Agree.mapM (S := Entry.Agree p) hw hitems fun _ _ _ _ hitem hw =>
          .read hw (hostPair_agree hw.store hitem)).bind fun _ _ _ _ hpairs hv _ _ => ?_
        exact .newDict hv (Table.Agree.insertAll .nil hpairs)
    · exact .throw hw _

theorem agree_callHost (f : HostFunction) {args args' : List Value} (hw : World.Agree p w w')
    (hargs : Values.Agree p args args') :
    Eval.Agree p (Value.Agree p) w w' (callHost f args) (callHost f args') := by
  have hfirst := hargs.headD (a := .undefined) (b := .undefined) .undefined
  cases f with
  | boom => exact .throw hw _
  | track =>
    have himages : shownItems (args.map w.store.imageOf) =
        shownItems (args'.map w'.store.imageOf) := by
      rw [shownItems_eq, shownItems_eq, List.map_map, List.map_map]
      exact hargs.map_eq fun _ _ hv => imageOf_shown_eq hw.store hv
    refine .ok hfirst ⟨hw.store, ?_, hw.now, hw.chance⟩ ⟨Nat.le_refl _, rfl⟩ ⟨Nat.le_refl _, rfl⟩
    rw [List.map_cons, List.map_cons, himages, hw.calls]
  | identity => exact .pure hw hfirst
  | argc =>
    unfold callHost
    rw [hargs.length_eq]
    exact .pure hw (.num _)
  | later => exact .allocate hw (.pending (.later hfirst)) rfl rfl trivial trivial
  | failLater => exact .allocate hw (.pending .failing) rfl rfl trivial trivial

end Eval

end GuardedText
