import GuardedText.Proofs.Scope.Session

/-
  Array functions that call a function on the items. The calls that one of them makes are a `Trail`:
  each is on the item that the array has at the next index at that moment, and it goes on until a
  call settles the result or the array has no such item. Whatever the calls do, the indices ascend
  (`Trail.indices`). If no call changes the length of the array, the trail ends, it is not longer than
  the array was at first, and the array function gives what the calls on it gave (`callArray_visits`).
  An array that is made longer is gone through further (`callArray_outruns`).
-/

namespace GuardedText

/-- The items of an array in a world. -/
def World.items (w : World) (v : Value) : List Value := (w.store.items? v).getD []

namespace Eval

open Store

/-- The functions of an array that call a function on its items. -/
def visiting : List Method := [.arrayMap, .arrayFilter, .arraySome, .arrayEvery, .arrayFind]

/-- Whether an array function stops at an item that passes, or at one that fails. -/
def stopsAt (m : Method) (passes : Bool) : Bool :=
  match m with
  | .arraySome | .arrayFind => passes
  | .arrayEvery => !passes
  | _ => false

/-- Whether an array function is at its end with a result of the function that it calls. -/
def settledBy (m : Method) : Except Fault Value → Bool
  | .error _ => true
  | .ok result =>
    if m = .arrayMap then false
    else match truthy result with
      | .error _ => true
      | .ok b => stopsAt m b

/-! ## Visits -/

/-- A call of a function on an item of an array. -/
structure Visit where
  /-- The index of the item. -/
  index : Nat
  /-- The item. -/
  item : Value
  /-- The world before the call. -/
  before : World
  /-- What the call gives. -/
  result : Except Fault Value
  /-- The world after the call. -/
  after : World

namespace Visit

/-- How the call ends. -/
def outcome (v : Visit) : EStateM.Result Fault World Value :=
  match v.result with
  | .ok result => .ok result v.after
  | .error e => .error e v.after

/-- Whether the result counts as true. -/
def passes (v : Visit) : Except Fault Bool := v.result.bind truthy

/-- The call leaves the array as long as it was. -/
def Keeps (v : Visit) (array : Value) : Prop :=
  (v.after.items array).length = (v.before.items array).length

/-- A visit is made in a world: a function is called on the item that the array has at an index, with
the index and the array. -/
structure Made (call : Caller) (array f : Value) (i : Nat) (w : World) (v : Visit) : Prop where
  index : v.index = i
  before : v.before = w
  item : (w.items array)[i]? = some v.item
  call : call f [v.item, .num (.int i), array] w = v.outcome

theorem exists_made (call : Caller) {array f item : Value} {i : Nat} {w : World}
    (hitem : (w.items array)[i]? = some item) : ∃ v : Visit, v.Made call array f i w := by
  cases hcall : call f [item, .num (.int i), array] w with
  | ok result u => exact ⟨⟨i, item, w, .ok result, u⟩, rfl, rfl, hitem, hcall⟩
  | error e u => exact ⟨⟨i, item, w, .error e, u⟩, rfl, rfl, hitem, hcall⟩

end Visit

/-- A visit that an array function makes from an index on. -/
inductive Visited (call : Caller) (m : Method) (array f : Value) : Nat → World → Visit → Prop where
  | now {i : Nat} {w : World} {v : Visit} (hv : v.Made call array f i w) :
    Visited call m array f i w v
  | later {i : Nat} {w : World} {v u : Visit} (hv : v.Made call array f i w)
    (hs : settledBy m v.result = false) (hrest : Visited call m array f (i + 1) v.after u) :
    Visited call m array f i w u

/-- All visits that an array function makes from an index on, and the world after them. -/
inductive Trail (call : Caller) (m : Method) (array f : Value) :
    Nat → World → List Visit → World → Prop where
  | past {i : Nat} {w : World} (hpast : (w.items array)[i]? = none) : Trail call m array f i w [] w
  | last {i : Nat} {w : World} {v : Visit} (hv : v.Made call array f i w)
    (hs : settledBy m v.result = true) : Trail call m array f i w [v] v.after
  | more {i : Nat} {w w' : World} {v : Visit} {visits : List Visit} (hv : v.Made call array f i w)
    (hs : settledBy m v.result = false) (hrest : Trail call m array f (i + 1) v.after visits w') :
    Trail call m array f i w (v :: visits) w'

namespace Trail

variable {call : Caller} {m : Method} {array f : Value} {i : Nat} {w w' : World}
  {visits : List Visit}

/-- The indices ascend, each of them once. -/
theorem indices (h : Trail call m array f i w visits w') :
    visits.map Visit.index = List.range' i visits.length := by
  induction h with
  | past => rfl
  | last hv => simp [hv.index]
  | more hv _ _ ih => simp [hv.index, ih, List.range'_succ]

theorem visited (h : Trail call m array f i w visits w') :
    ∀ v ∈ visits, Visited call m array f i w v := by
  induction h with
  | past => simp
  | last hv => simpa using Visited.now hv
  | more hv hs _ ih =>
    rintro v (_ | ⟨_, hv'⟩)
    · exact .now hv
    · exact .later hv hs (ih v hv')

/-- An array that stays as long as it is is gone through to its end at most. -/
theorem length_le (h : Trail call m array f i w visits w') (hkeep : ∀ v ∈ visits, v.Keeps array)
    (hi : i ≤ (w.items array).length) : i + visits.length ≤ (w.items array).length := by
  induction h with
  | past => exact hi
  | last hv => exact (List.getElem?_eq_some_iff.1 hv.item).1
  | more hv _ _ ih =>
    obtain ⟨hv', hrest⟩ := List.forall_mem_cons.1 hkeep
    have hlt := (List.getElem?_eq_some_iff.1 hv.item).1
    rw [Visit.Keeps, hv.before] at hv'
    have := ih hrest (by omega)
    rw [List.length_cons]
    omega

/-- It is gone through to its end if no call settles the result. -/
theorem length_eq (h : Trail call m array f i w visits w') (hkeep : ∀ v ∈ visits, v.Keeps array)
    (hi : i ≤ (w.items array).length) (hopen : ∀ v ∈ visits, settledBy m v.result = false) :
    i + visits.length = (w.items array).length := by
  induction h with
  | past hpast => exact Nat.le_antisymm hi (List.getElem?_eq_none_iff.1 hpast)
  | last _ hs =>
    rw [hopen _ List.mem_cons_self] at hs
    cases hs
  | more hv _ _ ih =>
    obtain ⟨hv', hrest⟩ := List.forall_mem_cons.1 hkeep
    have hlt := (List.getElem?_eq_some_iff.1 hv.item).1
    rw [Visit.Keeps, hv.before] at hv'
    have := ih hrest (by omega) (List.forall_mem_cons.1 hopen).2
    rw [List.length_cons]
    omega

end Trail

/-! ## The loop -/

/-- What going through some visits gives; `step` takes an item and its result and tells whether to
stop. -/
def through {α : Type} (step : α → Value → Value → Except Fault (α × Bool)) :
    α → List Visit → Except Fault α
  | acc, [] => .ok acc
  | acc, v :: visits => do
    let result ← v.result
    let (acc, stop) ← step acc v.item result
    if stop then return acc else through step acc visits

/-- A step that stops when an array function is settled. -/
def Stops {α : Type} (m : Method) (step : α → Value → Value → Except Fault (α × Bool)) : Prop :=
  ∀ acc item result, (∃ e, step acc item result = .error e ∧ settledBy m (.ok result) = true) ∨
    ∃ next, step acc item result = .ok (next, settledBy m (.ok result))

theorem lift_ok_bind {α β : Type} (a : α) (k : α → Eval β) : (lift (.ok a) >>= k) = k a := rfl

theorem lift_error_bind {α β : Type} (e : Fault) (k : α → Eval β) :
    (lift (.error e) >>= k) = lift (.error e) := rfl

theorem through_cons {α : Type} {step : α → Value → Value → Except Fault (α × Bool)} {acc : α}
    {v : Visit} {visits : List Visit} {result : Value} (hresult : v.result = .ok result) :
    through step acc (v :: visits) = step acc v.item result >>= fun (acc, stop) =>
      if stop then return acc else through step acc visits := by
  rw [through, hresult]
  rfl

theorem bind_of_eq {α β : Type} {x y : Eval α} {w w' : World} (h : x w = y w') (k : α → Eval β) :
    (x >>= k) w = (y >>= k) w' := by
  simp only [bind, EStateM.bind, h]

section

variable {call : Caller} {m : Method} {array f : Value} {α : Type}
  {step : α → Value → Value → Except Fault (α × Bool)}

theorem visit_none {fuel i : Nat} {acc : α} {w : World} (h : (w.items array)[i]? = none) :
    visit call array f step (fuel + 1) i acc w = .ok acc w := by
  have hitems : itemsNow array w = .ok (w.items array) w := rfl
  simp only [visit, bind, EStateM.bind, hitems, h]
  rfl

theorem visit_made {fuel i : Nat} {acc : α} {w : World} {v : Visit}
    (hv : v.Made call array f i w) :
    visit call array f step (fuel + 1) i acc w = (do
      let result ← lift v.result
      let (acc, stop) ← lift (step acc v.item result)
      if stop then return acc else visit call array f step fuel (i + 1) acc) v.after := by
  have hitems : itemsNow array w = .ok (w.items array) w := rfl
  simp only [visit, bind, EStateM.bind, hitems, hv.item, hv.call, Visit.outcome]
  cases v.result <;> rfl

/-- The loop makes the visits of a trail, if they leave the array as long as it is, and gives what
going through them gives. -/
theorem visit_trail (hstep : Stops m step) {fuel i : Nat} {acc : α} {w : World}
    (hi : i ≤ (w.items array).length) (hfuel : (w.items array).length < i + fuel)
    (hkeep : ∀ v, Visited call m array f i w v → v.Keeps array) :
    ∃ visits w', Trail call m array f i w visits w' ∧
      visit call array f step fuel i acc w = lift (through step acc visits) w' := by
  induction fuel generalizing i acc w with
  | zero => omega
  | succ fuel ih =>
    cases hitem : (w.items array)[i]? with
    | none => exact ⟨[], w, .past hitem, visit_none hitem⟩
    | some item =>
      obtain ⟨v, hv⟩ := Visit.exists_made call hitem
      have hlt := (List.getElem?_eq_some_iff.1 hitem).1
      have hsame := hkeep v (.now hv)
      rw [Visit.Keeps, hv.before] at hsame
      rw [visit_made hv]
      cases hresult : v.result with
      | error e =>
        refine ⟨[v], v.after, .last hv (by rw [hresult]; rfl), ?_⟩
        rw [through, hresult]
        rfl
      | ok result =>
        rw [lift_ok_bind]
        rcases hstep acc v.item result with ⟨e, he, hs⟩ | ⟨next, hnext⟩
        · refine ⟨[v], v.after, .last hv (by rw [hresult, hs]), ?_⟩
          rw [through_cons hresult, he]
          rfl
        · rw [hnext, lift_ok_bind]
          cases hs : settledBy m (.ok result) with
          | true =>
            refine ⟨[v], v.after, .last hv (by rw [hresult, hs]), ?_⟩
            rw [through_cons hresult, hnext, hs]
            rfl
          | false =>
            have hmore : settledBy m v.result = false := by rw [hresult, hs]
            obtain ⟨visits, w', htrail, hvisit⟩ := @ih (i + 1) next v.after (by omega) (by omega)
              fun u hu => hkeep u (.later hv hmore hu)
            refine ⟨v :: visits, w', .more hv hmore htrail, ?_⟩
            rw [through_cons hresult, hnext, hs]
            exact hvisit

theorem visitAll_trail (hstep : Stops m step) (start : α) {w : World}
    (hf : w.store.callable f = true)
    (hkeep : ∀ v, Visited call m array f 0 w v → v.Keeps array) :
    ∃ visits w', Trail call m array f 0 w visits w' ∧
      visitAll call array f start step w = lift (through step start visits) w' := by
  have hloop : visitAll call array f start step w =
      visit call array f step (itemLimit (w.items array)) 0 start w := by
    simp only [visitAll, bind, EStateM.bind, get, getThe, MonadStateOf.get, EStateM.get, hf]
    rfl
  have hfuel : (w.items array).length < 0 + itemLimit (w.items array) := by
    have : 0 < twoTo 32 := by decide
    rw [itemLimit]
    omega
  rw [hloop]
  exact visit_trail hstep (Nat.zero_le _) hfuel hkeep

end

/-! ## Results -/

/-- What an array function makes of the visits it made. -/
def gather (m : Method) (visits : List Visit) : Eval Value :=
  match m with
  | .arrayMap => do newList (← lift (visits.mapM Visit.result))
  | .arrayFilter => do newList ((← lift (visits.filterM Visit.passes)).map Visit.item)
  | .arraySome => return .bool (← lift (visits.anyM Visit.passes))
  | .arrayEvery => return .bool (← lift (visits.allM Visit.passes))
  | .arrayFind => return ((← lift (visits.findM? Visit.passes)).map Visit.item).getD .undefined
  | _ => throw .badCall

/-! ## The steps -/

/-- The step of a function that gathers the results. -/
def mapStep (acc : List Value) (_ result : Value) : Except Fault (List Value × Bool) :=
  .ok (result :: acc, false)

/-- The step of a function that tests the items. -/
def testStep {α : Type} (m : Method) (next : α → Value → Bool → α) (acc : α) (item result : Value) :
    Except Fault (α × Bool) := do
  let b ← truthy result
  return (next acc item b, stopsAt m b)

/-- The items that pass, the last one first. -/
def keepPassing (acc : List Value) (item : Value) (b : Bool) : List Value :=
  if b then item :: acc else acc

/-- The item, if it passes. -/
def takePassing (acc item : Value) (b : Bool) : Value := if b then item else acc

theorem filterStep_eq : (fun (acc : List Value) item result => do
      if ← truthy result then return (item :: acc, false) else return (acc, false)) =
    testStep .arrayFilter keepPassing := by
  funext acc item result
  rw [testStep]
  cases truthy result with
  | error e => rfl
  | ok b => cases b <;> rfl

theorem findStep_eq : (fun acc item result => do
      if ← truthy result then return (item, true) else return (acc, false)) =
    testStep .arrayFind takePassing := by
  funext acc item result
  rw [testStep]
  cases truthy result with
  | error e => rfl
  | ok b => cases b <;> rfl

theorem stops_mapStep : Stops .arrayMap mapStep := fun acc _ result => Or.inr ⟨result :: acc, rfl⟩

theorem stops_testStep {α : Type} {m : Method} (hm : m ≠ .arrayMap)
    (next : α → Value → Bool → α) : Stops m (testStep m next) := by
  intro acc item result
  rw [settledBy, if_neg hm, testStep]
  cases truthy result with
  | error e => exact Or.inl ⟨e, rfl, rfl⟩
  | ok b => exact Or.inr ⟨next acc item b, rfl⟩

theorem through_mapStep (acc : List Value) (visits : List Visit) :
    through mapStep acc visits =
      (visits.mapM Visit.result).map fun results => results.reverse ++ acc := by
  induction visits generalizing acc with
  | nil => rfl
  | cons v visits ih =>
    rw [List.mapM_cons]
    cases hresult : v.result with
    | error e => rw [through, hresult]; rfl
    | ok result =>
      have hrest : through mapStep acc (v :: visits) = through mapStep (result :: acc) visits :=
        through_cons hresult
      rw [hrest, ih]
      change _ = Except.map _ ((visits.mapM Visit.result).bind fun results => .ok (result :: results))
      cases visits.mapM Visit.result <;> simp [Except.map, Except.bind]

section

variable {α : Type} {m : Method} {next : α → Value → Bool → α} {acc : α} {v : Visit}
  {visits : List Visit}

theorem through_testStep_error {e : Fault} (h : v.passes = .error e) :
    through (testStep m next) acc (v :: visits) = .error e := by
  unfold Visit.passes at h
  cases hresult : v.result with
  | error e' =>
    rw [hresult] at h
    cases h
    rw [through, hresult]
    rfl
  | ok result =>
    rw [hresult] at h
    rw [through_cons hresult, testStep, show truthy result = .error e from h]
    rfl

theorem through_testStep_ok {b : Bool} (h : v.passes = .ok b) :
    through (testStep m next) acc (v :: visits) =
      if stopsAt m b then .ok (next acc v.item b)
      else through (testStep m next) (next acc v.item b) visits := by
  unfold Visit.passes at h
  cases hresult : v.result with
  | error e =>
    rw [hresult] at h
    cases h
  | ok result =>
    rw [hresult] at h
    rw [through_cons hresult, testStep, show truthy result = .ok b from h]
    rfl

end

theorem through_filter (kept visits : List Visit) :
    through (testStep .arrayFilter keepPassing) (kept.map Visit.item) visits =
      (visits.filterAuxM Visit.passes kept).map (List.map Visit.item) := by
  induction visits generalizing kept with
  | nil => rfl
  | cons v visits ih =>
    rw [List.filterAuxM]
    cases hpasses : v.passes with
    | error e => exact through_testStep_error hpasses
    | ok b =>
      rw [through_testStep_ok hpasses]
      cases b with
      | false => exact ih kept
      | true => exact ih (v :: kept)

theorem through_some (visits : List Visit) :
    through (testStep .arraySome fun _ _ b => b) false visits = visits.anyM Visit.passes := by
  induction visits with
  | nil => rfl
  | cons v visits ih =>
    rw [List.anyM]
    cases hpasses : v.passes with
    | error e => exact through_testStep_error hpasses
    | ok b =>
      rw [through_testStep_ok hpasses]
      cases b with
      | false => exact ih
      | true => rfl

theorem through_every (visits : List Visit) :
    through (testStep .arrayEvery fun _ _ b => b) true visits = visits.allM Visit.passes := by
  induction visits with
  | nil => rfl
  | cons v visits ih =>
    rw [List.allM]
    cases hpasses : v.passes with
    | error e => exact through_testStep_error hpasses
    | ok b =>
      rw [through_testStep_ok hpasses]
      cases b with
      | false => rfl
      | true => exact ih

theorem through_find (visits : List Visit) :
    through (testStep .arrayFind takePassing) .undefined visits =
      (visits.findM? Visit.passes).map fun found => (found.map Visit.item).getD .undefined := by
  induction visits with
  | nil => rfl
  | cons v visits ih =>
    rw [List.findM?]
    cases hpasses : v.passes with
    | error e => exact through_testStep_error hpasses
    | ok b =>
      rw [through_testStep_ok hpasses]
      cases b with
      | false => exact ih
      | true => rfl

/-! ## Array functions -/

section

variable {call : Caller} {m : Method} {array f : Value} {w : World}

/-- An array function makes the visits of a trail and gathers what they give, if they leave the array
as long as it is. -/
theorem callArray_gather (hm : m ∈ visiting) (hf : w.store.callable f = true)
    (hkeep : ∀ v, Visited call m array f 0 w v → v.Keeps array) :
    ∃ visits w', Trail call m array f 0 w visits w' ∧
      callArray call m array [f] w = gather m visits w' := by
  simp only [visiting, List.mem_cons, List.not_mem_nil, or_false] at hm
  rcases hm with rfl | rfl | rfl | rfl | rfl
  · obtain ⟨visits, w', htrail, hvisits⟩ := visitAll_trail stops_mapStep [] hf hkeep
    refine ⟨visits, w', htrail, (bind_of_eq hvisits fun results => newList results.reverse).trans ?_⟩
    rw [through_mapStep]
    unfold gather
    cases visits.mapM Visit.result with
    | error e => rfl
    | ok results =>
      simp only [Except.map, List.append_nil, lift_ok_bind, List.reverse_reverse]
  · obtain ⟨visits, w', htrail, hvisits⟩ :=
      visitAll_trail (stops_testStep (by decide) keepPassing) [] hf hkeep
    rw [← filterStep_eq] at hvisits
    refine ⟨visits, w', htrail, (bind_of_eq hvisits fun kept => newList kept.reverse).trans ?_⟩
    rw [filterStep_eq, show ([] : List Value) = [].map Visit.item from rfl, through_filter]
    unfold gather List.filterM
    cases visits.filterAuxM Visit.passes [] with
    | error e => rfl
    | ok kept =>
      rw [Except.map, lift_ok_bind, ← List.map_reverse]
      rfl
  · obtain ⟨visits, w', htrail, hvisits⟩ :=
      visitAll_trail (stops_testStep (by decide) fun _ _ b => b) false hf hkeep
    refine ⟨visits, w', htrail, (bind_of_eq hvisits fun b => pure (Value.bool b)).trans ?_⟩
    rw [through_some]
    rfl
  · obtain ⟨visits, w', htrail, hvisits⟩ :=
      visitAll_trail (stops_testStep (by decide) fun _ _ b => b) true hf hkeep
    refine ⟨visits, w', htrail, (bind_of_eq hvisits fun b => pure (Value.bool b)).trans ?_⟩
    rw [through_every]
    rfl
  · obtain ⟨visits, w', htrail, hvisits⟩ :=
      visitAll_trail (stops_testStep (by decide) takePassing) .undefined hf hkeep
    rw [← findStep_eq] at hvisits
    refine ⟨visits, w', htrail, hvisits.trans ?_⟩
    rw [findStep_eq, through_find]
    unfold gather
    cases visits.findM? Visit.passes <;> rfl

theorem results_of_mapM {visits : List Visit} {results : List Value}
    (h : visits.mapM Visit.result = .ok results) :
    visits.map Visit.result = results.map .ok := by
  induction visits generalizing results with
  | nil =>
    cases h
    rfl
  | cons v visits ih =>
    rw [List.mapM_cons] at h
    change v.result.bind (fun result => (visits.mapM Visit.result).bind fun rest =>
      .ok (result :: rest)) = _ at h
    cases hresult : v.result with
    | error e => simp [hresult, Except.bind] at h
    | ok result =>
      cases hrest : visits.mapM Visit.result with
      | error e => simp [hresult, hrest, Except.bind] at h
      | ok rest =>
        simp only [hresult, hrest, Except.bind, Except.ok.injEq] at h
        rw [← h, List.map_cons, List.map_cons, hresult, ih hrest]

/-- An array of results has as many of them as the array had items. -/
theorem length_of_gather {visits : List Visit} {w' u : World} {v : Value}
    (htrail : Trail call .arrayMap array f 0 w visits w') (hkeep : ∀ v ∈ visits, v.Keeps array)
    (h : gather .arrayMap visits w' = .ok v u) : (u.items v).length = (w.items array).length := by
  unfold gather at h
  cases hresults : visits.mapM Visit.result with
  | error e =>
    rw [hresults, lift_error_bind] at h
    cases h
  | ok results =>
    rw [hresults, lift_ok_bind] at h
    cases h
    have hmap := results_of_mapM hresults
    have hopen : ∀ v ∈ visits, settledBy .arrayMap v.result = false := by
      intro v hv
      obtain ⟨result, -, hresult⟩ := List.mem_map.1 (hmap ▸ List.mem_map_of_mem hv)
      rw [← hresult]
      rfl
    have hlength := htrail.length_eq hkeep (Nat.zero_le _) hopen
    have hsame := congrArg List.length hmap
    rw [List.length_map, List.length_map] at hsame
    have hitems : World.items { w' with store := w'.store.push (.list results) }
        (.ref w'.store.size) = results := by
      simp [World.items, Store.items?, Store.get?]
    rw [hitems]
    omega

/-- If no call of the function changes the length of the array, an array function calls it at most
once for each index that the array had at first, in ascending order. It returns or throws what these
calls gave, and an array of results has as many of them as the array had items at first. -/
theorem callArray_visits (hm : m ∈ visiting) (hf : w.store.callable f = true)
    (hkeep : ∀ v, Visited call m array f 0 w v → v.Keeps array) :
    ∃ visits w', Trail call m array f 0 w visits w' ∧
      visits.map Visit.index = List.range visits.length ∧
      visits.length ≤ (w.items array).length ∧
      callArray call m array [f] w = gather m visits w' ∧
      (m = .arrayMap → ∀ v u, callArray call m array [f] w = .ok v u →
        (u.items v).length = (w.items array).length) := by
  obtain ⟨visits, w', htrail, hgather⟩ := callArray_gather hm hf hkeep
  have hkept : ∀ v ∈ visits, v.Keeps array := fun v hv => hkeep v (htrail.visited v hv)
  refine ⟨visits, w', htrail, ?_, ?_, hgather, ?_⟩
  · rw [htrail.indices, List.range_eq_range']
  · have := htrail.length_le hkept (Nat.zero_le _)
    omega
  · rintro rfl v u h
    exact length_of_gather htrail hkept (hgather.symm.trans h)

end

/-- A function that puts each item it is called with at the start of an array. -/
def putFirst : Caller := fun _ args => do
  let items ← itemsNow (.ref 0)
  replace 0 (.list (items.set 0 (args.headD .undefined)))
  return args.headD .undefined

theorem putFirst_keeps (g : Value) (args : List Value) (w : World) :
    ∃ u, putFirst g args w = .ok (args.headD .undefined) u ∧
      (u.items (.ref 0)).length = (w.items (.ref 0)).length := by
  let items := (w.items (.ref 0)).set 0 (args.headD .undefined)
  refine ⟨{ w with store := w.store.setIfInBounds 0 (.list items) }, rfl, ?_⟩
  by_cases hsize : 0 < w.store.size
  · have hget : (w.store.setIfInBounds 0 (.list items))[0]? = some (.list items) := by
      simp [hsize]
    rw [World.items, Store.items?, Store.get?, hget]
    exact List.length_set
  · rw [Array.setIfInBounds_eq_of_size_le (Nat.le_of_not_lt hsize)]

/-- An array of two numbers. -/
def twoItems : World where
  store := #[.list [.num (.int 1), .num (.int 2)]]

theorem callArray_visits_putFirst :
    Method.arrayMap ∈ visiting ∧ twoItems.store.callable (.type .string) = true ∧
      (∀ v, Visited putFirst .arrayMap (.ref 0) (.type .string) 0 twoItems v → v.Keeps (.ref 0)) ∧
      ∃ visits w', Trail putFirst .arrayMap (.ref 0) (.type .string) 0 twoItems visits w' ∧
        visits.map Visit.index = List.range visits.length ∧
        visits.length ≤ (twoItems.items (.ref 0)).length := by
  have hkeep : ∀ i w v, Visited putFirst .arrayMap (.ref 0) (.type .string) i w v →
      v.Keeps (.ref 0) := by
    intro i w v hv
    induction hv with
    | later _ _ _ ih => exact ih
    | @now i w v hv =>
      obtain ⟨u, hcall, hsame⟩ := putFirst_keeps (.type .string) [v.item, .num (.int i), .ref 0] w
      have hafter : v.after = u := by
        have := hv.call.symm.trans hcall
        unfold Visit.outcome at this
        cases hresult : v.result <;> rw [hresult] at this <;> cases this
        rfl
      rw [Visit.Keeps, hafter, hv.before]
      exact hsame
  obtain ⟨visits, w', htrail, hindices, hlength, -⟩ :=
    callArray_visits (by decide) rfl (hkeep 0 twoItems)
  exact ⟨by decide, rfl, hkeep 0 twoItems, visits, w', htrail, hindices, hlength⟩

/-- Whether a value is this integer. -/
def isInteger (n : Int) : Value → Bool
  | .num (.int k) => k == n
  | _ => false

theorem eq_of_isInteger {n : Int} {v : Value} (h : isInteger n v = true) : v = .num (.int n) := by
  unfold isInteger at h
  split at h
  · rw [beq_iff_eq.1 h]
  · cases h

/-- A guard that is checked to give an integer does so. -/
theorem alone_of_isInteger {source : Text} {n : Int}
    (h : (Guard.compile source).toOption.any (fun g =>
      g.alone.any fun result => isInteger n result.2.2.1) = true) :
    ∃ g root u v, Guard.compile source = .ok g ∧
      g.alone = some (root, u, .num (.int n), v) := by
  obtain ⟨g, hcompile, hrun⟩ := (Option.any_eq_true ..).1 h
  obtain ⟨⟨root, u, value, v⟩, halone, hvalue⟩ := (Option.any_eq_true ..).1 hrun
  obtain rfl := eq_of_isInteger hvalue
  exact ⟨g, root, u, v, Except.eq_ok_of_toOption hcompile, halone⟩

/-- An array of one item that the function called makes longer gives two results. -/
theorem callArray_outruns :
    ∃ g root u v, Guard.compile "a = [1], a.map(x => a[1] = 2).length" = .ok g ∧
      g.alone = some (root, u, .num (.int 2), v) :=
  alone_of_isInteger (by decide +kernel)

end Eval

end GuardedText
