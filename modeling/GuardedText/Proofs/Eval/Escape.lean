import GuardedText.Proofs.Eval.Bodies
import GuardedText.Proofs.Eval.Chained

/-
  No missing base escapes. Evaluating an expression in which every optional access lies on the spine
  of a chain does not end in the fault by which such an access leaves its chain, nor does any call,
  if the same is so of the bodies of all functions (`World.Chained`, `Eval.contained_run`). A guard
  can undo this: it may put what a chain has inside it in the place of the body of a function, and
  then a call of that function has no chain around its accesses.
-/

namespace GuardedText

/-- In the bodies of all functions every optional access lies on the spine of a chain. An expression
in the syntax of a function may be what stood inside of one. -/
def World.Chained (w : World) : Prop :=
  ∀ o ∈ w.store, o.HasBody (·.Chained false) (·.Chained true)

theorem World.chained_initial (now : Int) (chance : Float) :
    (World.initial now chance).Chained := by
  intro o ho
  obtain ⟨b, -, rfl⟩ := List.mem_map.1 (List.mem_toArray.1 ho)
  trivial

theorem Expr.chained_exposed {e : Expr} (h : e.Chained false) :
    ∀ e' ∈ e.exposed, e'.Chained true := by
  cases e with
  | chain e closed =>
    intro e' he'
    rcases List.mem_pair.1 he' with rfl | rfl <;> exact h
  | _ =>
    intro e' he'
    cases List.mem_singleton.1 he'
    exact Expr.chained_within _ h

/-- The regime of such worlds, in which no evaluation stops for want of a base unless a guard has
overridden the body of a function; `already` tells whether one has from the start. -/
@[reducible]
def unescaped (already : Prop) : Regime.Lenient where
  inv s := (∀ o ∈ s, o.HasBody (·.Chained false) (·.Chained true)) ∧ (already → s.Overridden)
  may e s := s.Overridden ∨ e ≠ .shortCircuit
  ordinary h := .inr fun hbase => h (Fault.isControl_iff.2 (.inr hbase))
  push hs ho := ⟨Store.hasBody_push hs.1 ho.hasBody, fun h => (hs.2 h).push _⟩
  spend {_ r _} hs hr :=
    ⟨Store.hasBody_set hs.1 r trivial, fun h => (hs.2 h).set hr (False.elim ·)⟩
  put {_ r _ _ _ _ _} hs hr h :=
    ⟨Store.hasBody_set hs.1 r (Obj.HasBody.put (hs.1 _ (Array.mem_of_getElem? hr)) h),
      fun hover => (hs.2 hover).set hr (Obj.IsOverridden.put h)⟩
  drop {_ r _ _ _ _} hs hr h :=
    ⟨Store.hasBody_set hs.1 r (Obj.HasBody.drop (hs.1 _ (Array.mem_of_getElem? hr)) h),
      fun hover => (hs.2 hover).set hr (Obj.IsOverridden.drop h)⟩
  rebind {_ r _} _ hs hr :=
    ⟨Store.hasBody_set hs.1 r trivial, fun h => (hs.2 h).set hr (False.elim ·)⟩
  enter _ _ _ hs := ⟨Store.hasBody_push hs.1 trivial, fun h => (hs.2 h).push _⟩
  body := (·.Chained false)
  expose _ hs he hmem :=
    ⟨Store.hasBody_push hs.1 (Expr.chained_exposed he _ hmem), fun h => (hs.2 h).push _⟩
  close _ _ _ hs hbody := ⟨Store.hasBody_push hs.1 hbody, fun h => (hs.2 h).push _⟩
  closed hs hr := hs.1 _ (Array.mem_of_getElem? hr)

/-- The policy of an expression in which every optional access lies on the spine of a chain. -/
def Policy.chained : Policy where
  waits := True
  loose := False
  writes := True
  body e := e.Chained false

mutual

/-- An expression whose optional accesses lie on the spines of chains keeps to the policy. -/
theorem Expr.within_of_chained {inside : Bool} {P : Prop} (hP : inside = true → P) :
    ∀ e : Expr, e.Chained inside → e.Within .chained P
  | .literal _, _ | .name _, _ => trivial
  | .array items, h => withinItems_of_chained items h
  | .object entries, h => withinEntries_of_chained entries h
  | .unary _ e, h | .deleteValue e, h => e.within_of_chained nofun h
  | .delete place, h => place.within_of_chained h
  | .await e, h => ⟨trivial, e.within_of_chained nofun h⟩
  | .binary _ l r, h | .logical _ l r, h =>
    ⟨l.within_of_chained nofun h.1, r.within_of_chained nofun h.2⟩
  | .conditional t c a, h =>
    ⟨t.within_of_chained nofun h.1, c.within_of_chained nofun h.2.1,
      a.within_of_chained nofun h.2.2⟩
  | .assign _ place value, h => ⟨place.within_of_chained h.1, value.within_of_chained nofun h.2⟩
  | .sequence parts, h => withinAll_of_chained parts h
  | .member o _ _, h => ⟨hP ∘ h.1, o.within_of_chained hP h.2⟩
  | .index o k _, h => ⟨hP ∘ h.1, o.within_of_chained hP h.2.1, k.within_of_chained nofun h.2.2⟩
  | .call callee arguments _, h =>
    ⟨hP ∘ h.1, callee.within_of_chained hP h.2.1, withinItems_of_chained arguments h.2.2⟩
  | .arrow _ _, h => h
  | .chain body _, h => body.within_of_chained (fun _ => trivial) h

theorem Place.within_of_chained : ∀ place : Place, place.Chained → place.Within .chained
  | .name _, _ => trivial
  | .member object _, h => ⟨trivial, object.within_of_chained nofun h⟩
  | .index object key, h =>
    ⟨trivial, object.within_of_chained nofun h.1, key.within_of_chained nofun h.2⟩

theorem withinAll_of_chained : ∀ es : List Expr, chainedAll es → withinAll .chained es
  | [], _ => trivial
  | e :: es, h => ⟨e.within_of_chained nofun h.1, withinAll_of_chained es h.2⟩

theorem withinItems_of_chained :
    ∀ items : List Item, chainedItems items → withinItems .chained items
  | [], _ => trivial
  | .single e :: items, h | .spread e :: items, h =>
    ⟨e.within_of_chained nofun h.1, withinItems_of_chained items h.2⟩

theorem withinEntries_of_chained :
    ∀ entries : List Entry, chainedEntries entries → withinEntries .chained entries
  | [], _ => trivial
  | .named _ e :: entries, h | .spread e :: entries, h =>
    ⟨e.within_of_chained nofun h.1, withinEntries_of_chained entries h.2⟩
  | .computed k e :: entries, h =>
    ⟨k.within_of_chained nofun h.1, e.within_of_chained nofun h.2.1,
      withinEntries_of_chained entries h.2.2⟩

end

namespace Eval

/-- A computation that starts where every optional access in the body of a function lies on the
spine of a chain and that stays outside of the objects of the host leaves it so. It does not stop
for want of a base, unless a guard has overridden the body of a function by then. -/
def Contained {α : Type} (x : Eval α) : Prop :=
  ∀ w, w.Chained → StaysOutside (x w) → (∀ a w', x w = .ok a w' → w'.Chained) ∧
    ∀ e w', x w = .error e w' → (w'.store.Overridden ∨ e ≠ .shortCircuit) ∧ w'.Chained

theorem contained_of_obeys {α : Type} {x : Eval α} (hx : letI := unescaped False; Obeys x) :
    Contained x := by
  intro w hw _
  let _ := unescaped False
  obtain ⟨hok, herror⟩ := obeys_iff.1 hx w ⟨hw, False.elim⟩
  exact ⟨fun a w' h => (hok a w' h).1, fun e w' h => ⟨(herror e w' h).1, (herror e w' h).2.1⟩⟩

/-- Evaluating an expression on the spine of a chain may stop for want of a base, so there a body
has to be overridden already. -/
theorem unescaped_evaluate {already : Prop} {inside : Bool} (hinside : inside = true → already)
    {call : Caller} (hcall : ∀ f args, letI := unescaped already; Obeys (call f args))
    (waiting : Waiting) (frame : Ref) {e : Expr} (h : e.Chained inside) :
    letI := unescaped already; Obeys (evaluate call waiting frame e) := by
  let _ := unescaped already
  exact within_evaluate
    (Admits.lenient (fun _ => .inr fun _ _ => .inr nofun) False.elim (fun _ h => h) hcall)
    (fun hin _ hw => .inl (hw.2 (hinside hin))) e (e.within_of_chained id h)

/-- A call may stop for want of a base only once a body is overridden: then what it evaluates may
have stood inside of a chain. -/
theorem unescaped_callValue (already : Prop) (depth : Nat) (f : Value) (args : List Value) :
    letI := unescaped already; Obeys (callValue depth f args) := by
  induction depth generalizing already f args with
  | zero =>
    let _ := unescaped already
    exact obeys_throw (by simp)
  | succ depth ih =>
    let _ := unescaped already
    refine obeys_callValue_succ (ih already)
      (fun {w r frame params written attributes} hw hr args => ?_) f args
    have henter := enter_apply w params frame args
    have hw' := (obeys_iff.1 (obeys_enter params frame args) w hw).1 _ _ henter
    refine obeysFrom_callFunction henter hw' fun e he => ?_
    rcases Store.bodyToCall_eq_ok he with rfl | ⟨hover, inner, hmem⟩
    · have hwritten := hw.1 _ (Array.mem_of_getElem? hr)
      exact obeys_iff.1 (unescaped_evaluate nofun (ih already) .forbidden _ hwritten) _ hw'
    · have hput := hw'.1 _ hmem
      have hresults := (@obeys_iff (unescaped True).toRegime _ _).1
        (unescaped_evaluate (fun _ => trivial) (ih True) .forbidden (w.store.size + 1) hput) _
        ⟨hw'.1, fun _ => hover⟩
      exact ⟨fun v w'' h => ⟨(hresults.1 v w'' h).1, fun _ => (hresults.1 v w'' h).2 trivial⟩,
        fun e w'' h => ⟨(hresults.2 e w'' h).1, (hresults.2 e w'' h).2.1,
          fun _ => (hresults.2 e w'' h).2.2 trivial⟩⟩

/-- No missing base escapes a call. -/
theorem contained_callValue (depth : Nat) (f : Value) (args : List Value) :
    Contained (callValue depth f args) :=
  contained_of_obeys (unescaped_callValue False depth f args)

/-- No missing base escapes an expression whose optional accesses lie on the spines of chains. -/
theorem contained_run {e : Expr} (h : e.Chained false) (waiting : Waiting) (frame : Ref) :
    Contained (run waiting frame e) :=
  contained_of_obeys
    (unescaped_evaluate nofun (unescaped_callValue False callLimit) waiting frame h)

theorem contained_openRoot (context : Ref) : Contained (openRoot context) := by
  -- Sealed, so that the tables of names are not built when the goal is unfolded.
  have hroot := @obeys_openRoot (unescaped False)
  generalize openRoot = root at hroot ⊢
  exact contained_of_obeys (hroot context)

end Eval

end GuardedText
