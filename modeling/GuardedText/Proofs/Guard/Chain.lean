import GuardedText.Proofs.Eval.Escape
import GuardedText.Proofs.Guard.Compile

/-
  Optional chains. Accesses that follow one another form the spine of an expression (`Expr.spine`).
  From the first optional one on they are built into one chain, which parentheses close
  (`Tree.build_spine`). Where the base of an optional access is missing, nothing to its right is
  evaluated and the chain is `undefined` (`Eval.evaluate_missing`); an access outside the
  parentheses is made on this `undefined` (`Eval.evaluate_on`). Together with the place of optional
  accesses in compiled guards this is `Guard.compile_chains`. A guard that overrides the body of a
  function can make an optional access that lies on no chain (`Guard.compile_chains_overridden`).
-/

namespace GuardedText

/-! ## Spines -/

/-- An access to an object or a call of a function. -/
inductive Access where
  | member (name : Text) (optional : Bool)
  | index (key : Expr) (optional : Bool)
  | call (arguments : List Item) (optional : Bool)

namespace Access

/-- Whether a missing base ends the chain. -/
def optional : Access → Bool
  | .member _ optional | .index _ optional | .call _ optional => optional

/-- The expression that accesses a base. -/
def on : Access → Expr → Expr
  | .member name optional, base => .member base name optional
  | .index key optional, base => .index base key optional
  | .call arguments optional, base => .call base arguments optional

end Access

/-- An expression with accesses made one after another. -/
def Expr.spine (base : Expr) (accesses : List Access) : Expr :=
  accesses.foldl (fun e a => a.on e) base

/-- The expression that an access goes on with: the body of a chain that is open. -/
def Expr.opened : Expr → Expr
  | .chain body false => body
  | e => e

/-- The parse tree of an access. -/
inductive TreeAccess where
  | member (name : Text) (optional : Bool)
  | index (key : Tree) (optional : Bool)
  | call (arguments : List TreeItem) (optional : Bool)

namespace TreeAccess

/-- The tree that accesses a base. -/
def on : TreeAccess → Tree → Tree
  | .member name optional, base => .member base name optional
  | .index key optional, base => .index base key optional
  | .call arguments optional, base => .call base arguments optional

/-- The access of a tree. -/
def build : TreeAccess → Except Rejection Access
  | .member name optional => return .member name optional
  | .index key optional => return .index (← key.build) optional
  | .call arguments optional => return .call (← buildItems arguments) optional

end TreeAccess

/-- A tree with accesses made one after another. -/
def Tree.spine (base : Tree) (accesses : List TreeAccess) : Tree :=
  accesses.foldl (fun t a => a.on t) base

theorem TreeAccess.build_on {t : Tree} {e : Expr} {b : TreeAccess} {a : Access}
    (ht : t.build = .ok e) (hb : b.build = .ok a) :
    (b.on t).build = .ok (Build.access a.optional e a.on) := by
  cases b with
  | member name optional =>
    simp only [TreeAccess.build, Except.pure_eq_ok] at hb
    subst hb
    simp only [TreeAccess.on, Tree.build, ht]
    rfl
  | index key optional =>
    simp only [TreeAccess.build, Except.bind_eq_ok, Except.pure_eq_ok] at hb
    obtain ⟨k, hk, rfl⟩ := hb
    simp only [TreeAccess.on, Tree.build, ht, hk]
    rfl
  | call arguments optional =>
    simp only [TreeAccess.build, Except.bind_eq_ok, Except.pure_eq_ok] at hb
    obtain ⟨items, hitems, rfl⟩ := hb
    simp only [TreeAccess.on, Tree.build, ht, hitems]
    rfl

/-- An access to an open chain goes on inside it. -/
theorem Build.access_chain (optional : Bool) (body : Expr) (make : Expr → Expr) :
    Build.access optional (.chain body false) make = .chain (make body) false := by
  cases optional <;> rfl

/-- An optional access opens a chain or goes on inside an open one. -/
theorem Build.access_optional (e : Expr) (make : Expr → Expr) :
    Build.access true e make = .chain (make e.opened) false := by
  cases e with
  | chain body closed => cases closed <;> rfl
  | _ => rfl

/-- Accesses to an open chain go on inside it. -/
theorem Tree.build_spine_chain {bs : List TreeAccess} {as : List Access}
    (hbs : bs.mapM TreeAccess.build = .ok as) {t : Tree} {body : Expr}
    (ht : t.build = .ok (.chain body false)) :
    (t.spine bs).build = .ok (.chain (body.spine as) false) := by
  induction bs generalizing t body as with
  | nil =>
    cases hbs
    exact ht
  | cons b bs ih =>
    simp only [List.mapM_cons, Except.bind_eq_ok, Except.pure_eq_ok] at hbs
    obtain ⟨a, ha, as, has, rfl⟩ := hbs
    refine ih has ?_
    rw [TreeAccess.build_on ht ha, Build.access_chain]

/-- Accesses from an optional one on are one chain, which holds the open chain before them. -/
theorem Tree.build_spine {t : Tree} {e : Expr} {b : TreeAccess} {a : Access} {bs : List TreeAccess}
    {as : List Access} (ht : t.build = .ok e) (hb : b.build = .ok a) (ha : a.optional = true)
    (hbs : bs.mapM TreeAccess.build = .ok as) :
    (t.spine (b :: bs)).build = .ok (.chain (e.opened.spine (a :: as)) false) := by
  refine Tree.build_spine_chain hbs ?_
  rw [TreeAccess.build_on ht hb, ha, Build.access_optional]

/-! ## Evaluating spines -/

namespace Eval

/-- What an access does once the value of its base is there; a function has a name in messages. -/
def access (call : Caller) (waiting : Waiting) (frame : Ref) (name : Text) :
    Access → Value → Eval Value
  | .member n optional, base => do
    demand optional base
    getProperty base (.text n)
  | .index key optional, base => do
    demand optional base
    let k ← evaluate call waiting frame key
    getProperty base k
  | .call arguments optional, base => do
    demand optional base
    let args ← evaluateItems call waiting frame arguments
    if !(← get).store.callable base then refuse (.notCallable name)
    call base args

section

variable {call : Caller} {waiting : Waiting} {frame : Ref} {e : Expr} {w w' : World}

/-- An access is made on the value of its base. -/
theorem evaluate_on (a : Access) :
    evaluate call waiting frame (a.on e) =
      evaluate call waiting frame e >>= access call waiting frame e.describe a := by
  cases a <;> simp only [Access.on, evaluate] <;> rfl

theorem evaluate_on_of_ok {v : Value} (h : evaluate call waiting frame e w = .ok v w')
    (a : Access) :
    evaluate call waiting frame (a.on e) w = access call waiting frame e.describe a v w' := by
  rw [evaluate_on]
  simp only [bind, EStateM.bind, h]

/-- A fault in the base of accesses is that of the whole spine. -/
theorem evaluate_spine_of_error {cause : Fault} {as : List Access}
    (h : evaluate call waiting frame e w = .error cause w') :
    evaluate call waiting frame (e.spine as) w = .error cause w' := by
  induction as generalizing e with
  | nil => exact h
  | cons a as ih =>
    refine ih ?_
    rw [evaluate_on]
    simp only [bind, EStateM.bind, h]

/-- An optional access whose base is missing evaluates nothing. -/
theorem access_missing {name : Text} {a : Access} (ha : a.optional = true) {v : Value}
    (hv : Store.isNothing v = true) :
    access call waiting frame name a v w = .error .shortCircuit w := by
  have hdemand : demand true v w = .error .shortCircuit w := by
    simp only [demand, hv, Bool.and_self, if_true]
    rfl
  cases a with
  | member | index | call =>
    cases ha
    simp only [access, bind, EStateM.bind, hdemand]

/-- A chain in which the base of an optional access is missing is `undefined`, and nothing to the
right of that access is evaluated. -/
theorem evaluate_missing {a : Access} (ha : a.optional = true) {v : Value}
    (hbase : evaluate call waiting frame e w = .ok v w') (hv : Store.isNothing v = true)
    (as : List Access) (closed : Bool) :
    evaluate call waiting frame (.chain (e.spine (a :: as)) closed) w = .ok .undefined w' := by
  have hstop : evaluate call waiting frame (e.spine (a :: as)) w = .error .shortCircuit w' := by
    refine evaluate_spine_of_error (e := a.on e) ?_
    rw [evaluate_on_of_ok hbase, access_missing ha hv]
  rw [evaluate_chain, hstop]
  rfl

theorem property_undefined (s : Store) (key : Value) :
    ∃ cause, s.property .undefined key = .error cause := by
  cases hkey : s.toText key with
  | error cause =>
    refine ⟨cause, ?_⟩
    simp only [Store.property, Store.isNothing, if_true, hkey]
    rfl
  | ok text =>
    refine ⟨.misuse (.readNothing "undefined" text), ?_⟩
    simp only [Store.property, Store.isNothing, if_true, hkey]
    rfl

theorem getProperty_undefined (key v : Value) (w w' : World) :
    getProperty .undefined key w ≠ .ok v w' := by
  obtain ⟨cause, hcause⟩ := property_undefined w.store key
  have hread : read (·.property .undefined key) w = .error cause w := by
    simp only [read, bind, EStateM.bind, get, getThe, MonadStateOf.get, EStateM.get, hcause]
    rfl
  simp only [getProperty, bind, EStateM.bind, hread]
  intro h
  cases h

/-- A plain access to `undefined` fails, at the latest once its key or arguments are evaluated. -/
theorem access_undefined {name : Text} {a : Access} (ha : a.optional = false) (v : Value) :
    access call waiting frame name a .undefined w ≠ .ok v w' := by
  have hdemand (w : World) : demand false .undefined w = .ok () w := rfl
  cases a with
  | member n =>
    cases ha
    simp only [access, bind, EStateM.bind, hdemand]
    exact getProperty_undefined _ v w w'
  | index key =>
    cases ha
    simp only [access, bind, EStateM.bind, hdemand]
    cases evaluate call waiting frame key w with
    | error cause w₁ => nofun
    | ok k w₁ => exact getProperty_undefined k v w₁ w'
  | call arguments =>
    cases ha
    simp only [access, bind, EStateM.bind, hdemand]
    cases evaluateItems call waiting frame arguments w with
    | error cause w₁ => nofun
    | ok args w₁ => nofun

end

end Eval

/-- The fault by which a run ended. -/
def Eval.fault? {α : Type} : EStateM.Result Fault World α → Option Fault
  | .ok _ _ => none
  | .error e _ => some e

theorem Eval.fault?_eq_some {α : Type} {r : EStateM.Result Fault World α} {e : Fault} :
    fault? r = some e ↔ ∃ w, r = .error e w := by
  cases r <;> simp [fault?]

/-! ## Compiled guards -/

theorem Tree.build_paren {t : Tree} {e : Expr} (h : t.build = .ok e) :
    (Tree.paren t).build = .ok e.parenthesized := by
  simp only [Tree.build, h]
  rfl

namespace Guard

/-- Optional chains in compiled guards. In a compiled guard every optional access lies on the spine
of a chain, and so it does in the functions that guards leave behind. Hence no evaluation of a guard
and no call that stays outside of the objects of the host ends for want of a base, unless a guard
has overridden the body of a function. Accesses from an optional one on are one chain, and if the
base of that access is missing, the chain is `undefined` in the world in which its base was found
missing, whatever stands to its right. In parentheses the chain is closed; a plain access to it is
made on this `undefined`, and so fails in the end. -/
theorem compile_chains {text : Text} {g : Guard} (h : Guard.compile text = .ok g) :
    g.expr.Chained false ∧
    (∀ waiting frame, Eval.Contained (Eval.run waiting frame g.expr)) ∧
    (∀ depth f args, Eval.Contained (Eval.callValue depth f args)) ∧
    (∀ context, Eval.Contained (Eval.openRoot context)) ∧
    (∀ now chance, (World.initial now chance).Chained) ∧
    ∀ {t : Tree} {e : Expr} {b : TreeAccess} {a : Access} {bs : List TreeAccess} {as : List Access},
      t.build = .ok e → b.build = .ok a → a.optional = true →
      bs.mapM TreeAccess.build = .ok as →
      (t.spine (b :: bs)).build = .ok (.chain (e.opened.spine (a :: as)) false) ∧
      ∀ {call waiting frame v w w'}, Eval.evaluate call waiting frame e.opened w = .ok v w' →
        Store.isNothing v = true →
        Eval.evaluate call waiting frame (.chain (e.opened.spine (a :: as)) false) w =
          .ok .undefined w' ∧
        ∀ {b' : TreeAccess} {a' : Access}, b'.build = .ok a' → a'.optional = false →
          (b'.on (.paren (t.spine (b :: bs)))).build =
            .ok (a'.on (.chain (e.opened.spine (a :: as)) true)) ∧
          Eval.evaluate call waiting frame (a'.on (.chain (e.opened.spine (a :: as)) true)) w =
            Eval.access call waiting frame (e.opened.spine (a :: as)).describe a' .undefined w' ∧
          ∀ r w'', Eval.evaluate call waiting frame
            (a'.on (.chain (e.opened.spine (a :: as)) true)) w ≠ .ok r w'' := by
  obtain ⟨-, -, -, statement, -, -, hbuild⟩ := compile_eq_ok.1 h
  have hchained := statement.tree.chained_of_build hbuild
  refine ⟨hchained, Eval.contained_run hchained, Eval.contained_callValue, Eval.contained_openRoot,
    World.chained_initial, ?_⟩
  intro t e b a bs as ht hb ha hbs
  have hspine := Tree.build_spine ht hb ha hbs
  refine ⟨hspine, ?_⟩
  intro call waiting frame v w w' hbase hv
  have hmissing := Eval.evaluate_missing ha hbase hv as
  refine ⟨hmissing false, ?_⟩
  intro b' a' hb' ha'
  have houter := Eval.evaluate_on_of_ok (hmissing true) a'
  refine ⟨?_, houter, fun r w'' => ?_⟩
  · rw [TreeAccess.build_on (Tree.build_paren hspine) hb', ha']
    rfl
  · rw [houter]
    exact Eval.access_undefined ha' r

/-- A chain on an object that is null: it is `undefined`, the arguments of the call in it are left
alone, and a property of it in parentheses is refused. -/
theorem compile_chains_null :
    ∃ g w v, Guard.compile "a?.b(c).d" = .ok g ∧ g.expr.Chained false ∧
      (Tree.spine (.name "a") [.member "b" true, .call [.single (.name "c")] false,
        .member "d" false]).build = .ok g.expr ∧
      Eval.evaluate (Eval.callValue 1) .allowed 2 (.name "a") w = .ok v w ∧
      Store.isNothing v = true ∧
      Eval.evaluate (Eval.callValue 1) .allowed 2 g.expr w = .ok .undefined w ∧
      ∀ r w', Eval.evaluate (Eval.callValue 1) .allowed 2
        (.member (.chain (Expr.spine (.name "a") [.member "b" true,
          .call [.single (.name "c")] false, .member "d" false]) true) "e" false) w ≠ .ok r w' := by
  have hcompile : Guard.compile "a?.b(c).d" = .ok ⟨"a?.b(c).d", .chain (Expr.spine (.name "a")
      [.member "b" true, .call [.single (.name "c")] false, .member "d" false]) false⟩ := rfl
  have hbase : Eval.evaluate (Eval.callValue 1) .allowed 2 (.name "a")
      { store := #[.dict [(.name "a", .null)], .dict [], .frame 0 none 1] } =
      .ok .null { store := #[.dict [(.name "a", .null)], .dict [], .frame 0 none 1] } := rfl
  obtain ⟨hchained, -, -, -, -, hspine⟩ := compile_chains hcompile
  obtain ⟨hbuild, hvalue⟩ := @hspine (.name "a") _ (.member "b" true) _
    [.call [.single (.name "c")] false, .member "d" false] _ rfl rfl rfl rfl
  obtain ⟨hmissing, houter⟩ := hvalue hbase rfl
  exact ⟨_, _, _, hcompile, hchained, hbuild, hbase, rfl, hmissing,
    (@houter (.member "e" false) _ rfl rfl).2.2⟩

/-- A guard that puts what a chain has inside it in the place of the body of a function and calls
the function. -/
def overriding : Guard where
  code := "f = a => a?.b, f.node.body = f.node.body.expression, f(null)"
  expr := .sequence [.assign .set (.name "f")
      (.arrow ["a"] (.chain (.member (.name "a") "b" true) false)),
    .assign .set (.member (.member (.name "f") "node" false) "body")
      (.member (.member (.member (.name "f") "node" false) "body" false) "expression" false),
    .call (.name "f") [.single (.literal .null)] false]

/-- A guard may make a function that has no chain around its optional access, and then calling the
function ends for want of a base. -/
theorem compile_chains_overridden :
    Guard.compile "f = a => a?.b, f.node.body = f.node.body.expression, f(null)" =
        .ok overriding ∧
      ∃ w, (Eval.openRoot 0 >>= fun root => Eval.run .forbidden root overriding.expr)
        { store := #[.dict []] } = .error .shortCircuit w :=
  ⟨rfl, Eval.fault?_eq_some.1 (by decide +kernel)⟩

end Guard

end GuardedText
