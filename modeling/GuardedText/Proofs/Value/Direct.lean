import GuardedText.Eval.Expr
import GuardedText.Builtin.Host

/-
  Pure computations on values fail for many reasons, but none of them is a fault that evaluation
  itself raises to leave an expression, such as a wait (`Direct`).
-/

namespace GuardedText

/-- A fault by which evaluation leaves an expression: a wait, or an access whose base is missing. -/
def Fault.IsControl : Fault → Prop
  | .suspended | .shortCircuit => True
  | _ => False

@[simp]
theorem Fault.isControl_iff {e : Fault} :
    e.IsControl ↔ e = .suspended ∨ e = .shortCircuit := by
  cases e <;> simp [Fault.IsControl]

/-- A computation leaves no expression by itself. -/
def Direct {α : Type} (x : Except Fault α) : Prop := ∀ e, x = .error e → ¬ e.IsControl

section

variable {α β : Type}

@[simp]
theorem direct_ok (a : α) : Direct (.ok a) := nofun

@[simp]
theorem direct_pure (a : α) : Direct (pure a) := nofun

@[simp]
theorem direct_error {e : Fault} : Direct (.error e : Except Fault α) ↔ ¬ e.IsControl := by
  simp [Direct]

@[simp]
theorem direct_throw {e : Fault} : Direct (throw e : Except Fault α) ↔ ¬ e.IsControl :=
  direct_error

@[simp]
theorem direct_bind {x : Except Fault α} {f : α → Except Fault β} :
    Direct (x >>= f) ↔ Direct x ∧ ∀ a, x = .ok a → Direct (f a) := by
  cases x <;> simp [Direct, bind, Except.bind]

@[simp]
theorem direct_map {x : Except Fault α} {f : α → β} : Direct (f <$> x) ↔ Direct x := by
  cases x <;> simp [Direct, Functor.map, Except.map]

theorem direct_ite {c : Prop} [Decidable c] {x y : Except Fault α} :
    Direct (if c then x else y) ↔ (c → Direct x) ∧ (¬c → Direct y) := by
  by_cases h : c <;> simp [h]

theorem direct_elim {o : Option α} {x : Except Fault β} {f : α → Except Fault β} (hx : Direct x)
    (hf : ∀ a, Direct (f a)) : Direct (o.elim x f) := by
  cases o with
  | none => exact hx
  | some a => exact hf a

theorem direct_mapM {xs : List α} {f : α → Except Fault β} (h : ∀ a ∈ xs, Direct (f a)) :
    Direct (xs.mapM f) := by
  induction xs with
  | nil => simp
  | cons a xs ih =>
    rw [List.forall_mem_cons] at h
    simp [List.mapM_cons, h.1, ih h.2]

theorem direct_forIn {xs : List α} {b : β} {f : α → β → Except Fault (ForInStep β)}
    (h : ∀ a b, Direct (f a b)) : Direct (forIn xs b f) := by
  induction xs generalizing b with
  | nil => simp
  | cons a xs ih =>
    rw [List.forIn_cons, direct_bind]
    refine ⟨h a b, fun step _ => ?_⟩
    cases step with
    | done b => simp
    | yield b => exact ih

end

/-! ## Numbers -/

namespace Num

@[simp]
theorem direct_toFloat (a : Num) : Direct a.toFloat := by
  unfold toFloat
  split
  · exact direct_elim (by simp) (by simp)
  · simp

@[simp]
theorem direct_isNaN (a : Num) : Direct a.isNaN := by simp [isNaN]

@[simp]
theorem direct_combine (exact : Int → Int → Int) (rounded : Float → Float → Float) (a b : Num) :
    Direct (combine exact rounded a b) := by
  unfold combine
  split <;> simp

@[simp]
theorem direct_add (a b : Num) : Direct (a.add b) := direct_combine _ _ a b

@[simp]
theorem direct_sub (a b : Num) : Direct (a.sub b) := direct_combine _ _ a b

@[simp]
theorem direct_mul (a b : Num) : Direct (a.mul b) := direct_combine _ _ a b

@[simp]
theorem direct_div (a b : Num) : Direct (a.div b) := by
  have hquotient (m n : Int) :
      Direct ((Double.divInt? m n).elim (.error .overflow) .ok : Except Fault Float) :=
    direct_elim (by simp) (by simp)
  unfold div
  split
  · simp [direct_ite]
  · split <;> simp [hquotient]

@[simp]
theorem direct_rem (a b : Num) : Direct (a.rem b) := by
  simp only [rem, direct_ite, direct_bind]
  refine ⟨by simp, fun _ => ⟨by simp, fun x _ => ⟨by simp, fun _ => ⟨by simp, fun y _ => ?_⟩⟩⟩⟩
  refine ⟨by simp, fun _ => ⟨by simp, fun _ => ?_⟩⟩
  split <;> simp

@[simp]
theorem direct_pow (a b : Num) : Direct (a.pow b) := by
  simp only [pow, direct_bind, direct_ite]
  refine ⟨direct_toFloat b, fun y _ => ⟨fun _ => by simp, fun _ => ?_⟩⟩
  split
  · simp [direct_ite]
  · split
    · simp
    · split <;> simp
  · simp

@[simp]
theorem direct_round (a : Num) : Direct a.round := by
  unfold round
  split <;> simp [direct_ite]

@[simp]
theorem direct_sqrt (a : Num) : Direct a.sqrt := by
  unfold sqrt
  simp [direct_ite]

@[simp]
theorem direct_truthy (a : Num) : Direct a.truthy := by
  unfold truthy
  simp [direct_ite]

@[simp]
theorem direct_write (a : Num) : Direct a.write := by simp [write, direct_ite]

@[simp]
theorem direct_writeFull (a : Num) : Direct a.writeFull := by simp [writeFull, direct_ite]

end Num

namespace Numeral

@[simp]
theorem direct_read (radix : Nat) (ds : List Nat) : Direct (read radix ds) := by
  simp [read, direct_ite]

@[simp]
theorem direct_accept (t : Text) (n : Num) : Direct (accept t n) := by
  cases n <;> simp [accept, direct_ite]

end Numeral

@[simp]
theorem Key.direct_write (k : Key) : Direct k.write := by cases k <;> simp [Key.write]

@[simp]
theorem Key.direct_display (k : Key) : Direct k.display := by cases k <;> simp [Key.display]

@[simp]
theorem direct_namedEntries (entries : Entries) : Direct (namedEntries entries) :=
  direct_mapM fun entry _ => by simp

namespace Store

/-! ## Conversions -/

@[simp]
theorem direct_truthy (v : Value) : Direct (truthy v) := by
  unfold truthy
  split <;> simp

@[simp]
theorem direct_textWithin (s : Store) (fuel : Nat) (v : Value) : Direct (s.textWithin fuel v) := by
  induction fuel generalizing v with
  | zero => cases v <;> simp [textWithin]
  | succ fuel ih =>
    cases v with
    | ref r =>
      simp only [textWithin]
      split
      · have htexts (items : List Value) : Direct (items.mapM fun item =>
            if isNothing item then pure [] else s.textWithin fuel item) :=
          direct_mapM fun item _ => by simp [direct_ite, ih]
        simp [htexts]
      · simp
    | _ => simp [textWithin]

@[simp]
theorem direct_toText (s : Store) (v : Value) : Direct (s.toText v) := direct_textWithin s _ v

@[simp]
theorem direct_keyText (s : Store) (v : Value) : Direct (s.keyText v) := by
  unfold keyText
  split <;> simp

@[simp]
theorem direct_textToNumber (t : Text) : Direct (textToNumber t) := by
  simp only [textToNumber, direct_ite]
  refine ⟨by simp, fun _ => ?_⟩
  split <;> simp

@[simp]
theorem direct_toNumber (s : Store) (v : Value) : Direct (s.toNumber v) := by
  unfold toNumber
  split <;> simp [direct_ite]

@[simp]
theorem direct_toInt32 (s : Store) (v : Value) : Direct (s.toInt32 v) := by simp [toInt32]

@[simp]
theorem direct_toUInt32 (s : Store) (v : Value) : Direct (s.toUInt32 v) := by simp [toUInt32]

@[simp]
theorem direct_toPrimitive (s : Store) (v : Value) : Direct (s.toPrimitive v) := by
  unfold toPrimitive
  split <;> simp

@[simp]
theorem direct_settleEquals (a b : Value) : Direct (settleEquals a b) := by
  unfold settleEquals
  split <;> simp

@[simp]
theorem direct_looseEquals (s : Store) (a b : Value) : Direct (s.looseEquals a b) := by
  rw [looseEquals_settle]
  simp [compareConverted, direct_ite]

/-! ## Operators -/

@[simp]
theorem direct_plus (s : Store) (a b : Value) : Direct (s.plus a b) := by
  simp only [plus, direct_bind]
  refine ⟨by simp, fun a _ => ⟨by simp, fun b _ => ?_⟩⟩
  split <;> simp

@[simp]
theorem direct_ordered (s : Store) (texts : Text → Text → Bool) (accepts : Ordering → Bool)
    (a b : Value) : Direct (s.ordered texts accepts a b) := by
  simp only [ordered, direct_bind]
  refine ⟨by simp, fun a _ => ⟨by simp, fun b _ => ?_⟩⟩
  split <;> simp [direct_ite]

@[simp]
theorem direct_instanceOf (s : Store) (v constructor : Value) :
    Direct (s.instanceOf v constructor) := by
  unfold instanceOf
  split <;> simp [direct_ite]

@[simp]
theorem direct_bitwise (s : Store) (op : Int → Int → Int) (a b : Value) :
    Direct (s.bitwise op a b) := by
  simp [bitwise]

@[simp]
theorem direct_shiftCount (s : Store) (v : Value) : Direct (s.shiftCount v) := by
  simp [shiftCount]

theorem direct_arithmetic (s : Store) {op : Num → Num → Except Fault Num}
    (hop : ∀ m n, Direct (op m n)) (a b : Value) : Direct (s.arithmetic op a b) := by
  simp [arithmetic, hop]

/-! ## Properties -/

@[simp]
theorem direct_index? (v : Value) : Direct (index? v) := by
  unfold index?
  split
  · simp [direct_ite]
  · split
    · split <;> simp
    · simp
  · simp

@[simp]
theorem direct_sequenceProperty (length : Nat) (element? : Nat → Option Value)
    (methods : List (String × Method)) (key : Value) (name : Text) :
    Direct (sequenceProperty length element? methods key name) := by
  simp only [sequenceProperty, direct_ite, direct_bind]
  refine ⟨fun _ => by simp, fun _ => ⟨by simp, fun index _ => ?_⟩⟩
  split <;> simp

@[simp]
theorem direct_attributeProperty (o : Obj) (name : Text) : Direct (attributeProperty o name) := by
  simp only [attributeProperty, direct_ite]
  refine ⟨by simp, fun _ => ?_⟩
  split <;> simp [direct_ite]

@[simp]
theorem direct_objectProperty (o : Obj) (key : Value) (name : Text) :
    Direct (objectProperty o key name) := by
  unfold objectProperty
  split <;> simp

@[simp]
theorem direct_typeProperty (t : HostType) (name : Text) : Direct (typeProperty t name) := by
  simp [typeProperty, direct_ite]

@[simp]
theorem direct_property (s : Store) (object key : Value) : Direct (s.property object key) := by
  simp only [property, direct_ite, direct_bind]
  refine ⟨by simp, fun _ => ⟨by simp, fun name _ => ?_⟩⟩
  split
  · simp
  · simp
  · simp
  · exact direct_elim (by simp) (by simp)
  · simp

@[simp]
theorem direct_hasProperty (s : Store) (object key : Value) :
    Direct (s.hasProperty object key) := by
  unfold hasProperty
  split
  · simp only [direct_bind]
    refine ⟨by simp, fun found _ => ?_⟩
    split <;> simp
  · simp only [direct_bind]
    refine ⟨by simp, fun found _ => ?_⟩
    split <;> simp
  · simp

@[simp]
theorem direct_putItem (items : List Value) (i : Nat) (v : Value) : Direct (putItem items i v) := by
  simp [putItem, direct_ite]

@[simp]
theorem direct_putProperty (o : Obj) (key : Value) (name : Text) (v : Value) :
    Direct (putProperty o key name v) := by
  unfold putProperty
  split
  case h_2 items =>
    simp only [direct_bind]
    refine ⟨by simp, fun index _ => ?_⟩
    split <;> simp
  all_goals simp [direct_ite]

@[simp]
theorem direct_dropProperty (o : Obj) (key : Value) (name : Text) :
    Direct (dropProperty o key name) := by
  unfold dropProperty
  split
  case h_2 items =>
    simp only [direct_bind]
    refine ⟨by simp, fun index _ => ?_⟩
    split <;> simp
  all_goals simp

@[simp]
theorem direct_binary (s : Store) (op : BinaryOp) (a b : Value) : Direct (s.binary op a b) := by
  cases op <;> simp [binary, direct_arithmetic]

@[simp]
theorem direct_unary (s : Store) (op : UnaryOp) (v : Value) : Direct (s.unary op v) := by
  cases op <;> simp [unary]

/-! ## Built-in functions -/

@[simp]
theorem direct_listedAttributes (o : Obj) : Direct (listedAttributes o) := by
  unfold listedAttributes
  split <;> simp [direct_ite]

@[simp]
theorem direct_objectEntries (s : Store) (v : Value) : Direct (s.objectEntries v) := by
  unfold objectEntries
  split
  case h_5 => split <;> simp
  all_goals simp [direct_ite]

@[simp]
theorem direct_position (s : Store) (v : Value) (length missing : Nat) :
    Direct (s.position v length missing) := by
  unfold position
  split
  · simp
  · simp only [direct_bind]
    refine ⟨by simp, fun n _ => ?_⟩
    split
    · simp
    · split <;> simp

@[simp]
theorem direct_bounds (s : Store) (length : Nat) (start stop : Value) :
    Direct (s.bounds length start stop) := by
  simp [bounds]

@[simp]
theorem direct_split (s : Store) (t : Text) (separator limit : Value) :
    Direct (s.split t separator limit) := by
  unfold Store.split
  split
  · split <;> simp
  · split <;> simp

@[simp]
theorem direct_parseInt (s : Store) (v radix : Value) : Direct (s.parseInt v radix) := by
  simp only [parseInt, direct_bind]
  refine ⟨by simp, fun t _ => ?_⟩
  split
  · simp only [direct_bind, direct_ite]
    refine ⟨by simp, fun base _ => ⟨by simp, fun _ => ?_⟩⟩
    split <;> simp
  · simp only [direct_bind, direct_ite]
    refine ⟨by simp, fun base _ => ⟨by simp, fun _ => ?_⟩⟩
    split <;> simp

@[simp]
theorem direct_parseFloat (s : Store) (v : Value) : Direct (s.parseFloat v) := by
  simp only [parseFloat, direct_bind]
  refine ⟨by simp, fun t _ => ?_⟩
  split <;> simp

@[simp]
theorem direct_extreme (before : Num → Num → Bool) (none : Num) (ns : List Num) :
    Direct (extreme before none ns) := by
  simp only [extreme, direct_bind]
  refine ⟨direct_forIn fun n found => by simp [direct_ite], fun found _ => ?_⟩
  split
  · simp
  · split <;> simp

@[simp]
theorem direct_toFixed (s : Store) (n : Num) (digits : Value) : Direct (s.toFixed n digits) := by
  simp only [toFixed, direct_bind]
  refine ⟨by simp, fun places _ => ?_⟩
  split
  · simp [direct_ite]
  · split
    · simp [direct_ite]
    · simp only [direct_bind, direct_throw]
      refine ⟨?_, nofun⟩
      split <;> simp

@[simp]
theorem direct_jsonWithin (s : Store) (fuel : Nat) (v : Value) : Direct (s.jsonWithin fuel v) := by
  induction fuel generalizing v with
  | zero => cases v <;> simp [jsonWithin, direct_ite]
  | succ fuel ih =>
    cases v with
    | ref r =>
      have hitems (items : List Value) : Direct (items.mapM (s.jsonWithin fuel)) :=
        direct_mapM fun item _ => ih item
      have hmembers (entries : Entries) : Direct (entries.mapM fun entry =>
          return (← entry.1.write, ← s.jsonWithin fuel entry.2)) :=
        direct_mapM fun entry _ => by simp [ih]
      simp only [jsonWithin]
      split
      · simp [hitems]
      · simp [hitems]
      · rw [direct_bind]
        exact ⟨hmembers _, by simp⟩
      · rw [direct_bind]
        exact ⟨hmembers _, by simp⟩
      · simp [direct_ite]
    | _ => simp [jsonWithin, direct_ite]

@[simp]
theorem direct_stringify (s : Store) (v : Value) : Direct (s.stringify v) := by
  unfold stringify
  split <;> simp [direct_ite]

@[simp]
theorem direct_display (s : Store) (fuel : Nat) (path : List Ref) (inner : Bool) (v : Value) :
    Direct (s.display fuel path inner v) := by
  induction fuel generalizing path inner v with
  | zero => cases v <;> simp [display]
  | succ fuel ih =>
    cases v with
    | ref r =>
      have hentries (entries : Entries) : Direct (entries.mapM fun entry =>
          return (← entry.1.display) ++ ": " ++ (← s.display fuel (r :: path) true entry.2)) :=
        direct_mapM fun entry _ => by simp [ih]
      simp only [display]
      split <;> simp [direct_mapM, ih]
    | _ => simp [display]

@[simp]
theorem direct_displayOf (s : Store) (v : Value) : Direct (s.displayOf v) :=
  direct_display s _ [] false v

@[simp]
theorem direct_hostItems (s : Store) (v : Value) : Direct (s.hostItems v) := by
  unfold hostItems
  split <;> simp

@[simp]
theorem direct_hostKey (s : Store) (v : Value) : Direct (s.hostKey v) := by
  unfold hostKey
  split
  · simp
  · simp
  · split <;> simp

@[simp]
theorem direct_hostPair (s : Store) (v : Value) : Direct (s.hostPair v) := by
  simp only [hostPair, direct_bind]
  refine ⟨by simp, fun items _ => ?_⟩
  split <;> simp

end Store

namespace Eval

@[simp]
theorem direct_holds (items : List Value) (v : Value) : Direct (holds items v) := by
  unfold holds
  split
  · simp only [direct_bind, direct_ite]
    refine ⟨by simp, fun wanted _ => ⟨fun _ => ⟨?_, fun found _ => ?_⟩, by simp⟩⟩
    · refine direct_forIn fun item found => ?_
      split <;> simp [direct_ite]
    · split <;> simp
  · simp

@[simp]
theorem direct_settles (op : LogicalOp) (left : Value) : Direct (settles op left) := by
  cases op <;> simp [settles]

end Eval

end GuardedText
