import GuardedText.Value.Equality
import GuardedText.Value.Property

/-
  Operators on evaluated operands. `+` joins texts when one operand is a text, every other
  arithmetic operator works on numbers; the bitwise operators work on words of 32 bits, signed
  except for `>>>`.
-/

namespace GuardedText.Store

/-- The sum of two values, or the texts joined. -/
def plus (s : Store) (a b : Value) : Except Fault Value := do
  let a ← s.toPrimitive a
  let b ← s.toPrimitive b
  match a, b with
  | .text _, _ | _, .text _ => return .text ((← s.toText a) ++ (← s.toText b))
  | _, _ => return .num (← (← s.toNumber a).add (← s.toNumber b))

/-- Whether two values are in an order: texts by code point, all else as numbers. -/
def ordered (s : Store) (texts : Text → Text → Bool) (accepts : Ordering → Bool) (a b : Value) :
    Except Fault Bool := do
  let a ← s.toPrimitive a
  let b ← s.toPrimitive b
  match a, b with
  | .text t, .text u => return texts t u
  | _, _ =>
    let m ← s.toNumber a
    let n ← s.toNumber b
    if ← m.isNaN then return false
    if ← n.isNaN then return false
    return (m.compare? n).any accepts

/-- Whether a value belongs to a type of the host. A truth value is an integer too. -/
def belongs (s : Store) (v : Value) : HostType → Bool
  | .integer => match v with | .bool _ | .num (.int _) => true | _ => false
  | .double => match v with | .num (.float _) => true | _ => false
  | .string => match v with | .text _ => true | _ => false
  | .boolean => match v with | .bool _ => true | _ => false
  | .list => match s.get? v with | some (.list _) => true | _ => false
  | .mapping => match s.get? v with | some (.dict _) => true | _ => false

/-- Whether a value belongs to what stands right of `instanceof`. -/
def instanceOf (s : Store) (v constructor : Value) : Except Fault Bool :=
  match constructor with
  | .type t => .ok (s.belongs v t)
  | c => if s.callable c then .ok false else .error (.misuse .noConstructor)

/-- An operation on the bits of two words. -/
def bitwise (s : Store) (op : Int → Int → Int) (a b : Value) : Except Fault Value := do
  let m ← s.toInt32 a
  let n ← s.toInt32 b
  return .num (.int (op m n))

/-- The number of places that a value shifts by. -/
def shiftCount (s : Store) (v : Value) : Except Fault Nat :=
  return (Bits.and (← s.toUInt32 v) 31).toNat

/-- An operation on the numbers of two values. -/
def arithmetic (s : Store) (op : Num → Num → Except Fault Num) (a b : Value) :
    Except Fault Value := do
  let m ← s.toNumber a
  let n ← s.toNumber b
  return .num (← op m n)

/-- The result of an operator on two values. -/
def binary (s : Store) (op : BinaryOp) (a b : Value) : Except Fault Value :=
  match op with
  | .add => s.plus a b
  | .strictEq => .ok (.bool (strictEquals a b))
  | .strictNe => .ok (.bool !(strictEquals a b))
  | .looseEq => return .bool (← s.looseEquals a b)
  | .looseNe => return .bool !(← s.looseEquals a b)
  | .less => return .bool (← s.ordered Text.less (· == .lt) a b)
  | .greater => return .bool (← s.ordered (fun t u => Text.less u t) (· == .gt) a b)
  | .lessEq => return .bool (← s.ordered (fun t u => !Text.less u t) (· != .gt) a b)
  | .greaterEq => return .bool (← s.ordered (fun t u => !Text.less t u) (· != .lt) a b)
  | .instanceOf => return .bool (← s.instanceOf a b)
  | .within => return .bool (← s.hasProperty b a)
  | .bitAnd => s.bitwise Bits.and a b
  | .bitOr => s.bitwise (fun m n => Word.signed (Bits.or m n)) a b
  | .bitXor => s.bitwise (fun m n => Word.signed (Bits.xor m n)) a b
  | .shiftLeft => do
    let m ← s.toInt32 a
    return .num (.int (Word.signed (m <<< (← s.shiftCount b))))
  | .shiftRight => do
    let m ← s.toInt32 a
    return .num (.int (m >>> (← s.shiftCount b)))
  | .shiftRightZero => do
    let m ← s.toUInt32 a
    return .num (.int (m >>> (← s.shiftCount b)))
  | .sub => s.arithmetic Num.sub a b
  | .mul => s.arithmetic Num.mul a b
  | .div => s.arithmetic Num.div a b
  | .rem => s.arithmetic Num.rem a b
  | .pow => s.arithmetic Num.pow a b

/-- The result of an operator on one value. -/
def unary (s : Store) (op : UnaryOp) (v : Value) : Except Fault Value :=
  match op with
  | .not => return .bool !(← truthy v)
  | .minus => return .num (← s.toNumber v).negate
  | .plus => return .num (← s.toNumber v)
  | .bitNot => return .num (.int (~~~ (← s.toInt32 v)))
  | .typeof => .ok (.text (s.typeName v))
  | .void => .ok .undefined

/-- The result of the operator with a spelling; an unknown one is refused once both operands have
been taken for numbers. -/
def binaryNamed (s : Store) (operator : Text) (a b : Value) : Except Fault Value := do
  match BinaryOp.all.find? fun op => Text.ofString op.symbol == operator with
  | some op => s.binary op a b
  | none =>
    let _ ← s.toNumber a
    let _ ← s.toNumber b
    throw (.misuse (.unsupported operator))

/-- The result of the operator with a spelling; an unknown one is refused. -/
def unaryNamed (s : Store) (operator : Text) (v : Value) : Except Fault Value :=
  match UnaryOp.all.find? fun op => Text.ofString op.symbol == operator with
  | some op => s.unary op v
  | none => .error (.misuse (.unsupported operator))

end GuardedText.Store
