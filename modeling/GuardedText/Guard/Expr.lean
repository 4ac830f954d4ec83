import GuardedText.Number.Basic

/-
  Guard expressions. The tree keeps what evaluation needs: an optional access carries a mark, and
  `chain` bounds the accesses that a missing base skips; a parenthesised chain is closed and later
  accesses stay outside it. Assignments and deletions name a `Place`, so that only names and
  members can stand there. `Expr.suspends` tells whether a guard can wait.
-/

namespace GuardedText

/-- Operators on one evaluated operand. -/
inductive UnaryOp where
  | not | bitNot | plus | minus | typeof | void
  deriving DecidableEq, Repr

/-- Operators on two evaluated operands. -/
inductive BinaryOp where
  | bitOr | bitXor | bitAnd
  | looseEq | looseNe | strictEq | strictNe
  | less | greater | lessEq | greaterEq | instanceOf | within
  | shiftLeft | shiftRight | shiftRightZero
  | add | sub | mul | div | rem | pow
  deriving DecidableEq, Repr

/-- Operators that may leave their right operand alone. -/
inductive LogicalOp where
  | and | or | coalesce
  deriving DecidableEq, Repr

/-- How an assignment combines the old value with the new one. -/
inductive AssignOp where
  /-- The new value alone. -/
  | set
  /-- Both values, by an operator. -/
  | update (op : BinaryOp)
  /-- The new value, if the old one asks for it. -/
  | choose (op : LogicalOp)
  deriving DecidableEq, Repr

/-- The values that a guard can spell out. -/
inductive Literal where
  | null
  | bool (b : Bool)
  | number (n : Num)
  | text (t : Text)

mutual

/-- A guard expression. -/
inductive Expr where
  /-- A value spelled out. -/
  | literal (value : Literal)
  /-- A name. -/
  | name (name : Text)
  /-- An array. -/
  | array (items : List Item)
  /-- An object. -/
  | object (entries : List Entry)
  /-- An operator on one operand. -/
  | unary (op : UnaryOp) (operand : Expr)
  /-- The removal of what a place holds. -/
  | delete (place : Place)
  /-- A removal of something that is no place: the operand is evaluated and nothing removed. -/
  | deleteValue (operand : Expr)
  /-- A value waited for. -/
  | await (operand : Expr)
  /-- An operator on two operands. -/
  | binary (op : BinaryOp) (left right : Expr)
  /-- An operator that may leave its right operand alone. -/
  | logical (op : LogicalOp) (left right : Expr)
  /-- A choice. -/
  | conditional (test consequent alternate : Expr)
  /-- An assignment. -/
  | assign (op : AssignOp) (place : Place) (value : Expr)
  /-- Expressions evaluated in turn, the last one giving the value. -/
  | sequence (parts : List Expr)
  /-- A property read by its name; `optional` when a missing object ends the chain. -/
  | member (object : Expr) (name : Text) (optional : Bool)
  /-- A property read by an evaluated key. -/
  | index (object key : Expr) (optional : Bool)
  /-- A call; `optional` when a missing function ends the chain. -/
  | call (callee : Expr) (arguments : List Item) (optional : Bool)
  /-- A function of named parameters. -/
  | arrow (params : List Text) (body : Expr)
  /-- The bounds of optional accesses; `closed` once it stands in parentheses. -/
  | chain (body : Expr) (closed : Bool)

/-- An element of an array or an argument of a call. -/
inductive Item where
  /-- One value. -/
  | single (value : Expr)
  /-- All elements of a value. -/
  | spread (values : Expr)

/-- An entry of an object. -/
inductive Entry where
  /-- A value under a key that is spelled out. -/
  | named (key : Text) (value : Expr)
  /-- A value under an evaluated key. -/
  | computed (key value : Expr)
  /-- All entries of a value. -/
  | spread (values : Expr)

/-- Where a value can be put. -/
inductive Place where
  /-- A name. -/
  | name (name : Text)
  /-- A property by its name. -/
  | member (object : Expr) (name : Text)
  /-- A property by an evaluated key. -/
  | index (object key : Expr)

end

instance : Inhabited Expr := ⟨.literal .null⟩

mutual

/-- Whether an expression holds an `await`, inside its functions too. -/
def Expr.suspends : Expr → Bool
  | .literal _ | .name _ => false
  | .array items => suspendsItems items
  | .object entries => suspendsEntries entries
  | .unary _ e | .deleteValue e | .arrow _ e | .chain e _ | .member e _ _ => e.suspends
  | .delete place => place.suspends
  | .await _ => true
  | .binary _ l r | .logical _ l r | .index l r _ => l.suspends || r.suspends
  | .conditional t c a => t.suspends || c.suspends || a.suspends
  | .assign _ place value => place.suspends || value.suspends
  | .sequence parts => suspendsAny parts
  | .call callee arguments _ => callee.suspends || suspendsItems arguments

/-- Whether a place holds an `await`. -/
def Place.suspends : Place → Bool
  | .name _ => false
  | .member object _ => object.suspends
  | .index object key => object.suspends || key.suspends

/-- Whether one of some expressions holds an `await`. -/
def suspendsAny : List Expr → Bool
  | [] => false
  | e :: es => e.suspends || suspendsAny es

/-- Whether one of some items holds an `await`. -/
def suspendsItems : List Item → Bool
  | [] => false
  | .single e :: items | .spread e :: items => e.suspends || suspendsItems items

/-- Whether one of some entries holds an `await`. -/
def suspendsEntries : List Entry → Bool
  | [] => false
  | .named _ e :: entries | .spread e :: entries => e.suspends || suspendsEntries entries
  | .computed k e :: entries => k.suspends || e.suspends || suspendsEntries entries

end

/-- The spelling of an operator. -/
def UnaryOp.symbol : UnaryOp → String
  | .not => "!" | .bitNot => "~" | .plus => "+" | .minus => "-"
  | .typeof => "typeof" | .void => "void"

/-- The spelling of an operator. -/
def BinaryOp.symbol : BinaryOp → String
  | .bitOr => "|" | .bitXor => "^" | .bitAnd => "&"
  | .looseEq => "==" | .looseNe => "!=" | .strictEq => "===" | .strictNe => "!=="
  | .less => "<" | .greater => ">" | .lessEq => "<=" | .greaterEq => ">="
  | .instanceOf => "instanceof" | .within => "in"
  | .shiftLeft => "<<" | .shiftRight => ">>" | .shiftRightZero => ">>>"
  | .add => "+" | .sub => "-" | .mul => "*" | .div => "/" | .rem => "%" | .pow => "**"

/-- The spelling of an operator. -/
def LogicalOp.symbol : LogicalOp → String
  | .and => "&&" | .or => "||" | .coalesce => "??"

/-- The spelling of an operator. -/
def AssignOp.symbol : AssignOp → String
  | .set => "="
  | .update op => op.symbol ++ "="
  | .choose op => op.symbol ++ "="

/-- Every operator on two operands. -/
def BinaryOp.all : List BinaryOp :=
  [.bitOr, .bitXor, .bitAnd, .looseEq, .looseNe, .strictEq, .strictNe, .less, .greater, .lessEq,
   .greaterEq, .instanceOf, .within, .shiftLeft, .shiftRight, .shiftRightZero, .add, .sub, .mul,
   .div, .rem, .pow]

/-- Every operator on one operand. -/
def UnaryOp.all : List UnaryOp := [.not, .bitNot, .plus, .minus, .typeof, .void]

/-- How tightly a left-associative operator binds, the loosest with 1. The power is not among
them. -/
def BinaryOp.level : BinaryOp → Nat
  | .bitOr => 1 | .bitXor => 2 | .bitAnd => 3
  | .looseEq | .looseNe | .strictEq | .strictNe => 4
  | .less | .greater | .lessEq | .greaterEq | .instanceOf | .within => 5
  | .shiftLeft | .shiftRight | .shiftRightZero => 6
  | .add | .sub => 7
  | .mul | .div | .rem => 8
  | .pow => 9

namespace Expr

/-- The place that an expression names, if it does. -/
def place? : Expr → Option Place
  | .name n => some (.name n)
  | .member o n _ => some (.member o n)
  | .index o k _ => some (.index o k)
  | _ => none

/-- The removal of an operand. -/
def remove (operand : Expr) : Expr :=
  match operand.place? with
  | some place => .delete place
  | none => .deleteValue operand

/-- An expression and the next one of a sequence; a sequence on the left grows. -/
def followedBy (left right : Expr) : Expr :=
  match left with
  | .sequence parts => .sequence (parts ++ [right])
  | _ => .sequence [left, right]

/-- A plain access, which goes on inside an open chain. -/
def extend (object : Expr) (access : Expr → Expr) : Expr :=
  match object with
  | .chain body false => .chain (access body) false
  | _ => access object

/-- An optional access, which opens a chain or goes on inside an open one. -/
def extendOptional (object : Expr) (access : Expr → Expr) : Expr :=
  match object with
  | .chain body false => .chain (access body) false
  | _ => .chain (access object) false

/-- An expression in parentheses: a chain is closed by them. -/
def parenthesized : Expr → Expr
  | .chain body _ => .chain body true
  | e => e

/-- The words for a callee in an error message. -/
def describe : Expr → Text
  | .name n => n
  | .member o n _ => o.describe ++ "." ++ n
  | .chain body _ => body.describe
  | _ => "expression"

end Expr

end GuardedText
