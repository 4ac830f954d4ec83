import GuardedText.Guard.Expr
import GuardedText.Guard.Spelling

/-
  Parse trees of guards. A tree keeps what was read as it was spelled: numerals and strings with
  their spelling, and parentheses. `Tree.build` turns a tree into an expression.

  What a text spells may still be no expression: assigning to a value, waiting inside a function
  or naming no code point. Such a `Rejection` is found only when the tree is built, so that a text
  that does not parse at all is reported first, and then the first rejection from the inside out
  and from left to right.
-/

namespace GuardedText

/-- Why a text that parses is no expression. -/
inductive Rejection where
  /-- An assignment to something that is no place. -/
  | noPlace
  /-- A function that waits. -/
  | waitingFunction
  /-- A literal without a value. -/
  | badLiteral
  deriving DecidableEq, Repr

/-- An expression, or why there is none. -/
abbrev Built := Except Rejection Expr

mutual

/-- The parse tree of an expression. -/
inductive Tree where
  /-- A numeral. -/
  | number (spelling : Text)
  /-- A string with its quotes. -/
  | string (spelling : Text)
  /-- `true`, `false` or `null`. -/
  | constant (value : Literal)
  /-- A name. -/
  | name (name : Text)
  /-- An array. -/
  | array (items : List TreeItem)
  /-- An object. -/
  | object (entries : List TreeEntry)
  /-- An expression in parentheses. -/
  | paren (inner : Tree)
  /-- A property read by its name. -/
  | member (object : Tree) (name : Text) (optional : Bool)
  /-- A property read by a key. -/
  | index (object key : Tree) (optional : Bool)
  /-- A call. -/
  | call (callee : Tree) (arguments : List TreeItem) (optional : Bool)
  /-- An operator before its operand. -/
  | unary (op : UnaryOp) (operand : Tree)
  /-- A removal. -/
  | delete (operand : Tree)
  /-- A value waited for. -/
  | await (operand : Tree)
  /-- An operator between its operands. -/
  | binary (op : BinaryOp) (left right : Tree)
  /-- A short-circuit operator between its operands. -/
  | logical (op : LogicalOp) (left right : Tree)
  /-- A choice. -/
  | conditional (test consequent alternate : Tree)
  /-- An assignment. -/
  | assign (op : AssignOp) (target value : Tree)
  /-- A function. -/
  | arrow (params : List Text) (body : Tree)
  /-- Two expressions with a comma between them. -/
  | sequence (left right : Tree)

/-- The parse tree of an element or argument. -/
inductive TreeItem where
  | single (value : Tree)
  | spread (values : Tree)

/-- The parse tree of an entry of an object. -/
inductive TreeEntry where
  /-- A value under a name. -/
  | named (key : Text) (value : Tree)
  /-- A value under a string. -/
  | string (key : Text) (value : Tree)
  /-- A value under a numeral. -/
  | number (key : Text) (value : Tree)
  /-- A value under an evaluated key. -/
  | computed (key value : Tree)
  /-- A variable under its own name. -/
  | shorthand (name : Text)
  /-- All entries of a value. -/
  | spread (values : Tree)

end

namespace Build

/-- The value of a numeric literal. -/
def number (s : Text) : Except Rejection Num := (Spelling.number s).mapError fun _ => .badLiteral

/-- The name that a numeric literal gives as a key. -/
def key (s : Text) : Except Rejection Text := do (← number s).write.mapError fun _ => .badLiteral

/-- The value of a string literal. -/
def string (s : Text) : Except Rejection Text := (Spelling.string s).mapError fun _ => .badLiteral

/-- An assignment to a place. -/
def assign (op : AssignOp) (target value : Expr) : Built :=
  match target.place? with
  | some place => .ok (.assign op place value)
  | none => .error .noPlace

/-- A function whose body does not wait. -/
def arrow (params : List Text) (body : Expr) : Built :=
  if body.suspends then .error .waitingFunction else .ok (.arrow params body)

/-- An access to an object, which goes on inside an open chain or opens one. -/
def access (optional : Bool) (object : Expr) (make : Expr → Expr) : Expr :=
  if optional then object.extendOptional make else object.extend make

end Build

mutual

/-- The expression of a tree: that of its parts first, from left to right. -/
def Tree.build : Tree → Built
  | .number k => return .literal (.number (← Build.number k))
  | .string k => return .literal (.text (← Build.string k))
  | .constant value => return .literal value
  | .name n => return .name n
  | .array items => return .array (← buildItems items)
  | .object entries => return .object (← buildEntries entries)
  | .paren inner => return (← inner.build).parenthesized
  | .member object n optional => return Build.access optional (← object.build) (.member · n optional)
  | .index object key optional => do
    let object ← object.build
    let key ← key.build
    return Build.access optional object (.index · key optional)
  | .call callee arguments optional => do
    let callee ← callee.build
    let arguments ← buildItems arguments
    return Build.access optional callee (.call · arguments optional)
  | .unary op operand => return .unary op (← operand.build)
  | .delete operand => return (← operand.build).remove
  | .await operand => return .await (← operand.build)
  | .binary op left right => return .binary op (← left.build) (← right.build)
  | .logical op left right => return .logical op (← left.build) (← right.build)
  | .conditional test consequent alternate =>
    return .conditional (← test.build) (← consequent.build) (← alternate.build)
  | .assign op target value => do
    let target ← target.build
    let value ← value.build
    Build.assign op target value
  | .arrow params body => do Build.arrow params (← body.build)
  | .sequence left right => return (← left.build).followedBy (← right.build)

/-- The elements or arguments of trees. -/
def buildItems : List TreeItem → Except Rejection (List Item)
  | [] => return []
  | .single t :: items => return .single (← t.build) :: (← buildItems items)
  | .spread t :: items => return .spread (← t.build) :: (← buildItems items)

/-- The entries of trees. A key that is spelled out is decoded after its value is built. -/
def buildEntries : List TreeEntry → Except Rejection (List Entry)
  | [] => return []
  | .named k t :: entries => return .named k (← t.build) :: (← buildEntries entries)
  | .string k t :: entries => do
    let value ← t.build
    return .named (← Build.string k) value :: (← buildEntries entries)
  | .number k t :: entries => do
    let value ← t.build
    return .named (← Build.key k) value :: (← buildEntries entries)
  | .computed k t :: entries =>
    return .computed (← k.build) (← t.build) :: (← buildEntries entries)
  | .shorthand n :: entries => return .named n (.name n) :: (← buildEntries entries)
  | .spread t :: entries => return .spread (← t.build) :: (← buildEntries entries)

end

end GuardedText
