import GuardedText.Guard.Attempt
import GuardedText.Guard.Tree

/-
  Parsing guard expressions. The operators bind as `BinaryOp.level` says; the power and assignments
  group to the right, all other operators to the left, and `??` does not mix with `&&` and `||`.

  `Form` lists what can be read. `Reader.step` says how each form is read, given how its parts are
  read, and a reading keeps what follows. Reading looks for all readings: where operands can follow
  one another it stops after each of them, and what comes next decides which of these readings goes
  on. The first operand of an assignment is read once and then taken as a target, a base or an
  operand, whatever follows it.
-/

namespace GuardedText

/-- What can follow an expression any number of times, grouping to the left. -/
inductive Series where
  /-- Commas and assignments. -/
  | commas
  /-- A short-circuit operator and its right operands. -/
  | logical (op : LogicalOp)
  /-- Operators of one level and their right operands. -/
  | operators (level : Nat)
  /-- Accesses and calls. -/
  | accesses

/-- The brackets around arguments and elements. -/
inductive Bracket where
  | round | square

/-- The symbol that ends arguments or elements. -/
def Bracket.closing : Bracket → String
  | .round => ")"
  | .square => "]"

/-- What can be read from a text. -/
inductive Form where
  /-- Assignments with commas between them. -/
  | expression
  /-- A function, an assignment or a conditional expression. -/
  | assignment
  /-- An operand whose operators bind at least as tightly as a level; above all levels is the
  power. -/
  | operand (level : Nat)
  /-- An operand with the operators before it, and whether there are none. -/
  | unary
  /-- The names of parameters up to the closing parenthesis. -/
  | names
  /-- Arguments or elements up to their closing bracket. -/
  | items (bracket : Bracket)
  /-- Entries of an object up to its closing brace. -/
  | entries
  /-- What follows an expression in a series. -/
  | more (series : Series) (first : Tree)

/-- What a form is read as. -/
abbrev Form.Out : Form → Type
  | .unary => Tree × Bool
  | .names => List Text
  | .items _ => List TreeItem
  | .entries => List TreeEntry
  | .expression | .assignment | .operand _ | .more _ _ => Tree

/-- A way to read each form. -/
abbrev Reader := (f : Form) → Text → Attempt (f.Out × Text)

/-- The level of the power, above those of the other operators. -/
def BinaryOp.tightest : Nat := BinaryOp.pow.level

namespace Reader

open Attempt Token

variable (read : Reader)

/-! ## Accesses and operands -/

/-- One access or call of an expression. -/
def access (e : Tree) (s : Text) : Attempt (Tree × Text) :=
  anyOf [
    do let t ← symbol "." s
       let (n, u) ← token anyName? t
       return (.member e n false, u),
    do let t ← symbol "[" s
       let (key, u) ← read .expression t
       return (.index e key false, ← symbol "]" u),
    do let t ← symbol "(" s
       let (arguments, u) ← read (.items .round) t
       return (.call e arguments false, u),
    do let t ← symbol "?." s
       let (n, u) ← token anyName? t
       return (.member e n true, u),
    do let t ← symbol "[" (← symbol "?." s)
       let (key, u) ← read .expression t
       return (.index e key true, ← symbol "]" u),
    do let t ← symbol "(" (← symbol "?." s)
       let (arguments, u) ← read (.items .round) t
       return (.call e arguments true, u)]

/-- A literal, a name, or an expression in brackets of some kind. -/
def primary (s : Text) : Attempt (Tree × Text) :=
  anyOf [
    do let (k, t) ← token number? s
       return (.number k, t),
    do let (k, t) ← token string? s
       return (.string k, t),
    do let (value, t) ← token constant? s
       return (.constant value, t),
    do let (n, t) ← token name? s
       return (.name n, t),
    do let (items, t) ← read (.items .square) (← symbol "[" s)
       return (.array items, t),
    do let (entries, t) ← read .entries (← symbol "\x7b" s)
       return (.object entries, t),
    do let (inner, t) ← read .expression (← symbol "(" s)
       return (.paren inner, ← symbol ")" t)]

/-- An operand with the operators before it, and whether there are none. -/
def unary (s : Text) : Attempt ((Tree × Bool) × Text) :=
  anyOf [
    do let (op, t) ← token unary? s
       let ((e, _), u) ← read .unary t
       return ((.unary op e, false), u),
    do let t ← token (word? "delete") s
       let ((e, _), u) ← read .unary t
       return ((.delete e, false), u),
    do let t ← token (word? "await") s
       let ((e, _), u) ← read .unary t
       return ((.await e, false), u),
    do let (e, t) ← read.primary s
       let (e, u) ← read (.more .accesses e) t
       return ((e, true), u)]

/-- The power of an operand; only one without operators before it can be raised. -/
def power (first : Tree × Bool) (s : Text) : Attempt (Tree × Text) :=
  also (pure (first.1, s)) <|
    if first.2 then do
      let t ← symbol "**" s
      let (exponent, u) ← read (.operand BinaryOp.tightest) t
      return (.binary .pow first.1 exponent, u)
    else nothing

/-- The operators of the `count` levels from `loosest` on that follow an expression, those that bind
tightest first. -/
def climb (loosest : Nat) : (count : Nat) → Tree → Text → Attempt (Tree × Text)
  | 0, e, s => pure (e, s)
  | count + 1, e, s => do
    let (e, t) ← read (.more (.operators (loosest + count)) e) s
    climb loosest count e t

/-- What follows the first operand, up to the operators of a level. -/
def operandFrom (level : Nat) (first : Tree × Bool) (s : Text) : Attempt (Tree × Text) := do
  let (e, t) ← read.power first s
  read.climb level (BinaryOp.tightest - level) e t

/-! ## Short circuits, conditionals, assignments -/

/-- What follows the first operand of a chain of `??`, or of `&&` and `||`. -/
def shortCircuit (e : Tree) (s : Text) : Attempt (Tree × Text) :=
  also
    (do let (e, t) ← read (.more (.logical .and) e) s
        read (.more (.logical .or) e) t)
    (do let t ← symbol "??" s
        let (f, u) ← read (.operand 1) t
        read (.more (.logical .coalesce) (.logical .coalesce e f)) u)

/-- The branches of a conditional expression after its test. -/
def branches (test : Tree) (s : Text) : Attempt (Tree × Text) :=
  also (pure (test, s)) do
    let (consequent, t) ← read .assignment (← symbol "?" s)
    let (alternate, u) ← read .assignment (← symbol ":" t)
    return (.conditional test consequent alternate, u)

/-- What follows the first operand of a conditional expression. -/
def conditional (first : Tree × Bool) (s : Text) : Attempt (Tree × Text) := do
  let (e, t) ← read.operandFrom 1 first s
  let (e, u) ← read.shortCircuit e t
  read.branches e u

/-- The parameters of a function: one name, or names in parentheses. -/
def params (s : Text) : Attempt (List Text × Text) :=
  also
    (do let (n, t) ← token name? s
        return ([n], t))
    (do read .names (← symbol "(" s))

/-- A function. -/
def arrow (s : Text) : Attempt (Tree × Text) := do
  let (names, t) ← read.params s
  let (body, u) ← read .assignment (← symbol "=>" t)
  return (.arrow names body, u)

/-- What follows the target of an assignment; it has no operators before it. -/
def assigned (target : Tree × Bool) (s : Text) : Attempt (Tree × Text) :=
  if target.2 then do
    let (op, t) ← token assign? s
    let (value, u) ← read .assignment t
    return (.assign op target.1 value, u)
  else nothing

/-! ## Lists -/

/-- An argument or element. -/
def item (s : Text) : Attempt (TreeItem × Text) :=
  also
    (do let (e, t) ← read .assignment s
        return (.single e, t))
    (do let (e, t) ← read .assignment (← symbol "..." s)
        return (.spread e, t))

/-- An entry of an object. -/
def entry (s : Text) : Attempt (TreeEntry × Text) :=
  anyOf [
    do let (k, t) ← token anyName? s
       let (value, u) ← read .assignment (← symbol ":" t)
       return (.named k value, u),
    do let (k, t) ← token string? s
       let (value, u) ← read .assignment (← symbol ":" t)
       return (.string k value, u),
    do let (k, t) ← token number? s
       let (value, u) ← read .assignment (← symbol ":" t)
       return (.number k value, u),
    do let (key, t) ← read .assignment (← symbol "[" s)
       let (value, u) ← read .assignment (← symbol ":" (← symbol "]" t))
       return (.computed key value, u),
    do let (n, t) ← token name? s
       return (.shorthand n, t),
    do let (e, t) ← read .assignment (← symbol "..." s)
       return (.spread e, t)]

/-- Elements up to their closing symbol, each read as `element` says and followed by a comma unless
it is the last one; `rest` reads those after a comma. -/
def list {α : Type} (closing : String) (element : Text → Attempt (α × Text))
    (rest : Text → Attempt (List α × Text)) (s : Text) : Attempt (List α × Text) :=
  also (do return ([], ← symbol closing s)) do
    let (first, t) ← element s
    also (do return ([first], ← symbol closing t)) do
      let (others, u) ← rest (← symbol "," t)
      return (first :: others, u)

/-! ## All forms -/

/-- The right operand of a series, after the operator, joined to what stands before it. -/
def joined (e : Tree) (s : Text) : Series → Attempt (Tree × Text)
  | .commas => do
    let (f, t) ← read .assignment (← symbol "," s)
    return (.sequence e f, t)
  | .logical .or => do
    let (f, t) ← read (.operand 1) (← symbol LogicalOp.or.symbol s)
    let (f, u) ← read (.more (.logical .and) f) t
    return (.logical .or e f, u)
  | .logical op => do
    let (f, t) ← read (.operand 1) (← symbol op.symbol s)
    return (.logical op e f, t)
  | .operators level => do
    let (op, t) ← token (operator? level) s
    let (f, u) ← read (.operand (level + 1)) t
    return (.binary op e f, u)
  | .accesses => read.access e s

/-- One step of reading a form. -/
def step : Reader
  | .expression, s => do
    let (e, t) ← read .assignment s
    read (.more .commas e) t
  | .assignment, s =>
    also (read.arrow s) do
      let (first, t) ← read .unary s
      also (read.assigned first t) (read.conditional first t)
  | .operand level, s => do
    let (first, t) ← read .unary s
    read.operandFrom level first t
  | .unary, s => read.unary s
  | .names, s => list ")" (token name?) (read .names) s
  | .items bracket, s => list bracket.closing (read.item) (read (.items bracket)) s
  | .entries, s => list "\x7d" (read.entry) (read .entries) s
  | .more series e, s =>
    also (pure (e, s)) do
      let (e, t) ← read.joined e s series
      read (.more series e) t

end Reader

/-- Reads a form in at most `depth` steps inside each other. -/
def Form.read : (depth : Nat) → Reader
  | 0, _, _ => Attempt.nothing
  | depth + 1, f, s => (read depth).step f s

/-! ## Statements -/

/-- The steps that a reading of `s` can nest. -/
def depth (s : Text) : Nat := 3 * s.length + 3

/-- A statement: an expression with the text it spans. -/
structure Statement where
  /-- The text from the first to the last token. -/
  code : Text
  /-- The parse tree. -/
  tree : Tree

open Attempt in
/-- One statement, or nothing. -/
def statement (s : Text) : Attempt (Option Statement × Text) :=
  also
    (do let (tree, t) ← Form.read (depth s) .expression s
        let start := Token.skip s
        return (some ⟨start.take (start.length - t.length), tree⟩, t))
    (pure (none, s))

open Attempt in
/-- Statements with semicolons between them, up to the end of the text; at most so many. -/
def statements : Nat → Text → Attempt (List (Option Statement))
  | 0, _ => nothing
  | count + 1, s => do
    let (first, t) ← statement s
    also (do ended t; return [first]) do
      return first :: (← statements count (← symbol ";" t))

end GuardedText
