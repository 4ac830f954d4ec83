import GuardedText.Guard.Parser

/-
  Guards: texts that spell exactly one expression. `Guard.compile` checks, in this order, that the
  text does not start like a statement, that it parses, that it holds one expression, and that the
  expression can be built. A semicolon may follow the expression.
-/

namespace GuardedText

/-- A compiled guard. -/
structure Guard where
  /-- The text of the expression from its first to its last token. -/
  code : Text
  /-- The expression. -/
  expr : Expr

/-- Whether a guard can wait. -/
def Guard.suspends (g : Guard) : Bool := g.expr.suspends

/-- Why a text is no guard. -/
inductive GuardError where
  /-- It starts like a statement of some kind. -/
  | statement (kind : String)
  /-- It does not parse; reading stopped at this column. -/
  | unexpected (column : Nat)
  /-- It holds no expression, or more than one. -/
  | notOne
  /-- It parses to something that is no expression. -/
  | rejected (reason : Rejection)
  deriving DecidableEq, Repr

/-- The words for a text that is no guard. A literal without a value has none. -/
def GuardError.message : GuardError → Text
  | .statement kind => "Expected an expression, found " ++ Text.ofString kind ++ "."
  | .unexpected column => "Unexpected token (1:" ++ Text.ofNat column ++ ")"
  | .notOne => "Expected exactly one expression."
  | .rejected .noPlace => "Assigning to rvalue"
  | .rejected .waitingFunction => "Cannot use keyword 'await' outside an async function"
  | .rejected .badLiteral => []

namespace Guard

/-- The words that start a statement, and what the statement is called. -/
def statementWords : List (String × String) :=
  [("if", "IfStatement"), ("for", "ForStatement"), ("while", "WhileStatement"),
   ("do", "DoWhileStatement"), ("var", "VariableDeclaration"), ("const", "VariableDeclaration"),
   ("function", "FunctionDeclaration"), ("class", "ClassDeclaration"),
   ("return", "ReturnStatement"), ("switch", "SwitchStatement"), ("try", "TryStatement"),
   ("throw", "ThrowStatement"), ("break", "BreakStatement"), ("continue", "ContinueStatement"),
   ("import", "ImportDeclaration"), ("export", "ExportNamedDeclaration"),
   ("debugger", "DebuggerStatement"), ("with", "WithStatement")]

/-- Whether a text starts with `let` and something that can be declared. -/
def startsDeclaration (s : Text) : Bool :=
  match Token.symbol? "let" s with
  | none => false
  | some t =>
    Token.nextIs CodePoint.isBlank t &&
      Token.nextIs (fun c => c.isWordOrDollar || c.val == 0x5B || c.val == 0x7B)
        (t.dropWhile CodePoint.isBlank)

/-- The kind of statement that a text starts with. -/
def statementKind? (s : Text) : Option String :=
  let t := s.dropWhile CodePoint.isBlank
  match statementWords.find? fun (w, _) => (Token.word? w t).isSome with
  | some (_, kind) => some kind
  | none =>
    if startsDeclaration t then some "VariableDeclaration"
    else if Token.nextIs (Token.oneOf "\x7b") t then some "BlockStatement"
    else if Token.nextIs (Token.oneOf ";") t then some "EmptyStatement"
    else none

/-- The column of the place that leaves `unread` code points of `s`: code points since the last
line feed, or the length of the text when nothing is left. -/
def columnAt (s : Text) (unread : Nat) : Nat :=
  if unread = 0 then s.length
  else ((s.take (s.length - unread)).reverse.takeWhile (· != 0x0A)).length

/-- How much of `s` is unread where reading stops after no reading left less than `furthest`. That is
the first place from there on that lies in no white space and no comment which started earlier,
whatever it started in: a comment that starts inside a string literal holds the place back too.
`gapEnd` is what is unread at the end of the gaps passed so far. -/
def unreadAtStop (furthest : Nat) : (gapEnd : Nat) → (s : Text) → Nat
  | _, [] => 0
  | gapEnd, c :: s =>
    let gapEnd := min gapEnd (((Token.afterGap? (c :: s)).map List.length).getD s.length)
    if s.length < furthest ∧ s.length ≤ gapEnd then s.length + 1
    else unreadAtStop furthest gapEnd s

/-- The statements of a text. -/
def parse (s : Text) : Except GuardError (List (Option Statement)) :=
  let attempt := statements (s.length + 1) s
  match attempt.readings with
  | found :: _ => .ok found
  | [] =>
    let furthest := attempt.unread.getD s.length
    .error (.unexpected (columnAt s (unreadAtStop furthest s.length s)))

/-- The statement among those of a text that holds exactly one; an empty one at the end does not
count. -/
def single (found : List (Option Statement)) : Except GuardError Statement :=
  let counted := if found.getLast?.any Option.isNone then found.dropLast else found
  match counted with
  | none :: _ => .error (.statement "EmptyStatement")
  | [some statement] => .ok statement
  | _ => .error .notOne

/-- The guard that a text spells. -/
def compile (s : Text) : Except GuardError Guard := do
  if let some kind := statementKind? s then throw (.statement kind)
  let statement ← single (← parse s)
  match statement.tree.build with
  | .ok e => return ⟨statement.code, e⟩
  | .error reason => throw (.rejected reason)

end Guard

end GuardedText
