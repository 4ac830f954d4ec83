import GuardedText.Text.Class
import GuardedText.Guard.Expr

/-
  The tokens of guard expressions. Which tokens are looked for depends on what the grammar can
  accept, so there is no token stream: each function here looks for one kind of token at the start
  of a text and returns what follows it. Looking ahead keeps operators apart that share their first
  characters, and a doubled sign is never read as two signs.
-/

namespace GuardedText.Token

/-- What follows a comment that runs to `*/`. -/
def afterBlockEnd? : Text → Option Text
  | [] => none
  | c :: s => if c == '*' && s.head? == some (CodePoint.ofChar '/') then some (s.drop 1)
    else afterBlockEnd? s

/-- White space between tokens, the byte order mark included. -/
def isSpace (c : CodePoint) : Bool := c.isBlank || c.val == 0xFEFF

/-- What follows one run of white space or one comment. -/
def afterGap? (s : Text) : Option Text :=
  match s with
  | [] => none
  | c :: t =>
    if isSpace c then some (t.dropWhile isSpace)
    else if c == '/' then
      match t with
      | d :: u =>
        if d == '*' then afterBlockEnd? u
        else if d == '/' then some (u.dropWhile fun e => e.val != 0x0A && e.val != 0x0D)
        else none
      | [] => none
    else none

/-- The places at which a token can stand after some white space and comments, the last one first:
a division sign can also stand where a comment starts. -/
def stopsIn : Nat → Text → List Text
  | 0, s => [s]
  | fuel + 1, s =>
    match afterGap? s with
    | some rest => stopsIn fuel rest ++ [s]
    | none => [s]

/-- The places at which the next token can stand. -/
def stops (s : Text) : List Text := stopsIn s.length s

/-- What follows white space and comments. -/
def skipGaps : Nat → Text → Text
  | 0, s => s
  | fuel + 1, s =>
    match afterGap? s with
    | some rest => skipGaps fuel rest
    | none => s

/-- The text after all white space and comments. -/
def skip (s : Text) : Text := skipGaps s.length s

/-- What follows a symbol. -/
def symbol? (w : String) (s : Text) : Option Text := Text.after? w s

/-- Whether the next code point is one of `p`. -/
def nextIs (p : CodePoint → Bool) (s : Text) : Bool := s.head?.any p

/-- What follows a symbol that is not followed by a code point of `p`. -/
def symbolNot? (w : String) (p : CodePoint → Bool) (s : Text) : Option Text :=
  (symbol? w s).filter fun rest => !nextIs p rest

/-- What follows a word that is not part of a longer one. -/
def word? (w : String) (s : Text) : Option Text := symbolNot? w CodePoint.isWordOrDollar s

/-- A code point that is one of the characters of `w`. -/
def oneOf (w : String) (c : CodePoint) : Bool := (Text.ofString w).contains c

/-- The first of some alternatives that is found. -/
def firstOf {α : Type} (choices : List (α × (Text → Option Text))) (s : Text) : Option (α × Text) :=
  choices.findSome? fun (a, find) => (find s).map (a, ·)

/-! ## Names -/

/-- The words that are no names of variables. -/
def reserved : List String :=
  ["true", "false", "null", "typeof", "void", "delete", "await", "in", "instanceof", "new", "this",
   "super", "function", "class", "if", "else", "for", "while", "do", "return", "var", "const",
   "switch", "case", "default", "break", "continue", "try", "catch", "finally", "throw", "import",
   "export", "with", "debugger", "enum", "extends"]

/-- The first code point of a name. -/
def startsName (c : CodePoint) : Bool := c.val == 0x24 || (c.isWord && !c.isDecimal)

/-- A name, reserved or not, and what follows it. -/
def anyName? (s : Text) : Option (Text × Text) :=
  match s with
  | [] => none
  | c :: _ => if startsName c then some (Text.span CodePoint.isWordOrDollar s) else none

/-- A name of a variable, and what follows it. -/
def name? (s : Text) : Option (Text × Text) :=
  (anyName? s).filter fun (n, _) => !(reserved.any fun w => n == Text.ofString w)

/-! ## Literals -/

/-- The number of code points on which `p` holds at the start of `s`. -/
def runLength (p : CodePoint → Bool) (s : Text) : Nat := (s.takeWhile p).length

/-- The length of a numeral with a radix letter. -/
def radixLength? (s : Text) : Option Nat :=
  match s with
  | c :: d :: t =>
    let run (p : CodePoint → Bool) : Option Nat :=
      let n := runLength p t
      if n == 0 then none else some (n + 2)
    if c == '0' then
      if d == 'x' || d == 'X' then run CodePoint.isHex
      else if d == 'o' || d == 'O' then run (CodePoint.between '0' '7')
      else if d == 'b' || d == 'B' then run (CodePoint.between '0' '1')
      else none
    else none
  | _ => none

/-- The length of an exponent at the start of `s`, zero without one. -/
def exponentLength (s : Text) : Nat :=
  match s with
  | c :: t =>
    if c == 'e' || c == 'E' then
      let signLength := if nextIs (oneOf "+-") t then 1 else 0
      let n := runLength CodePoint.isDecimal (t.drop signLength)
      if n == 0 then 0 else n + signLength + 1
    else 0
  | [] => 0

/-- The lengths that a decimal numeral at the start of `s` can have, the preferred ones first. -/
def decimalLengths (s : Text) : List Nat :=
  let whole := runLength CodePoint.isDecimal s
  let rest := s.drop whole
  let pointed := nextIs (oneOf ".") rest
  let fraction := runLength CodePoint.isDecimal (rest.drop 1)
  let withExponent (n : Nat) : List Nat := [n + exponentLength (s.drop n), n]
  if whole == 0 then (if pointed && fraction != 0 then withExponent (1 + fraction) else [])
  else (if pointed then withExponent (whole + 1 + fraction) else []) ++ withExponent whole

/-- A numeral that no word character follows, and what follows it. -/
def number? (s : Text) : Option (Text × Text) :=
  ((radixLength? s).toList ++ decimalLengths s).findSome? fun n =>
    if nextIs CodePoint.isWordOrDollar (s.drop n) then none else some (s.take n, s.drop n)

/-- The length of a string body up to its closing quote. -/
def bodyLength? (quote : CodePoint) : Text → Option Nat
  | [] => none
  | c :: s =>
    if c == quote then some 0
    else if c.val == 0x5C then
      match s with
      | _ :: t => (bodyLength? quote t).map (· + 2)
      | [] => none
    else if c.val == 0x0A || c.val == 0x0D then none
    else (bodyLength? quote s).map (· + 1)

/-- A string literal with its quotes, and what follows it. -/
def string? (s : Text) : Option (Text × Text) :=
  match s with
  | c :: t =>
    if c.val == 0x22 || c.val == 0x27 then
      (bodyLength? c t).map fun n => (s.take (n + 2), s.drop (n + 2))
    else none
  | [] => none

/-- A constant, and what follows it. -/
def constant? : Text → Option (Literal × Text) :=
  firstOf [(.bool true, word? "true"), (.bool false, word? "false"), (.null, word? "null")]

/-! ## Operators -/

/-- An operator before its operand. -/
def unary? : Text → Option (UnaryOp × Text) :=
  firstOf [(.not, symbol? "!"), (.bitNot, symbol? "~"), (.plus, symbolNot? "+" (oneOf "+")),
    (.minus, symbolNot? "-" (oneOf "-")), (.typeof, word? "typeof"), (.void, word? "void")]

/-- A left-associative operator between its operands. -/
def binary? : Text → Option (BinaryOp × Text) :=
  firstOf [
    (.bitOr, symbolNot? "|" (oneOf "|=")), (.bitXor, symbolNot? "^" (oneOf "=")),
    (.bitAnd, symbolNot? "&" (oneOf "&=")),
    (.strictEq, symbol? "==="), (.looseEq, symbol? "=="), (.strictNe, symbol? "!=="),
    (.looseNe, symbol? "!="),
    (.lessEq, symbol? "<="), (.greaterEq, symbol? ">="), (.less, symbolNot? "<" (oneOf "<=")),
    (.greater, symbolNot? ">" (oneOf ">=")), (.instanceOf, word? "instanceof"),
    (.within, word? "in"),
    (.shiftRightZero, symbolNot? ">>>" (oneOf "=")), (.shiftRight, symbolNot? ">>" (oneOf "=")),
    (.shiftLeft, symbolNot? "<<" (oneOf "=")),
    (.add, symbolNot? "+" (oneOf "+=")), (.sub, symbolNot? "-" (oneOf "-=")),
    (.mul, symbolNot? "*" (oneOf "*=")), (.div, symbolNot? "/" (oneOf "=")),
    (.rem, symbolNot? "%" (oneOf "="))]

/-- A left-associative operator that binds as tightly as `level` says. -/
def operator? (level : Nat) (s : Text) : Option (BinaryOp × Text) :=
  (binary? s).filter fun (op, _) => op.level == level

/-- The operators of assignments, longer ones before their beginnings. -/
def assignOps : List AssignOp :=
  [.update .pow, .update .shiftRightZero, .update .shiftLeft, .update .shiftRight, .choose .and,
   .choose .or, .choose .coalesce, .update .sub, .update .add, .update .mul, .update .div,
   .update .rem, .update .bitAnd, .update .bitOr, .update .bitXor, .set]

/-- An operator of an assignment. -/
def assign? : Text → Option (AssignOp × Text) :=
  firstOf (assignOps.map fun op => (op, symbolNot? op.symbol (oneOf "=>")))

end GuardedText.Token
