import GuardedText.Text.Class

/-
  Lexemes of a script, as far as they decide where comments are. A stack of modes tells code from
  template strings and their holes, and code where a slash divides from code where it opens a
  regular expression. Each lexeme has at least one code point, so the lexemes of a text concatenate
  to it and there are no more of them than it has code points.
-/

namespace GuardedText

/-- What the lexer takes the next code points for. -/
inductive Mode where
  /-- Code in which a slash is an operator. -/
  | code
  /-- Code in which a slash opens a regular expression. -/
  | operand
  /-- The rest of a line after a slash that opens no regular expression. -/
  | spoiled
  /-- A template string. -/
  | template
  /-- The code in a hole of a template string. -/
  | hole
  deriving DecidableEq, Repr

/-- The kind of a lexeme. -/
inductive LexemeKind where
  /-- A comment to the end of the line. -/
  | lineComment
  /-- A comment between its own marks. -/
  | blockComment
  /-- Anything else. -/
  | other
  deriving DecidableEq, Repr

/-- What a lexeme does to the stack of modes. -/
inductive Shift where
  /-- Nothing. -/
  | stay
  /-- A mode is entered. -/
  | enter (mode : Mode)
  /-- The present mode is left. -/
  | leave
  /-- The present mode gives way to another. -/
  | replace (mode : Mode)
  deriving DecidableEq, Repr

/-- A lexeme that is about to be cut off: its kind, its length and its effect. -/
structure Match where
  /-- The kind. -/
  kind : LexemeKind
  /-- The number of code points. -/
  length : Nat
  /-- The effect on the stack of modes. -/
  shift : Shift

namespace Lexeme

/-- The number of code points on which `p` holds at the start of `s`. -/
def run (p : CodePoint → Bool) (s : Text) : Nat := (s.takeWhile p).length

/-- Whether the next code point is one of `p`. -/
def nextIs (p : CodePoint → Bool) (s : Text) : Bool := s.head?.any p

/-- Whether `s` starts with a string. -/
def starts (w : String) (s : Text) : Bool := (Text.ofString w).isPrefixOf s

/-- A code point that is one of the characters of `w`. -/
def oneOf (w : String) (c : CodePoint) : Bool := (Text.ofString w).contains c

/-! ## White space and comments -/

/-- The length of a text up to and including the first `*/`. -/
def blockLength? : Text → Option Nat
  | [] => none
  | c :: s => if c == '*' && nextIs (oneOf "/") s then some 2 else (blockLength? s).map (· + 1)

/-- White space, an opening HTML comment mark, or a comment. -/
def gap? (s : Text) : Option (LexemeKind × Nat) :=
  if nextIs CodePoint.isBlank s then some (.other, run CodePoint.isBlank s)
  else if starts "<!--" s then some (.other, 4)
  else if starts "//" s then some (.lineComment, run (fun c => c.val != 0x0A) s)
  else if starts "/*" s then (blockLength? (s.drop 2)).map fun n => (.blockComment, n + 2)
  else none

/-! ## Regular expressions -/

/-- The length of a character class after its opening bracket, the closing one included. -/
def classLength? : Text → Option Nat
  | [] => none
  | c :: s =>
    if c.val == 0x5D then some 1
    else if c.val == 0x5C then
      match s with
      | _ :: t => (classLength? t).map (· + 2)
      | [] => none
    else if c.val == 0x0A then none
    else (classLength? s).map (· + 1)

/-- The length of a regular expression after its opening slash, the closing one included. -/
def patternLength? : Nat → Text → Option Nat
  | 0, _ => none
  | _ + 1, [] => none
  | fuel + 1, c :: s =>
    if c == '/' then some 1
    else if c.val == 0x5C then
      match s with
      | _ :: t => (patternLength? fuel t).map (· + 2)
      | [] => none
    else if c.val == 0x5B then
      (classLength? s).bind fun n => (patternLength? fuel (s.drop n)).map (· + n + 1)
    else if c.val == 0x0A then none
    else (patternLength? fuel s).map (· + 1)

/-- The length of a regular expression with its flags. Its body is not empty, and no word
character follows it. -/
def regexLength? (s : Text) : Option Nat :=
  match s with
  | c :: t =>
    if c == '/' && !nextIs (oneOf "/") t then
      (patternLength? t.length t).bind fun n =>
        let flags := run (oneOf "gimuysd") (t.drop n)
        if nextIs CodePoint.isWord (t.drop (n + flags)) then none else some (1 + n + flags)
    else none
  | [] => none

/-! ## Numbers, operators and words -/

/-- The length of a run of `p`, which must not be empty, after `skip` code points, and of an `n`
after it. -/
def digitsFrom? (skip : Nat) (p : CodePoint → Bool) (s : Text) : Option Nat :=
  let n := run p (s.drop skip)
  if n == 0 then none
  else some (skip + n + (if nextIs (oneOf "n") (s.drop (skip + n)) then 1 else 0))

/-- The length of an exponent, zero without one. -/
def exponentLength (s : Text) : Nat :=
  if nextIs (oneOf "eE") s then
    let signLength := if nextIs (oneOf "+-") (s.drop 1) then 1 else 0
    let n := run CodePoint.isAsciiDigit (s.drop (1 + signLength))
    if n == 0 then 0 else 1 + signLength + n
  else 0

/-- The length of a decimal number. -/
def decimalLength? (s : Text) : Option Nat :=
  let whole := run CodePoint.isAsciiDigit s
  let pointed := nextIs (oneOf ".") (s.drop whole)
  let fraction := run CodePoint.isAsciiDigit (s.drop (whole + 1))
  if whole == 0 && !(pointed && fraction != 0) then none
  else
    let n := if pointed then whole + 1 + fraction else whole
    some (n + exponentLength (s.drop n))

/-- The length of a number. -/
def numberLength? (s : Text) : Option Nat :=
  let octal := CodePoint.between '0' '7'
  let big := run CodePoint.isAsciiDigit s
  let radixed :=
    if starts "0b" s || starts "0B" s then digitsFrom? 2 (CodePoint.between '0' '1') s
    else if starts "0o" s || starts "0O" s then digitsFrom? 2 octal s
    else if starts "0x" s || starts "0X" s then digitsFrom? 2 CodePoint.isHex s
    else if starts "0" s then digitsFrom? 1 octal s
    else none
  radixed.or
    (if big != 0 && nextIs (oneOf "n") (s.drop big) then some (big + 1) else decimalLength? s)

/-- The operators that an equals sign may follow. -/
def growing : List String :=
  ["<<", ">>>", ">>", "==", "=", "!=", "!", "**", "||", "&&", "-", "<", ">", "+", "*", "%", "&", "|",
   "^", "/"]

/-- The length of an operator after which an operand is expected. -/
def operatorLength? (s : Text) : Option Nat :=
  if starts "++" s || starts "--" s then some 2
  else if starts "~" s then some 1
  else if starts "??" s then some (if starts "??=" s then 3 else 2)
  else if starts "?" s || starts ":" s || starts "\\\n" s then some 1
  else
    (growing.find? (starts · s)).map fun w =>
      let n := w.length
      if nextIs (oneOf "=") (s.drop n) then n + 1 else n

/-- The words after which an operand is expected. -/
def operandWords : List String :=
  ["typeof", "instanceof", "in", "void", "delete", "new", "for", "while", "do", "break", "return",
   "continue", "switch", "case", "default", "if", "else", "throw", "try", "catch", "finally",
   "yield", "await", "async", "this", "of", "static", "export", "import", "debugger", "extends",
   "super", "var", "let", "const", "with", "function", "class"]

/-- The words of the language after which no operand is expected. -/
def plainWords : List String :=
  ["constructor", "from", "as", "abstract", "boolean", "byte", "char", "double", "enum", "final",
   "float", "goto", "implements", "int", "interface", "long", "native", "package", "private",
   "protected", "public", "short", "synchronized", "throws", "transient", "volatile", "true",
   "false", "null", "NaN", "Infinity", "undefined", "Array", "Boolean", "Date", "BigInt",
   "Function", "Math", "ArrayBuffer", "Number", "Object", "RegExp", "String", "Promise", "Proxy",
   "decodeURI", "decodeURIComponent", "encodeURI", "encodeURIComponent", "eval", "isFinite",
   "isNaN", "parseFloat", "parseInt", "DataView", "document", "window", "globalThis", "global",
   "arguments", "Symbol", "Intl", "WeakSet", "WeakMap", "Set", "Map", "Reflect", "JSON", "Atomics",
   "Int8Array", "Int16Array", "Int32Array", "BigInt64Array", "Float32Array", "Float64Array",
   "Uint8ClampedArray", "Uint8Array", "Uint16Array", "Uint32Array", "BigUint64Array", "Error",
   "EvalError", "InternalError", "RangeError", "ReferenceError", "SyntaxError", "TypeError",
   "URIError"]

/-- The length of a code point spelled by number inside an identifier. -/
def spelledLength? (s : Text) : Option Nat :=
  if starts "\\u" s && run CodePoint.isHex ((s.drop 2).take 4) == 4 then some 6 else none

/-- A code point that may start an identifier. -/
def startsIdentifier (c : CodePoint) : Bool :=
  c.val == 0x24 || c.val == 0x5F || c.isLetter || Text.inRanges Text.letterNumberRanges c.val

/-- A code point that may continue an identifier. -/
def continuesIdentifier (c : CodePoint) : Bool :=
  startsIdentifier c || c.isDecimal || c.val == 0x200C || c.val == 0x200D ||
    Text.inRanges Text.markRanges c.val || Text.inRanges Text.connectorRanges c.val

/-- The length of the rest of an identifier. -/
def identifierRest : Nat → Text → Nat
  | 0, _ => 0
  | fuel + 1, s =>
    if nextIs continuesIdentifier s then identifierRest fuel (s.drop 1) + 1
    else
      match spelledLength? s with
      | some n => identifierRest fuel (s.drop n) + n
      | none => 0

/-- The length of an identifier. -/
def identifierLength? (s : Text) : Option Nat :=
  let first := if nextIs startsIdentifier s then some 1 else spelledLength? s
  first.map fun n => n + identifierRest s.length (s.drop n)

/-- The length of a method name before an empty parameter list and a body. -/
def methodLength? (s : Text) : Option Nat :=
  if nextIs (fun c => c.isAsciiLetter || c.val == 0x5F || c.val == 0x24) s then
    let n := run (fun c => c.isWord || c == '?' || c == '.' || c == '$') s
    if starts "() \x7b" (s.drop n) then some n else none
  else none

/-- A word: how long it is and whether an operand is expected after it. A name of the language
counts only where no word character stands before it, if it is one of the contextual ones. -/
def word? (afterWord : Bool) (s : Text) : Option (Nat × Bool) :=
  let w := s.takeWhile CodePoint.isWord
  let is (words : List String) : Bool := words.any fun k => Text.ofString k == w
  if is operandWords then some (w.length, true)
  else if is plainWords && !(afterWord && is ["constructor", "from", "as"]) then
    some (w.length, false)
  else
    match methodLength? s with
    | some n => some (n, true)
    | none => (identifierLength? s).map (·, false)

/-- The length of a quoted string, counted from after its opening quote. -/
def quotedLength? (quote : CodePoint) : Text → Option Nat
  | [] => none
  | c :: s =>
    if c == quote then some 1
    else if c.val == 0x5C then
      match s with
      | _ :: t => (quotedLength? quote t).map (· + 2)
      | [] => none
    else (quotedLength? quote s).map (· + 1)

/-! ## The lexeme at a place -/

/-- The lexeme of code at the start of `s`, white space and comments included. -/
def inCode (afterWord : Bool) (s : Text) : Match :=
  let enterIf (b : Bool) : Shift := if b then .enter .operand else .stay
  match gap? s with
  | some (kind, n) => ⟨kind, n, .stay⟩
  | none =>
    match numberLength? s with
    | some n => ⟨.other, n, .stay⟩
    | none =>
      if starts "..." s then ⟨.other, 3, .stay⟩
      else if starts "=>" s then ⟨.other, 2, .stay⟩
      else
        match operatorLength? s with
        | some n => ⟨.other, n, .enter .operand⟩
        | none =>
          if nextIs (oneOf "\x7b([;,") s then ⟨.other, 1, .enter .operand⟩
          else if nextIs (oneOf "\x7d)].") s then ⟨.other, 1, .stay⟩
          else
            match word? afterWord s with
            | some (n, expects) => ⟨.other, n, enterIf expects⟩
            | none =>
              match s with
              | c :: t =>
                if c.val == 0x22 || c.val == 0x27 then
                  ⟨.other, 1 + (quotedLength? c t).getD 0, .stay⟩
                else if c.val == 0x60 then ⟨.other, 1, .enter .template⟩
                else if c == '#' && nextIs (fun d => d.isAsciiLetter || d.val == 0x5F) t then
                  ⟨.other, 1 + run CodePoint.isWord t, .stay⟩
                else ⟨.other, 1, .stay⟩
              | [] => ⟨.other, 1, .stay⟩

/-- The length of an interpreter line. -/
def hashbangLength? (s : Text) : Option Nat :=
  if starts "#!/" s || starts "#! /" s then some (run (fun c => c.val != 0x0A) s) else none

/-- Whether white space, a slash or an HTML comment mark comes next. -/
def startsGapOrSlash (s : Text) : Bool :=
  nextIs (fun c => c.isBlank || c == '/') s || starts "<!--" s

/-- The lexeme in a template string. -/
def inTemplate (s : Text) : Match :=
  match s with
  | c :: t =>
    if c.val == 0x60 then ⟨.other, 1, .leave⟩
    else if c.val == 0x5C then ⟨.other, if t.isEmpty then 1 else 2, .stay⟩
    else if c == '$' then
      if nextIs (fun d => d.val == 0x7B) t then ⟨.other, 2, .enter .hole⟩ else ⟨.other, 1, .stay⟩
    else ⟨.other, run (fun d => d.val != 0x60 && d.val != 0x5C && d.val != 0x24) s, .stay⟩
  | [] => ⟨.other, 1, .stay⟩

/-- The modes from the top of the stack down. -/
abbrev Stack := List Mode

/-- The stack after a shift; code at the bottom is never left. -/
def Stack.apply (stack : Stack) : Shift → Stack
  | .stay => stack
  | .enter m => m :: stack
  | .leave => if stack.length ≤ 1 then stack else stack.drop 1
  | .replace m => m :: stack.drop 1

/-- The lexeme at the start of a text where an operand is expected, in code below. -/
def inOperand (s : Text) : Option Match :=
  match gap? s with
  | some (kind, n) => some ⟨kind, n, .stay⟩
  | none =>
    match regexLength? s with
    | some n => some ⟨.other, n, .leave⟩
    | none => if nextIs (oneOf "/") s then some ⟨.other, 1, .replace .spoiled⟩ else none

/-- The lexeme of code, or of a hole, after `before`. At the start of a line a slash opens a
regular expression. -/
def inLine (before : Option CodePoint) (stack : Stack) (s : Text) : Match × Stack :=
  let hash := if before.isNone then hashbangLength? s else none
  match hash with
  | some n => (⟨.other, n, .stay⟩, stack)
  | none =>
    let lineStart := before.all fun c => c.val == 0x0A
    match if lineStart && startsGapOrSlash s then inOperand s else none with
    | some m => (m, .operand :: stack)
    | none => (inCode (before.any CodePoint.isWord) s, stack)

/-- The lexeme at the start of a text, and the stack of modes that its shift applies to. -/
def next (before : Option CodePoint) (stack : Stack) (s : Text) : Match × Stack :=
  match stack with
  | .spoiled :: _ =>
    (⟨.other, 1, if nextIs (fun c => c.val == 0x0A) s then .leave else .stay⟩, stack)
  | .template :: _ => (inTemplate s, stack)
  | .hole :: _ =>
    if nextIs (fun c => c.val == 0x7D) s then (⟨.other, 1, .leave⟩, stack)
    else inLine before stack s
  | .operand :: below =>
    match inOperand s with
    | some m => (m, stack)
    | none =>
      if below.head? == some .hole && nextIs (fun c => c.val == 0x7D) s then
        (⟨.other, 1, .leave⟩, below)
      else inLine before below s
  | _ => inLine before stack s

end Lexeme

/-- A piece of a script with its kind and the offset at which it starts. -/
structure Lexeme where
  /-- The kind. -/
  kind : LexemeKind
  /-- The offset of the first code point. -/
  start : Nat
  /-- The code points. -/
  text : Text

namespace Lexeme

/-- The lexemes of what is left of a text, in at most `fuel` steps. -/
def scanFrom : Nat → Option CodePoint → Stack → Nat → Text → List Lexeme
  | 0, _, _, _, _ => []
  | _ + 1, _, _, _, [] => []
  | fuel + 1, before, stack, start, c :: s =>
    let (m, stack) := next before stack (c :: s)
    let n := max m.length 1
    let piece := (c :: s).take n
    ⟨m.kind, start, piece⟩ ::
      scanFrom fuel piece.getLast? (stack.apply m.shift) (start + n) ((c :: s).drop n)

/-- The lexemes of a text. -/
def scan (s : Text) : List Lexeme := scanFrom s.length none [.code] 0 s

end Lexeme

end GuardedText
