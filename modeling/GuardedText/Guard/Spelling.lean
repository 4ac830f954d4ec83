import GuardedText.Number.Reader

/-
  The values of numeric and string literals. A numeral with a radix letter or without point and
  exponent is an exact integer, any other one a double. In a string a backslash starts an escape;
  before the end of a line it continues the string.
-/

namespace GuardedText.Spelling

/-- The value of a numeral without a radix letter. -/
def decimal (s : Text) : Except Fault Num :=
  if s.any fun c => c == '.' || c == 'e' || c == 'E' then
    (Numeral.double? s).elim (.error .badValue) (.ok ∘ Num.float)
  else (Numeral.integer? 10 s).elim (.error .badValue) (.ok ∘ Num.int)

/-- The value of a numeral. -/
def number (s : Text) : Except Fault Num :=
  match s with
  | c :: d :: rest =>
    match (if c == '0' then Numeral.announcedRadix? d else none) with
    | some radix =>
      let digits := if rest.head? == some (CodePoint.ofChar '_') then rest.drop 1 else rest
      (Numeral.natural? radix (Text.dropEndWhile CodePoint.isBlank digits)).elim
        (.error .badValue) fun n => .ok (.int n)
    | none => decimal s
  | _ => decimal s

/-- The code point with a number, if there is one. -/
def codePoint (n : Nat) : Except Fault CodePoint :=
  if h : n < 0x110000 then .ok ⟨n, h⟩ else if n < twoTo 31 then .error .badValue else .error .overflow

/-- The number of `count` hexadecimal digits at the start of `s`, and the rest. -/
def hexDigits? : Nat → Nat → Text → Option (Nat × Text)
  | 0, n, s => some (n, s)
  | _ + 1, _, [] => none
  | count + 1, n, c :: s => c.hexValue?.bind fun d => hexDigits? count (n * 16 + d) s

/-- The number of a braced run of hexadecimal digits at the start of `s`, and the rest. -/
def bracedHex? (s : Text) : Option (Nat × Text) :=
  match s with
  | [] => none
  | c :: t =>
    if c.val == 0x7B then
      let (ds, rest) := Numeral.digits 16 t
      match rest with
      | d :: u => if d.val == 0x7D && !ds.isEmpty then some (Numeral.ofDigits 16 ds, u) else none
      | [] => none
    else none

/-- The code point spelled by number after a backslash, and the rest. -/
def spelled? : Text → Option (Nat × Text)
  | [] => none
  | c :: s =>
    if c == 'u' then (bracedHex? s).or (hexDigits? 4 0 s)
    else if c == 'x' then hexDigits? 2 0 s
    else none

/-- What a single code point after a backslash stands for. -/
def simple (c : CodePoint) : Text :=
  if c.isLineEnd then []
  else if c == 'n' then [10]
  else if c == 't' then [9]
  else if c == 'r' then [13]
  else if c == 'b' then [8]
  else if c == 'f' then [12]
  else if c == 'v' then [11]
  else if c == '0' then [0]
  else [c]

/-- The text of a string body with its escapes resolved. -/
def unescape : Nat → Text → Except Fault Text
  | 0, s => .ok s
  | _ + 1, [] => .ok []
  | fuel + 1, c :: s =>
    if c.val == 0x5C then
      match spelled? s with
      | some (n, rest) => do
        let d ← codePoint n
        return d :: (← unescape fuel rest)
      | none =>
        match s with
        | [] => .ok [c]
        | d :: e :: rest =>
          if d.val == 0x0D && e.val == 0x0A then unescape fuel rest
          else return simple d ++ (← unescape fuel (e :: rest))
        | [d] => .ok (simple d)
    else return c :: (← unescape fuel s)

/-- The value of a string literal with its quotes. -/
def string (s : Text) : Except Fault Text :=
  let body := (s.drop 1).dropLast
  unescape body.length body

end GuardedText.Spelling
