import GuardedText.Table
import GuardedText.Text.Class
import GuardedText.Number.Reader
import GuardedText.Json.Basic

/-
  Reading JSON. White space is space, tab, LF and CR; the names `NaN`, `Infinity` and
  `-Infinity` are numbers; of members with one key the last gives the value and the first the
  place. An error names the place by the number of code points still unread.
-/

namespace GuardedText.Json

/-- What is wrong with a text that is not JSON. -/
inductive Flaw where
  /-- The text starts with a byte order mark. -/
  | byteOrderMark
  /-- A value is missing. -/
  | expectedValue
  /-- Text follows the document. -/
  | extraData
  /-- A comma is missing. -/
  | expectedComma
  /-- A colon is missing. -/
  | expectedColon
  /-- The name of a member is missing. -/
  | expectedName
  /-- A string has no closing quote. -/
  | unterminated
  /-- A string holds a control character. -/
  | controlCharacter
  /-- A backslash is followed by the wrong character. -/
  | badEscape
  /-- A spelled-out unit has not four digits. -/
  | badUnit
  /-- An integer has so many digits that it is not read. -/
  | tooManyDigits (count : Nat)
  deriving DecidableEq, Repr

/-- The words for a flaw. -/
def Flaw.message : Flaw → Text
  | .byteOrderMark => "Unexpected UTF-8 BOM (decode using utf-8-sig)"
  | .expectedValue => "Expecting value"
  | .extraData => "Extra data"
  | .expectedComma => "Expecting ',' delimiter"
  | .expectedColon => "Expecting ':' delimiter"
  | .expectedName => "Expecting property name enclosed in double quotes"
  | .unterminated => "Unterminated string starting at"
  | .controlCharacter => "Invalid control character at"
  | .badEscape => "Invalid \\escape"
  | .badUnit => "Invalid \\uXXXX escape"
  | .tooManyDigits count =>
    "Exceeds the limit (" ++ Text.ofNat Numeral.maxDigits ++
      " digits) for integer string conversion: value has " ++ Text.ofNat count ++
      " digits; use sys.set_int_max_str_digits() to increase the limit"

/-- A flaw and how many code points were unread at its place. -/
structure Error where
  /-- What is wrong. -/
  flaw : Flaw
  /-- The number of code points from the place of the flaw to the end. -/
  unread : Nat
  deriving DecidableEq, Repr

/-- The message of an error in `source`: the flaw with its line, column and offset. A number that is
not read is told without its place. -/
def Error.message (source : Text) (e : Error) : Text :=
  let offset := source.length - e.unread
  let before := source.take offset
  let line := before.count 0x0A + 1
  let column := (before.reverse.takeWhile (· != 0x0A)).length + 1
  match e.flaw with
  | .tooManyDigits _ => e.flaw.message
  | _ =>
    e.flaw.message ++ ": line " ++ Text.ofNat line ++ " column " ++ Text.ofNat column ++
      " (char " ++ Text.ofNat offset ++ ")"

/-- White space of JSON. -/
def isSpace (c : CodePoint) : Bool := c == ' ' || c == '\t' || c == '\n' || c == '\r'

/-- `s` without leading white space. -/
def skip (s : Text) : Text := s.dropWhile isSpace

/-- The value of four hexadecimal digits at the start of `s`, if more text follows them. -/
def unit? : Text → Option (Nat × Text)
  | a :: b :: c :: d :: e :: s =>
    match a.hexValue?, b.hexValue?, c.hexValue?, d.hexValue? with
    | some a, some b, some c, some d => some (((a * 16 + b) * 16 + c) * 16 + d, e :: s)
    | _, _, _, _ => none
  | _ => none

/-- The code point that an escape other than a unit stands for. -/
def simpleEscape? (c : CodePoint) : Option CodePoint :=
  if c.val == 0x22 || c.val == 0x5C || c.val == 0x2F then some c
  else if c == 'b' then some 8
  else if c == 'f' then some 12
  else if c == 'n' then some 10
  else if c == 'r' then some 13
  else if c == 't' then some 9
  else none

/-- A high unit joined with a low unit spelled right after it. -/
def joinUnits (high : Nat) (s : Text) : CodePoint × Text :=
  let single := (Fin.ofNat 0x110000 high, s)
  if 0xD800 ≤ high && high < 0xDC00 then
    match (Text.after? "\\u" s).bind unit? with
    | some (low, rest) =>
      if 0xDC00 ≤ low && low < 0xE000 then
        (Fin.ofNat 0x110000 (0x10000 + (high - 0xD800) * 0x400 + (low - 0xDC00)), rest)
      else single
    | none => single
  else single

/-- The rest of a string whose opening quote stands `opened` code points before the end. -/
def stringBody (opened : Nat) : Nat → Text → Except Error (Text × Text)
  | 0, _ => .error ⟨.unterminated, opened⟩
  | _ + 1, [] => .error ⟨.unterminated, opened⟩
  | fuel + 1, c :: s =>
    if c.val == 0x22 then .ok ([], s)
    else if c.val < 0x20 then .error ⟨.controlCharacter, s.length + 1⟩
    else if c.val == 0x5C then
      match s with
      | [] => .error ⟨.unterminated, opened⟩
      | d :: t =>
        if d == 'u' then
          match unit? t with
          | none => .error ⟨.badUnit, t.length + 1⟩
          | some (n, rest) => do
            let (c, rest) := joinUnits n rest
            let (body, rest) ← stringBody opened fuel rest
            return (c :: body, rest)
        else
          match simpleEscape? d with
          | none => .error ⟨.badEscape, s.length + 1⟩
          | some e => do
            let (body, rest) ← stringBody opened fuel t
            return (e :: body, rest)
    else do
      let (body, rest) ← stringBody opened fuel s
      return (c :: body, rest)

/-- The ASCII digits at the start of `s`, and the rest. -/
def asciiDigits (s : Text) : List Nat × Text :=
  let (ds, rest) := Text.span CodePoint.isAsciiDigit s
  (ds.map fun d => d.val - 0x30, rest)

/-- Whether a minus sign stands at the start of `s`, and what follows it. -/
def minus (s : Text) : Bool × Text :=
  match s with
  | c :: t => if c == '-' then (true, t) else (false, s)
  | [] => (false, s)

/-- The digits in front of a point at the start of `s`, and the rest. Nothing follows a zero. -/
def whole (s : Text) : List Nat × Text :=
  match s with
  | c :: t => if c == '0' then ([0], t) else asciiDigits s
  | [] => ([], s)

/-- A number at the start of `s`, as long as it can be read. -/
def number? (s : Text) : Option (Num × Text) :=
  let (negative, t) := minus s
  let (whole, rest) := whole t
  if whole.isEmpty then none
  else
    let (fraction, rest) : List Nat × Text :=
      match rest with
      | c :: u =>
        if c == '.' then
          let (f, v) := asciiDigits u
          if f.isEmpty then ([], rest) else (f, v)
        else ([], rest)
      | [] => ([], rest)
    let (power, rest) : Option Int × Text :=
      match rest with
      | c :: u =>
        if c == 'e' || c == 'E' then
          let (low, u) := Numeral.sign u
          let (ds, v) := asciiDigits u
          let n : Int := (Numeral.ofDigits 10 ds : Nat)
          if ds.isEmpty then (none, rest) else (some (if low then -n else n), v)
        else (none, rest)
      | [] => (none, rest)
    let all := Numeral.ofDigits 10 (whole ++ fraction)
    if fraction.isEmpty && power.isNone then
      some (.int (if negative then -(all : Int) else all), rest)
    else
      some (.float (Double.ofDecimal negative ⟨all, power.getD 0 - fraction.length⟩), rest)

/-- The documents that are a bare word. -/
def words : List (Text × Json) :=
  [("null", .null), ("true", .bool true), ("false", .bool false), ("NaN", .number .nan),
   ("Infinity", .number .infinity), ("-Infinity", .number (.float (Double.infinity true)))]

/-- A bare word or a number at the start of `s`. -/
def atom? (s : Text) : Option (Json × Text) :=
  (words.findSome? fun (word, value) => (Text.after? word s).map (value, ·)).or
    ((number? s).map fun (n, rest) => (.number n, rest))

/-- A bare word or a number that was found at the start of `s`, if it is read: its digits are counted
if it is an integer. -/
def accept (s : Text) : Json × Text → Except Error (Json × Text)
  | (.number (.int n), rest) =>
    let count := (whole (minus s).2).1.length
    if Numeral.isReadable 10 count then .ok (.number (.int n), rest)
    else .error ⟨.tooManyDigits count, s.length⟩
  | found => .ok found

mutual

/-- The document at the start of `s`. -/
def value : Nat → Text → Except Error (Json × Text)
  | 0, s => .error ⟨.expectedValue, s.length⟩
  | fuel + 1, s =>
    match s with
    | [] => .error ⟨.expectedValue, 0⟩
    | c :: t =>
      if c.val == 0x22 then do
        let (body, rest) ← stringBody s.length (s.length + 1) t
        return (.text body, rest)
      else if c.val == 0x5B then
        match skip t with
        | [] => .error ⟨.expectedValue, 0⟩
        | d :: u =>
          if d.val == 0x5D then .ok (.array [], u)
          else do
            let (found, rest) ← items fuel (d :: u)
            return (.array found, rest)
      else if c.val == 0x7B then
        match skip t with
        | [] => .error ⟨.expectedName, 0⟩
        | d :: u =>
          if d.val == 0x7D then .ok (.object [], u)
          else do
            let (found, rest) ← members fuel [] (d :: u)
            return (.object found, rest)
      else (atom? s).elim (.error ⟨.expectedValue, s.length⟩) (accept s)

/-- The items of an array up to its closing bracket. -/
def items : Nat → Text → Except Error (List Json × Text)
  | 0, s => .error ⟨.expectedValue, s.length⟩
  | fuel + 1, s => do
    let (item, rest) ← value fuel s
    match skip rest with
    | [] => .error ⟨.expectedComma, 0⟩
    | c :: t =>
      if c.val == 0x5D then return ([item], t)
      else if c == ',' then do
        let (rest, t) ← items fuel (skip t)
        return (item :: rest, t)
      else .error ⟨.expectedComma, t.length + 1⟩

/-- The members of an object up to its closing brace, after those already read. -/
def members : Nat → List (Text × Json) → Text → Except Error (List (Text × Json) × Text)
  | 0, _, s => .error ⟨.expectedValue, s.length⟩
  | fuel + 1, found, s =>
    match s with
    | [] => .error ⟨.expectedName, 0⟩
    | q :: t =>
      if q.val == 0x22 then do
        let (key, rest) ← stringBody s.length (s.length + 1) t
        match skip rest with
        | [] => .error ⟨.expectedColon, 0⟩
        | c :: u =>
          if c == ':' then do
            let (item, rest) ← value fuel (skip u)
            let found := Table.insert key item found
            match skip rest with
            | [] => .error ⟨.expectedComma, 0⟩
            | d :: v =>
              if d.val == 0x7D then return (found, v)
              else if d == ',' then members fuel found (skip v)
              else .error ⟨.expectedComma, v.length + 1⟩
          else .error ⟨.expectedColon, u.length + 1⟩
      else .error ⟨.expectedName, t.length + 1⟩

end

/-- The document that a whole text spells. -/
def parse (s : Text) : Except Error Json :=
  if s.head? == some 0xFEFF then .error ⟨.byteOrderMark, s.length⟩
  else do
    let (document, rest) ← value (2 * s.length + 2) (skip s)
    match skip rest with
    | [] => return document
    | rest => .error ⟨.extraData, rest.length⟩

end GuardedText.Json
