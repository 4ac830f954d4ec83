import GuardedText.Number.Basic

/-
  JSON documents and their text. Members of an object keep their order. `render` writes no white
  space, escapes quotes, backslashes and control characters, and, when only ASCII is wanted, every
  code point beyond it as surrogate pairs or single units.
-/

namespace GuardedText

/-- A JSON document. -/
inductive Json where
  /-- The null literal. -/
  | null
  /-- A truth value. -/
  | bool (b : Bool)
  /-- A number. -/
  | number (n : Num)
  /-- A string. -/
  | text (t : Text)
  /-- An array. -/
  | array (items : List Json)
  /-- An object; its members keep their order. -/
  | object (members : List (Text × Json))

namespace Json

instance : Inhabited Json := ⟨.null⟩

/-- The four hexadecimal digits of a 16-bit unit. -/
def hexUnit (n : Nat) : Text :=
  let digit (d : Nat) : CodePoint :=
    if d < 10 then Fin.ofNat 0x110000 (0x30 + d) else Fin.ofNat 0x110000 (0x61 + d - 10)
  [digit (n / 4096 % 16), digit (n / 256 % 16), digit (n / 16 % 16), digit (n % 16)]

/-- A 16-bit unit spelled as an escape. -/
def unitEscape (n : Nat) : Text := ("\\u" : Text) ++ hexUnit n

/-- A code point inside a string. -/
def escape (ascii : Bool) (c : CodePoint) : Text :=
  let n := c.val
  if n == 0x22 then "\\\"" else if n == 0x5C then "\\\\"
  else if n == 0x0A then "\\n" else if n == 0x0D then "\\r" else if n == 0x09 then "\\t"
  else if n == 0x08 then "\\b" else if n == 0x0C then "\\f"
  else if n < 0x20 then unitEscape n
  else if ascii && 0x7E < n then
    (if n < 0x10000 then unitEscape n
     else unitEscape (0xD800 + (n - 0x10000) / 0x400) ++ unitEscape (0xDC00 + (n - 0x10000) % 0x400))
  else [c]

/-- A string with its quotes. -/
def quote (ascii : Bool) (t : Text) : Text :=
  (0x22 : CodePoint) :: (t.flatMap (escape ascii) ++ [(0x22 : CodePoint)])

mutual

/-- The text of a document without white space. -/
def render (ascii : Bool) : Json → Text
  | .null => "null"
  | .bool true => "true"
  | .bool false => "false"
  | .number n => n.toFullText
  | .text t => quote ascii t
  | .array items => (0x5B : CodePoint) :: (renderItems ascii items ++ [(0x5D : CodePoint)])
  | .object members => (0x7B : CodePoint) :: (renderMembers ascii members ++ [(0x7D : CodePoint)])

/-- The items of an array with commas between them. -/
def renderItems (ascii : Bool) : List Json → Text
  | [] => []
  | [item] => render ascii item
  | item :: items => render ascii item ++ "," ++ renderItems ascii items

/-- The members of an object with commas between them. -/
def renderMembers (ascii : Bool) : List (Text × Json) → Text
  | [] => []
  | [(key, value)] => quote ascii key ++ ":" ++ render ascii value
  | (key, value) :: members =>
    quote ascii key ++ ":" ++ (render ascii value ++ "," ++ renderMembers ascii members)

end

end Json

end GuardedText
