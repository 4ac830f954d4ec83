import GuardedText.Text.Quoted

/-
  Why bytes are no text in an encoding: which bytes, and what is wrong with them.
-/

namespace GuardedText

/-- A byte of a file. -/
abbrev Byte := UInt8

/-- What is wrong with some bytes. -/
inductive FlawReason where
  /-- No code point starts with this byte. -/
  | badStart
  /-- The code point that was begun does not go on like this. -/
  | badContinuation
  /-- The bytes end inside a code point. -/
  | endsInside
  /-- The byte is above 127. -/
  | notAscii
  /-- The bytes end inside a unit. -/
  | truncated
  /-- The second half of a pair comes first. -/
  | lowFirst
  /-- The first half of a pair is not followed by the second. -/
  | unpaired
  deriving DecidableEq, Repr

/-- The words for what is wrong. -/
def FlawReason.text : FlawReason → String
  | .badStart => "invalid start byte"
  | .badContinuation => "invalid continuation byte"
  | .endsInside => "unexpected end of data"
  | .notAscii => "ordinal not in range(128)"
  | .truncated => "truncated data"
  | .lowFirst => "illegal encoding"
  | .unpaired => "illegal UTF-16 surrogate"

/-- Why bytes are no text. -/
structure Flaw where
  /-- The encoding they were read in. -/
  codec : String
  /-- What is wrong. -/
  reason : FlawReason
  /-- The offset of the first byte at fault. -/
  start : Nat
  /-- That byte. -/
  first : Byte
  /-- How many bytes are at fault. -/
  length : Nat
  deriving DecidableEq, Repr

/-- The words for a flaw. -/
def Flaw.message (f : Flaw) : Text :=
  let place : Text :=
    if f.length = 1 then
      "byte 0x" ++ Text.hex 2 f.first.toNat ++ " in position " ++ Text.ofNat f.start
    else "bytes in position " ++ Text.ofNat f.start ++ "-" ++ Text.ofNat (f.start + f.length - 1)
  "'" ++ Text.ofString f.codec ++ "' codec can't decode " ++ place ++ ": " ++
    Text.ofString f.reason.text

end GuardedText
