import GuardedText.Text.Case
import GuardedText.Text.Search
import GuardedText.Value.Convert

/-
  The functions of texts, and what arrays share with them. A position counts from the start, or
  from the end when it is negative, and never leaves the text.
-/

namespace GuardedText.Store

/-- The position that an argument gives in something of a length; `missing` when there is no
argument. -/
def position (s : Store) (v : Value) (length missing : Nat) : Except Fault Nat := do
  match v with
  | .undefined => return missing
  | v =>
    let n ← s.toNumber v
    match n.truncate? with
    | some i => return if i < 0 then (length + i).toNat else min i.toNat length
    | none =>
      match n with
      | .float x => return if Double.isInfinite x && !Double.isNegative x then length else 0
      | .int _ => return 0

/-- The bounds that two arguments give in something of a length. -/
def bounds (s : Store) (length : Nat) (start stop : Value) : Except Fault (Nat × Nat) := do
  let i ← s.position start length 0
  let j ← s.position stop length length
  return (i, j)

/-- The parts of a text between separators; without a separator the text is one part, and an empty
one parts every code point. -/
def split (s : Store) (t : Text) (separator limit : Value) : Except Fault (List Text) := do
  let parts ← match separator with
    | .undefined => pure [t]
    | v => do
      let sep ← s.toText v
      pure (if sep.isEmpty then t.map fun c => [c] else t.splitOn sep)
  match limit with
  | .undefined => return parts
  | v => return parts.take (← s.toUInt32 v).toNat

/-- The offset of the first occurrence of a text from a position on. -/
def indexFrom? (t part : Text) (i : Nat) : Option Nat := (Text.find? part (t.drop i)).map (· + i)

end GuardedText.Store
