import GuardedText.Text.Class
import GuardedText.Text.Unprintable

/-
  Texts in quotes, as they stand in messages. Single quotes are used, unless the text holds a single
  quote and no double one; the quote, backslashes and all that cannot be printed are escaped.
-/

namespace GuardedText.Text

/-- A number in hexadecimal digits, with zeros in front up to a width. -/
def hex (width n : Nat) : Text :=
  let ds := Nat.toDigits 16 n
  (List.replicate (width - ds.length) '0' ++ ds).map CodePoint.ofChar

/-- A code point inside quotes. -/
def quotedOne (quote c : CodePoint) : Text :=
  if c == quote || c.val == 0x5C then [0x5C, c]
  else if c.val == 0x0A then "\\n"
  else if c.val == 0x0D then "\\r"
  else if c.val == 0x09 then "\\t"
  else if inRanges unprintableRanges c.val then
    (if c.val < 0x100 then ("\\x" : Text) ++ hex 2 c.val
     else if c.val < 0x10000 then ("\\u" : Text) ++ hex 4 c.val
     else ("\\U" : Text) ++ hex 8 c.val)
  else [c]

/-- A text in quotes. -/
def quoted (t : Text) : Text :=
  let quote : CodePoint := if List.elem 0x27 t && !List.elem 0x22 t then 0x22 else 0x27
  quote :: (t.flatMap (quotedOne quote) ++ [quote])

end GuardedText.Text
