import GuardedText.Encoding.Utf8
import GuardedText.Encoding.Utf16
import GuardedText.Text.Search

/-
  Encodings of files and the names they go by. A file is read with every CR LF and every CR alone
  turned into LF, and is written as it is.
-/

namespace GuardedText

/-- An encoding of texts in bytes. -/
inductive Encoding where
  | ascii
  | latin1
  | utf8
  /-- UTF-8 with a byte order mark. -/
  | utf8Marked
  | utf16 (order : Utf16.Order)
  /-- UTF-16 with a byte order mark. -/
  | utf16Marked
  deriving DecidableEq, Repr

/-- Why bytes could not be decoded. -/
inductive DecodeFailure where
  /-- Some bytes are no text. -/
  | flaw (flaw : Flaw)
  /-- The byte order mark is missing. -/
  | noMark
  deriving DecidableEq, Repr

namespace Encoding

/-- A name with small letters, in which every run of other characters than letters, digits and
points is an underscore, those at the ends left out. -/
def plainName (name : Text) : Text :=
  let kept (c : CodePoint) : Bool := c.isAsciiLetter || c.isAsciiDigit || c.val == 0x2E
  let words := (Text.splitAtEach (fun c => !kept c) name).filter fun w => !w.isEmpty
  Text.join "_" (words.map (List.map CodePoint.toAsciiLower))

/-- The encodings with their names. -/
def names : List (Encoding × List String) :=
  [(.utf8, ["utf_8", "u8", "utf", "utf8", "utf8_ucs2", "utf8_ucs4", "cp65001"]),
   (.utf8Marked, ["utf_8_sig"]),
   (.latin1, ["latin_1", "8859", "cp819", "csisolatin1", "ibm819", "iso8859", "iso8859_1",
     "iso_8859_1", "iso_8859_1_1987", "iso_ir_100", "l1", "latin", "latin1"]),
   (.ascii, ["ascii", "646", "ansi_x3.4_1968", "ansi_x3_4_1968", "ansi_x3.4_1986", "cp367",
     "csascii", "ibm367", "iso646_us", "iso_646.irv_1991", "iso_ir_6", "us", "us_ascii"]),
   (.utf16Marked, ["utf_16", "u16", "utf16"]),
   (.utf16 .little, ["utf_16_le", "unicodelittleunmarked", "utf_16le"]),
   (.utf16 .big, ["utf_16_be", "unicodebigunmarked", "utf_16be"])]

/-- The encoding of a name. -/
def ofName? (name : Text) : Option Encoding :=
  let plain := plainName name
  (names.find? fun (_, spellings) => spellings.any fun s => Text.ofString s == plain).map (·.1)

/-- The text of bytes that are all ASCII. -/
def decodeAscii (bytes : List Byte) : Except Flaw Text :=
  match bytes.zipIdx.find? fun (b, _) => decide (0x80 ≤ b.toNat) with
  | some (b, offset) =>
    .error { codec := "ascii", reason := .notAscii, start := offset, first := b, length := 1 }
  | none => .ok (bytes.map fun b => Fin.ofNat 0x110000 b.toNat)

/-- The text of some bytes. -/
def decode (encoding : Encoding) (bytes : List Byte) : Except DecodeFailure Text :=
  match encoding with
  | .ascii => (decodeAscii bytes).mapError .flaw
  | .latin1 => .ok (bytes.map fun b => Fin.ofNat 0x110000 b.toNat)
  | .utf8 => (Utf8.decode bytes).mapError .flaw
  | .utf8Marked => (Utf8.decodeMarked bytes).mapError .flaw
  | .utf16 order => (order.decode bytes).mapError .flaw
  | .utf16Marked =>
    match Utf16.decodeMarked? bytes with
    | .ok (some t) => .ok t
    | .ok none => .error .noMark
    | .error f => .error (.flaw f)

/-- The bytes of a text whose code points the encoding has. -/
def encode (encoding : Encoding) (t : Text) : List Byte :=
  match encoding with
  | .ascii | .latin1 => t.map fun c => UInt8.ofNat c.val
  | .utf8 => Utf8.encode t
  | .utf8Marked => Utf8.mark ++ Utf8.encode t
  | .utf16 order => order.encode t
  | .utf16Marked => Utf16.encodeMarked t

end Encoding

/-- The text with one LF for every CR LF and every CR alone. -/
def Text.unifyLineEnds : Text → Text
  | [] => []
  | [c] => [if c.val = 0x0D then 0x0A else c]
  | c :: d :: s =>
    if c.val = 0x0D then
      (if d.val = 0x0A then 0x0A :: unifyLineEnds s else 0x0A :: unifyLineEnds (d :: s))
    else c :: unifyLineEnds (d :: s)

end GuardedText
