import GuardedText.Text.Lines
import GuardedText.Comment.Lexeme

/-
  The comments of a script. The lexer ends a line comment at LF only; what it kept after another
  line terminator is scanned again as a text of its own.
-/

namespace GuardedText

/-- A comment. -/
structure Comment where
  /-- The offset of its first code point. -/
  start : Nat
  /-- The offset after its last code point. -/
  stop : Nat
  /-- The text between its marks. -/
  text : Text
  /-- Whether it has a closing mark. -/
  block : Bool
  deriving DecidableEq, Repr

namespace Comment

/-- The part of a line before its terminator, and the part after it, if there is a terminator. -/
def splitLine : Text → Text × Option Text
  | [] => ([], none)
  | c :: s =>
    match Text.afterLineEnd? (c :: s) with
    | some rest => ([], some rest)
    | none => let (line, rest) := splitLine s; (c :: line, rest)

/-- The comments that one lexeme of a text at `offset` holds; `again` finds those in what the lexer
kept after a line terminator. -/
def ofLexeme (again : Nat → Text → List Comment) (offset : Nat) (lexeme : Lexeme) : List Comment :=
  let start := offset + lexeme.start
  let length := lexeme.text.length
  match lexeme.kind with
  | .other => []
  | .blockComment => [⟨start, start + length, (lexeme.text.drop 2).take (length - 4), true⟩]
  | .lineComment =>
    let (line, remainder) := splitLine lexeme.text
    ⟨start, start + line.length, line.drop 2, false⟩ ::
      remainder.elim [] fun more => again (start + (length - more.length)) more

/-- The comments of a text that starts at `offset`, scanned again at most `fuel` times over. -/
def within : Nat → Nat → Text → List Comment
  | 0, _, _ => []
  | fuel + 1, offset, s => (Lexeme.scan s).flatMap (ofLexeme (within fuel) offset)

/-- The comments of a text in order. -/
def find (s : Text) : List Comment := within (s.length + 1) 0 s

end Comment

end GuardedText
