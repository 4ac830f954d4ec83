import GuardedText.Comment.Basic

/-
  Directives: comments whose first content line starts with `#if`, `#elseif`, `#else` or `#endif`,
  followed by nothing or by white space and a payload. `Directive.scan` lists the directives of a
  script in order, each with its place.
-/

namespace GuardedText

/-- The four directives. -/
inductive Tag where
  | ifTag | elseifTag | elseTag | endifTag
  deriving DecidableEq, Repr

/-- The word of a directive. -/
def Tag.word : Tag → String
  | .ifTag => "if" | .elseifTag => "elseif" | .elseTag => "else" | .endifTag => "endif"

/-- A stretch of a script and where it begins. -/
structure Span where
  /-- The offset of the first code point. -/
  start : Nat
  /-- The offset after the last code point. -/
  stop : Nat
  /-- The position of the first code point. -/
  position : Position
  deriving DecidableEq, Repr

/-- A directive found in a script. -/
structure Directive where
  /-- Which directive it is. -/
  tag : Tag
  /-- Where the comment stands, its marks included. -/
  span : Span
  /-- What follows the word of the directive. -/
  payload : Text
  deriving DecidableEq, Repr

namespace Directive

/-- A line of a block comment without its indentation and one star after it. -/
def uncover (line : Text) : Text :=
  let s := line.dropWhile CodePoint.isBlank
  (Text.after? "*" s).getD s

/-- The line of a comment that may hold a directive: a line comment as a whole, and of a block
comment the first line that is not blank once uncovered. -/
def contentLine? (text : Text) (block : Bool) : Option Text :=
  if block then ((Text.lines text).map uncover).find? fun line => !line.all CodePoint.isBlank
  else some text

/-- The payload after a directive's word: the word must end there. -/
def payload? (rest : Text) : Option Text :=
  match rest with
  | [] => some []
  | c :: _ => if c.isBlank then some (rest.dropWhile CodePoint.isBlank) else none

/-- The directive at the start of a line, with its payload. -/
def ofLine? (line : Text) : Option (Tag × Text) :=
  (Text.after? "#" (line.dropWhile CodePoint.isBlank)).bind fun s =>
    [Tag.ifTag, .elseifTag, .elseTag, .endifTag].findSome? fun tag =>
      ((Text.after? tag.word s).bind payload?).map (tag, ·)

/-- The directive that the text of a comment holds. -/
def ofComment? (text : Text) (block : Bool) : Option (Tag × Text) :=
  (contentLine? text block).bind ofLine?

/-- The directives of a script in order. -/
def scan (source : Text) : List Directive :=
  let starts := Text.lineStarts source
  (Comment.find source).filterMap fun comment =>
    (ofComment? comment.text comment.block).map fun (tag, payload) =>
      { tag, payload
        span := ⟨comment.start, comment.stop, Position.locate starts comment.start⟩ }

end Directive

end GuardedText
