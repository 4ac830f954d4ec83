import GuardedText.Note
import GuardedText.Block.Basic

/-
  Blocks from directives. The directives are read once, in order. Open blocks stand on one stack and
  the branches that are being read on another, the innermost first on both; a block that is closed
  goes into the branch around it. Every mistake is recorded and reading goes on: an `#elseif` or
  `#else` outside every block opens a stand-in block, so that one mistake does not cause others.
  Blocks are returned only when there was no mistake.
-/

namespace GuardedText

/-- The directive that opened a branch. -/
inductive Head where
  /-- The `#if` of the block. -/
  | opening
  /-- An `#elseif`. -/
  | alternative (test : Test)
  /-- An `#else`. -/
  | fallback (span : Span)

/-- Whether a branch is that of an `#else`. -/
def Head.isFallback : Head → Bool
  | .fallback _ => true
  | _ => false

/-- A branch that is being read, or was. -/
structure Scope where
  /-- The directive that opened it. -/
  head : Head
  /-- The closed blocks in it, the latest first, if there are any. -/
  inner : Option (List Block)

namespace Scope

/-- A branch that was just opened. -/
def opened (head : Head) : Scope := ⟨head, none⟩

/-- The branch with one more block in it. -/
def nest (s : Scope) (b : Block) : Scope := { s with inner := some (b :: s.inner.getD []) }

/-- The blocks in the branch in order, if there are any. -/
def body (s : Scope) : Option (List Block) := s.inner.map List.reverse

/-- The blocks in the branch, if it is that of the `#if`. -/
def openingBody? (s : Scope) : Option (List Block) :=
  match s.head with
  | .opening => s.body
  | _ => none

/-- The branch, if it is that of an `#elseif`. -/
def branch? (s : Scope) : Option Branch :=
  match s.head with
  | .alternative test => some (.mk test s.body)
  | _ => none

/-- The branch, if it is that of an `#else`. -/
def fallback? (s : Scope) : Option Fallback :=
  match s.head with
  | .fallback span => some (.mk span s.body)
  | _ => none

end Scope

/-- A block whose `#endif` has not been met. -/
structure OpenBlock where
  /-- The directive that opened it. -/
  test : Test
  /-- Whether it stands in for a missing `#if`. -/
  standIn : Bool
  /-- The branches that were left, the latest first. -/
  done : List Scope
  /-- Whether the block has met an `#else`. -/
  hasElse : Bool

namespace OpenBlock

/-- A guard for a branch whose own guard is malformed; it is never evaluated. -/
def noGuard : Guard := ⟨[], .literal .null⟩

/-- A block that was just opened. -/
def opened (test : Test) (standIn : Bool) : OpenBlock := ⟨test, standIn, [], false⟩

/-- A list that is absent when it is empty. -/
def orAbsent {α : Type} : List α → Option (List α)
  | [] => none
  | x :: xs => some (x :: xs)

/-- The block closed by a directive, with the branch that was being read. -/
def close (b : OpenBlock) (last : Option Scope) (closing : Span) : Block :=
  let scopes := last.toList ++ b.done
  .mk b.test (scopes.findSome? Scope.openingBody?)
    (orAbsent (scopes.reverse.filterMap Scope.branch?)) (scopes.findSome? Scope.fallback?)
    closing b.standIn

end OpenBlock

/-- What has been read of a sequence of directives. -/
structure Reading where
  /-- The closed blocks outside all others, the latest first. -/
  top : List Block := []
  /-- The open blocks, the innermost first. -/
  opened : List OpenBlock := []
  /-- The branches of the open blocks that are being read, the innermost first. -/
  scopes : List Scope := []
  /-- The mistakes, the latest first. -/
  complaints : List Complaint := []
  /-- The notes, the latest first. -/
  notes : List Note := []

/-- Why directives form no blocks. -/
inductive ParseFailure where
  /-- There are mistakes. -/
  | mistakes (complaints : List Complaint)
  /-- A literal of a guard has no value. -/
  | badLiteral
  deriving DecidableEq, Repr

namespace Reading

/-- A mistake is recorded. -/
def complain (r : Reading) (mistake : Mistake) (position : Position) : Reading :=
  let c : Complaint := ⟨mistake, position⟩
  { r with complaints := c :: r.complaints, notes := .complaint c :: r.notes }

/-- The guard of a directive; a malformed one is recorded. A literal without a value stops the
reading. -/
def guardOf (r : Reading) (d : Directive) : Option (Reading × Option Guard) :=
  if d.payload.isEmpty then some (r.complain (.noGuard d.tag) d.span.position, none)
  else
    match Guard.compile d.payload with
    | .ok g => some (r, some g)
    | .error (.rejected .badLiteral) => none
    | .error e => some (r.complain (.badGuard e.message) d.span.position, none)

/-- A block is opened. -/
def push (r : Reading) (test : Test) (standIn : Bool) : Reading :=
  { r with opened := .opened test standIn :: r.opened, scopes := .opened .opening :: r.scopes }

/-- A block is there to go on with: outside every block the mistake is recorded and a stand-in
block is opened. -/
def demandBlock (r : Reading) (d : Directive) (mistake : Mistake) : Reading :=
  match r.opened with
  | _ :: _ => r
  | [] => (r.complain mistake d.span.position).push ⟨d.span, OpenBlock.noGuard⟩ true

/-- Whether the innermost open block has met an `#else`. -/
def hasElse (r : Reading) : Bool := r.opened.head?.any OpenBlock.hasElse

/-- The innermost open block goes on with its next branch. -/
def turn (r : Reading) (head : Head) : Reading :=
  { r with
    opened := r.opened.modifyHead fun b =>
      { b with done := r.scopes.head?.toList ++ b.done, hasElse := b.hasElse || head.isFallback }
    scopes := .opened head :: r.scopes.tail }

/-- An `#if` is met. -/
def readIf (r : Reading) (d : Directive) : Option Reading := do
  let (r, guard) ← r.guardOf d
  return r.push ⟨d.span, guard.getD OpenBlock.noGuard⟩ false

/-- An `#elseif` is met. -/
def readElseif (r : Reading) (d : Directive) : Option Reading := do
  let (r, guard) ← r.guardOf d
  let r := r.demandBlock d .elseifWithoutIf
  let r := if r.hasElse then r.complain .elseifAfterElse d.span.position else r
  return r.turn (.alternative ⟨d.span, guard.getD OpenBlock.noGuard⟩)

/-- An `#else` is met. -/
def readElse (r : Reading) (d : Directive) : Reading :=
  let r := r.demandBlock d .elseWithoutIf
  let r := if r.hasElse then r.complain .duplicateElse d.span.position else r
  r.turn (.fallback d.span)

/-- An `#endif` is met. -/
def readEndif (r : Reading) (d : Directive) : Reading :=
  match r.opened with
  | [] => r.complain .endifWithoutIf d.span.position
  | b :: opened =>
    let closed := b.close r.scopes.head? d.span
    match r.scopes.tail with
    | [] => { r with opened, scopes := [], top := closed :: r.top }
    | outer :: scopes => { r with opened, scopes := outer.nest closed :: scopes }

/-- A directive is met. -/
def read (r : Reading) (d : Directive) : Option Reading :=
  let r := { r with notes := .directive d.tag d.span.position :: r.notes }
  match d.tag with
  | .ifTag => r.readIf d
  | .elseifTag => r.readElseif d
  | .elseTag => some (r.readElse d)
  | .endifTag => some (r.readEndif d)

/-- Some directives are met; what was read up to a literal without a value is kept beside it. -/
def readAll (r : Reading) : List Directive → Reading × Bool
  | [] => (r, true)
  | d :: ds =>
    match r.read d with
    | some r => r.readAll ds
    | none => ({ r with notes := .directive d.tag d.span.position :: r.notes }, false)

/-- The blocks still open at the end are recorded as mistakes, the outermost first. -/
def finish (r : Reading) : Reading :=
  r.opened.reverse.foldl (fun r b => r.complain .missingEndif b.test.span.position) r

end Reading

namespace Block

/-- The blocks that directives form, and the notes on the way. -/
def ofDirectives (ds : List Directive) : List Note × Except ParseFailure (List Block) :=
  let (r, complete) := Reading.readAll {} ds
  if complete then
    let r := Reading.finish { r with notes := .scanned ds.length :: r.notes }
    if r.complaints.isEmpty then
      ((Note.parsed r.top.length :: r.notes).reverse, .ok r.top.reverse)
    else
      ((Note.parseFailed r.complaints.length :: r.notes).reverse,
        .error (.mistakes r.complaints.reverse))
  else (r.notes.reverse, .error .badLiteral)

/-- The blocks of a script, and the notes on the way. -/
def parse (source : Text) : List Note × Except ParseFailure (List Block) :=
  ofDirectives (Directive.scan source)

end Block

end GuardedText
