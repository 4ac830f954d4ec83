import GuardedText.Directive
import GuardedText.Text.Quoted

/-
  What a run reports while it goes on. Each note has a level; a reader sees the notes up to the
  level asked for.
-/

namespace GuardedText

/-- What is wrong with the directives of a script. -/
inductive Mistake where
  /-- A directive that needs a guard has none. -/
  | noGuard (tag : Tag)
  /-- The payload is no guard, for a stated reason. -/
  | badGuard (reason : Text)
  /-- An `#if` is never closed. -/
  | missingEndif
  /-- An `#elseif` stands outside every block. -/
  | elseifWithoutIf
  /-- An `#elseif` stands after the `#else` of its block. -/
  | elseifAfterElse
  /-- An `#else` stands outside every block. -/
  | elseWithoutIf
  /-- A block has a second `#else`. -/
  | duplicateElse
  /-- An `#endif` stands outside every block. -/
  | endifWithoutIf
  deriving DecidableEq, Repr

namespace Mistake

/-- The name of the kind of mistake. -/
def kind : Mistake → String
  | .noGuard _ | .badGuard _ => "invalid_expression"
  | .missingEndif => "missing_endif"
  | .elseifWithoutIf => "elseif_without_if"
  | .elseifAfterElse => "elseif_after_else"
  | .elseWithoutIf => "else_without_if"
  | .duplicateElse => "duplicate_else"
  | .endifWithoutIf => "endif_without_if"

/-- The words for a mistake. -/
def message : Mistake → Text
  | .noGuard tag => "Found #" ++ Text.ofString tag.word ++ " without expression."
  | .badGuard reason => reason
  | .missingEndif => "Found #if without matching #endif."
  | .elseifWithoutIf => "Found #elseif without matching #if."
  | .elseifAfterElse => "Found invalid #elseif after #else."
  | .elseWithoutIf => "Found #else without matching #if or #elseif."
  | .duplicateElse => "Found duplicate #else."
  | .endifWithoutIf => "Found #endif without matching #if, #elseif, or #else."

end Mistake

/-- A mistake and the directive it is pinned to. -/
structure Complaint where
  /-- What is wrong. -/
  mistake : Mistake
  /-- Where the directive stands. -/
  position : Position
  deriving DecidableEq, Repr

/-- A note on the progress of a run. -/
inductive Note where
  /-- A script of some length is parsed. -/
  | parsing (length : Nat)
  /-- A directive was found. -/
  | directive (tag : Tag) (position : Position)
  /-- A mistake was found. -/
  | complaint (complaint : Complaint)
  /-- All directives were found. -/
  | scanned (count : Nat)
  /-- The directives are malformed. -/
  | parseFailed (count : Nat)
  /-- The directives form blocks. -/
  | parsed (count : Nat)
  /-- Guards are evaluated, without waiting when `sync` holds. -/
  | evaluating (count : Nat) (sync : Bool)
  /-- A block took a branch. -/
  | took (position : Position) (branch : Int)
  /-- Ranges were cut. -/
  | removed (count : Nat)
  /-- Variables were read from a file. -/
  | loaded (count : Nat) (path : Text)
  /-- The names of a context are known. -/
  | context (names : List Text)
  /-- A pattern stands for some files. -/
  | matched (pattern : Text) (count : Nat)
  /-- A file is done. -/
  | done (path : Text)
  /-- All files are done. -/
  | compiled (files changed : Nat) (dry : Bool)
  deriving DecidableEq, Repr

namespace Note

/-- The least verbosity at which a note is seen. -/
def level : Note → Nat
  | .done _ => 1
  | .directive _ _ | .complaint _ | .took _ _ | .context _ => 3
  | _ => 2

/-- A line and column with a colon between them. -/
def place (p : Position) : Text := Text.ofInt p.line ++ ":" ++ Text.ofInt p.column

/-- The words of a note. -/
def text : Note → Text
  | .parsing length => "Parsing " ++ Text.ofNat length ++ " characters"
  | .directive tag position => "#" ++ Text.ofString tag.word ++ " at " ++ place position
  | .complaint c =>
    Text.ofString c.mistake.kind ++ " at " ++ place c.position ++ ": " ++ c.mistake.message
  | .scanned count => "Scanned " ++ Text.ofNat count ++ " directive comments"
  | .parseFailed count => "Parsing failed with " ++ Text.ofNat count ++ " errors"
  | .parsed count => "Parsed " ++ Text.ofNat count ++ " top-level #if blocks"
  | .evaluating count sync =>
    "Evaluating " ++ Text.ofNat count ++ " top-level blocks" ++
      (if sync then (" synchronously" : Text) else [])
  | .took position branch => "#if at " ++ place position ++ " took branch " ++ Text.ofInt branch
  | .removed count => "Removed " ++ Text.ofNat count ++ " ranges"
  | .loaded count path => "Loaded " ++ Text.ofNat count ++ " variables from " ++ path
  | .context names => "Context: [" ++ Text.join ", " (names.map Text.quoted) ++ "]"
  | .matched pattern count => "Pattern " ++ pattern ++ " matched " ++ Text.ofNat count ++ " files"
  | .done path => "done    " ++ path
  | .compiled files changed dry =>
    "Compiled " ++ Text.ofNat files ++ " files, " ++ Text.ofNat changed ++ " changed" ++
      (if dry then (" (dry run, nothing written)" : Text) else [])

end Note

end GuardedText
