import GuardedText.Number.Basic
import GuardedText.Text.Quoted

/-
  Reports: what a run says about some blocks. A well-formed report is a list with one entry for each
  block, which holds the branch the block took and, if that branch was run, a report on the blocks
  in it. A report may come from elsewhere, so it may be any value at all.
-/

namespace GuardedText

/-- A report on blocks, or anything in its place. -/
inductive Report where
  | null
  | bool (b : Bool)
  | number (n : Num)
  | text (t : Text)
  | list (items : List Report)
  | mapping (members : List (Text × Report))
  /-- The branch a block took, and the report on the blocks in it. -/
  | entry (branch children : Report)
  deriving Inhabited

namespace Report

/-- The branch that a report names; a truth value counts as 0 or 1. -/
def branch? : Report → Option Int
  | .bool b => some (if b then 1 else 0)
  | .number (.int n) => some n
  | _ => none

/-- Whether nothing is reported. -/
def isNull : Report → Bool
  | .null => true
  | _ => false

mutual

/-- The text of a report. -/
def display : Report → Text
  | .null => "None"
  | .bool b => if b then "True" else "False"
  | .number n => n.toFullText
  | .text t => t.quoted
  | .list items => "[" ++ Text.join ", " (displayItems items) ++ "]"
  | .mapping members => "\x7b" ++ Text.join ", " (displayMembers members) ++ "\x7d"
  | .entry branch children =>
    "EvaluationResultEntry(branch=" ++ branch.display ++ ", children=" ++ children.display ++ ")"

/-- The texts of items. -/
def displayItems : List Report → List Text
  | [] => []
  | r :: rs => r.display :: displayItems rs

/-- The texts of members. -/
def displayMembers : List (Text × Report) → List Text
  | [] => []
  | (k, r) :: rs => (k.quoted ++ ": " ++ r.display) :: displayMembers rs

end

end Report

end GuardedText
