import GuardedText.Guard.Token

/-
  Attempts to read a text. Nearly every text has at most one reading as a whole, but many readings
  of its beginnings, so an attempt keeps all its readings, the preferred ones first. It also keeps
  the least number of code points that were unread when a token was awaited, in whichever reading:
  the furthest place it came to.
-/

namespace GuardedText

/-- What was read, and how far reading came. -/
structure Attempt (α : Type) where
  /-- The readings, the preferred ones first. -/
  readings : List α
  /-- What was unread at the furthest place at which a token was awaited. -/
  unread : Option Nat

namespace Attempt

/-- The lesser of two numbers, where there are two. -/
def least : Option Nat → Option Nat → Option Nat
  | some m, some n => some (min m n)
  | some m, none => some m
  | none, n => n

/-- Each reading of `x` goes on as `f` says. -/
def andThen {α β : Type} (x : Attempt α) (f : α → Attempt β) : Attempt β :=
  let further := x.readings.map f
  ⟨further.flatMap readings, further.foldl (fun n y => least n y.unread) x.unread⟩

instance : Monad Attempt where
  pure a := ⟨[a], none⟩
  bind := andThen

/-- No reading. -/
def nothing {α : Type} : Attempt α := ⟨[], none⟩

/-- The readings of `x` and then those of `y`. -/
def also {α : Type} (x y : Attempt α) : Attempt α :=
  ⟨x.readings ++ y.readings, least x.unread y.unread⟩

/-- The readings of all of some attempts. -/
def anyOf {α : Type} (xs : List (Attempt α)) : Attempt α := xs.foldr also nothing

/-- What `find` finds at the places of the next token of `s`; the last of them is remembered as
reached. -/
def token {α : Type} (find : Text → Option α) (s : Text) : Attempt α :=
  ⟨(Token.stops s).filterMap find, some (Token.skip s).length⟩

/-- What follows a symbol that must come next. -/
def symbol (w : String) : Text → Attempt Text := token (Token.symbol? w)

/-- Nothing more comes. -/
def ended : Text → Attempt Unit := token fun s => if s.isEmpty then some () else none

section

variable {α β : Type}

@[simp]
theorem mem_pure {a b : α} : b ∈ (pure a : Attempt α).readings ↔ b = a := List.mem_singleton

@[simp]
theorem mem_bind {x : Attempt α} {f : α → Attempt β} {b : β} :
    b ∈ (x >>= f).readings ↔ ∃ a ∈ x.readings, b ∈ (f a).readings := by
  show b ∈ (x.readings.map f).flatMap readings ↔ _
  rw [List.flatMap_map, List.mem_flatMap]

@[simp]
theorem not_mem_nothing {a : α} : a ∉ (nothing : Attempt α).readings := List.not_mem_nil

@[simp]
theorem mem_also {x y : Attempt α} {a : α} :
    a ∈ (also x y).readings ↔ a ∈ x.readings ∨ a ∈ y.readings := List.mem_append

@[simp]
theorem not_mem_anyOf_nil {a : α} : a ∉ (anyOf ([] : List (Attempt α))).readings := not_mem_nothing

@[simp]
theorem mem_anyOf_cons {x : Attempt α} {xs : List (Attempt α)} {a : α} :
    a ∈ (anyOf (x :: xs)).readings ↔ a ∈ x.readings ∨ a ∈ (anyOf xs).readings := mem_also

theorem mem_token {find : Text → Option α} {s : Text} {a : α} :
    a ∈ (token find s).readings ↔ ∃ t ∈ Token.stops s, find t = some a := List.mem_filterMap

end

end Attempt

end GuardedText
