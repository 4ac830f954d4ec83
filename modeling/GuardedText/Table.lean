/-
  Ordered tables: lists of keys with their values. A key that is put again keeps its place and takes
  the new value, so the order is that in which keys first came.
-/

namespace GuardedText.Table

variable {κ α : Type} [BEq κ]

/-- The table with a value put under a key. -/
def insert (key : κ) (value : α) : List (κ × α) → List (κ × α)
  | [] => [(key, value)]
  | (k, v) :: rest => if k == key then (k, value) :: rest else (k, v) :: insert key value rest

/-- The value under a key. -/
def lookup? (key : κ) : List (κ × α) → Option α
  | [] => none
  | (k, v) :: rest => if k == key then some v else lookup? key rest

/-- The table without a key. -/
def erase (key : κ) : List (κ × α) → List (κ × α)
  | [] => []
  | (k, v) :: rest => if k == key then rest else (k, v) :: erase key rest

/-- The table with the entries of another put in turn. -/
def insertAll (table entries : List (κ × α)) : List (κ × α) :=
  entries.foldl (fun t (k, v) => insert k v t) table

theorem lookup?_insert_self [LawfulBEq κ] (key : κ) (value : α) (table : List (κ × α)) :
    lookup? key (insert key value table) = some value := by
  induction table with
  | nil => simp [insert, lookup?]
  | cons entry rest ih =>
    obtain ⟨k, v⟩ := entry
    by_cases h : k == key <;> simp [insert, lookup?, h, ih]

theorem lookup?_insert_of_ne [LawfulBEq κ] {key other : κ} (value : α) (table : List (κ × α))
    (h : other ≠ key) : lookup? other (insert key value table) = lookup? other table := by
  induction table with
  | nil => simp [insert, lookup?, Ne.symm h]
  | cons entry rest ih =>
    obtain ⟨k, v⟩ := entry
    by_cases hk : k = key
    · subst hk
      simp [insert, lookup?, Ne.symm h]
    · by_cases ho : k = other <;> simp [insert, lookup?, hk, ho, ih, beq_iff_eq, h]

end GuardedText.Table
