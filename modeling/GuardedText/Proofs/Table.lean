import Mathlib.Data.List.Nodup
import Mathlib.Data.List.Infix
import Mathlib.Data.List.TakeWhile
import GuardedText.Table

/-
  Keys of tables: which there are, and in which order. A table that is made of entries put in turn
  has each key once, where it first came, with the value that came last.
-/

namespace GuardedText

namespace Table

variable {κ α : Type}

/-- The keys of a table, or of entries that are put into one. -/
def keys (table : List (κ × α)) : List κ := table.map (·.1)

@[simp]
theorem keys_nil : keys ([] : List (κ × α)) = [] := rfl

@[simp]
theorem keys_cons (k : κ) (v : α) (table : List (κ × α)) :
    keys ((k, v) :: table) = k :: keys table := rfl

@[simp]
theorem keys_append (t u : List (κ × α)) : keys (t ++ u) = keys t ++ keys u := List.map_append

@[simp]
theorem keys_reverse (t : List (κ × α)) : keys t.reverse = (keys t).reverse := List.map_reverse

variable [BEq κ] [LawfulBEq κ]

theorem lookup?_eq_none {key : κ} {table : List (κ × α)} :
    lookup? key table = none ↔ key ∉ keys table := by
  induction table with
  | nil => simp [lookup?]
  | cons entry rest ih =>
    obtain ⟨k, v⟩ := entry
    by_cases h : k = key
    · simp [lookup?, h]
    · simp [lookup?, h, ih, Ne.symm h]

theorem lookup?_append_of_not_mem {key : κ} {t u : List (κ × α)} (h : key ∉ keys t) :
    lookup? key (t ++ u) = lookup? key u := by
  induction t with
  | nil => rfl
  | cons entry t ih =>
    obtain ⟨k, v⟩ := entry
    simp only [keys_cons, List.mem_cons, not_or] at h
    simp [lookup?, Ne.symm h.1, ih h.2]

/-- The entry that is found has no other one of its key before it. -/
theorem exists_of_lookup? {key : κ} {value : α} {table : List (κ × α)}
    (h : lookup? key table = some value) :
    ∃ t u, table = t ++ (key, value) :: u ∧ key ∉ keys t := by
  induction table with
  | nil => cases h
  | cons entry rest ih =>
    obtain ⟨k, v⟩ := entry
    by_cases hk : k = key
    · subst hk
      simp only [lookup?, beq_self_eq_true, if_true, Option.some.injEq] at h
      exact ⟨[], rest, by rw [h]; rfl, List.not_mem_nil⟩
    · simp only [lookup?, beq_iff_eq, hk, if_false] at h
      obtain ⟨t, u, rfl, hkey⟩ := ih h
      exact ⟨(k, v) :: t, u, rfl, by simp [Ne.symm hk, hkey]⟩

theorem exists_of_mem_keys {key : κ} {table : List (κ × α)} (h : key ∈ keys table) :
    ∃ value t u, table = t ++ (key, value) :: u ∧ key ∉ keys t := by
  cases hvalue : lookup? key table with
  | none => exact absurd h (lookup?_eq_none.1 hvalue)
  | some value => exact ⟨value, exists_of_lookup? hvalue⟩

theorem keys_insert (key : κ) (value : α) (table : List (κ × α)) :
    keys (insert key value table) =
      if key ∈ keys table then keys table else keys table ++ [key] := by
  induction table with
  | nil => rfl
  | cons entry rest ih =>
    obtain ⟨k, v⟩ := entry
    by_cases h : k = key
    · simp [insert, h]
    · rw [insert, if_neg (by simpa using h), keys_cons, ih, keys_cons]
      by_cases hmem : key ∈ keys rest
      · simp [hmem]
      · simp [hmem, Ne.symm h]

theorem insert_of_not_mem {key : κ} (value : α) {table : List (κ × α)} (h : key ∉ keys table) :
    insert key value table = table ++ [(key, value)] := by
  induction table with
  | nil => rfl
  | cons entry rest ih =>
    obtain ⟨k, v⟩ := entry
    rw [keys_cons, List.mem_cons, not_or] at h
    rw [insert, if_neg (by simpa using Ne.symm h.1), ih h.2]
    rfl

theorem lookup?_erase_of_ne {key other : κ} (table : List (κ × α)) (h : other ≠ key) :
    lookup? other (erase key table) = lookup? other table := by
  induction table with
  | nil => rfl
  | cons entry rest ih =>
    obtain ⟨k, v⟩ := entry
    by_cases hk : k = key
    · subst hk
      simp [erase, lookup?, Ne.symm h]
    · by_cases ho : k = other <;> simp [erase, lookup?, hk, ho, ih, h]

/-- A table that holds each key once holds a removed one no more. -/
theorem lookup?_erase_self {key : κ} {table : List (κ × α)} (h : (keys table).Nodup) :
    lookup? key (erase key table) = none := by
  induction table with
  | nil => rfl
  | cons entry rest ih =>
    obtain ⟨k, v⟩ := entry
    rw [keys_cons, List.nodup_cons] at h
    by_cases hk : k = key
    · subst hk
      simpa [erase] using lookup?_eq_none.2 h.1
    · simp [erase, lookup?, hk, ih h.2]

theorem erase_of_not_mem {key : κ} {table : List (κ × α)} (h : key ∉ keys table) :
    erase key table = table := by
  induction table with
  | nil => rfl
  | cons entry rest ih =>
    obtain ⟨k, v⟩ := entry
    rw [keys_cons, List.mem_cons, not_or] at h
    simp [erase, Ne.symm h.1, ih h.2]

omit [LawfulBEq κ] in
theorem insertAll_append_singleton (entries : List (κ × α)) (key : κ) (value : α) :
    insertAll [] (entries ++ [(key, value)]) = insert key value (insertAll [] entries) := by
  simp [insertAll]

theorem mem_keys_insertAll {entries : List (κ × α)} {key : κ} :
    key ∈ keys (insertAll [] entries) ↔ key ∈ keys entries := by
  induction entries using List.reverseRecOn with
  | nil => rfl
  | append_singleton entries entry ih =>
    obtain ⟨k, v⟩ := entry
    rw [insertAll_append_singleton, keys_insert, keys_append, List.mem_append, ← ih]
    split_ifs with hmem
    · refine (or_iff_left_of_imp ?_).symm
      simp only [keys_cons, keys_nil, List.mem_singleton]
      rintro rfl
      exact hmem
    · exact List.mem_append

theorem nodup_keys_insertAll (entries : List (κ × α)) : (keys (insertAll [] entries)).Nodup := by
  induction entries using List.reverseRecOn with
  | nil => exact List.nodup_nil
  | append_singleton entries entry ih =>
    obtain ⟨k, v⟩ := entry
    rw [insertAll_append_singleton, keys_insert]
    split_ifs with hmem
    · exact ih
    · exact List.concat_eq_append ▸ ih.concat hmem

omit [BEq κ] [LawfulBEq κ] in
theorem not_mem_keys_of_nodup {t u : List (κ × α)} {key : κ} {value : α}
    (h : (keys (t ++ (key, value) :: u)).Nodup) : key ∉ keys t ∧ key ∉ keys u := by
  rw [keys_append, keys_cons] at h
  obtain ⟨-, hu, hdisjoint⟩ := List.nodup_append'.1 h
  exact ⟨fun hmem => List.disjoint_left.1 hdisjoint hmem List.mem_cons_self,
    (List.nodup_cons.1 hu).1⟩

/-- Entries with different keys are the table that they make. -/
theorem insertAll_of_nodup {entries : List (κ × α)} (h : (keys entries).Nodup) :
    insertAll [] entries = entries := by
  induction entries using List.reverseRecOn with
  | nil => rfl
  | append_singleton entries entry ih =>
    obtain ⟨k, v⟩ := entry
    rw [keys_append, List.nodup_append] at h
    rw [insertAll_append_singleton, ih h.1]
    exact insert_of_not_mem v fun hmem => h.2.2 k hmem k List.mem_cons_self rfl

/-- A table of entries holds the last value of each key. -/
theorem lookup?_insertAll (entries : List (κ × α)) (key : κ) :
    lookup? key (insertAll [] entries) = lookup? key entries.reverse := by
  induction entries using List.reverseRecOn with
  | nil => rfl
  | append_singleton entries entry ih =>
    obtain ⟨k, v⟩ := entry
    rw [insertAll_append_singleton, List.reverse_append]
    by_cases h : k = key
    · subst h
      simp [lookup?_insert_self, lookup?]
    · rw [lookup?_insert_of_ne v _ (Ne.symm h), ih]
      simp [lookup?, h]

theorem takeWhile_append_of_mem {key : κ} {xs : List κ} (h : key ∈ xs) (ys : List κ) :
    (xs ++ ys).takeWhile (· != key) = xs.takeWhile (· != key) := by
  induction xs with
  | nil => cases h
  | cons x xs ih =>
    by_cases hx : x = key
    · simp [hx]
    · have hmem := (List.mem_cons.1 h).resolve_left (Ne.symm hx)
      simp [hx, ih hmem]

theorem takeWhile_append_of_not_mem {key : κ} {xs : List κ} (h : key ∉ xs) (ys : List κ) :
    (xs ++ ys).takeWhile (· != key) = xs ++ ys.takeWhile (· != key) :=
  List.takeWhile_append_of_pos fun x hx => by
    rw [bne_iff_ne]
    rintro rfl
    exact h hx

theorem takeWhile_of_not_mem {key : κ} {xs : List κ} (h : key ∉ xs) :
    xs.takeWhile (· != key) = xs := by
  simpa using takeWhile_append_of_not_mem h []

theorem mem_takeWhile_append {key other : κ} {xs : List κ}
    (h : other ∈ xs.takeWhile (· != key)) (ys : List κ) :
    other ∈ (xs ++ ys).takeWhile (· != key) := by
  by_cases hkey : key ∈ xs
  · rwa [takeWhile_append_of_mem hkey]
  · rw [takeWhile_append_of_not_mem hkey]
    exact List.mem_append_left _ ((List.takeWhile_prefix _).subset h)

/-- What comes before the first `key` comes before any. -/
theorem mem_before_of_mem {key other : κ} {xs ys : List κ}
    (h : other ∈ (xs ++ key :: ys).takeWhile (· != key)) : other ∈ xs := by
  by_cases hkey : key ∈ xs
  · rw [takeWhile_append_of_mem hkey] at h
    exact (List.takeWhile_prefix _).subset h
  · rw [takeWhile_append_of_not_mem hkey] at h
    simpa using h

/-- A table keeps the order in which keys first came. -/
theorem mem_before_insertAll {entries : List (κ × α)} {key other : κ} :
    other ∈ (keys (insertAll [] entries)).takeWhile (· != key) ↔
      other ∈ (keys entries).takeWhile (· != key) := by
  induction entries using List.reverseRecOn with
  | nil => rfl
  | append_singleton entries entry ih =>
    obtain ⟨k, v⟩ := entry
    rw [insertAll_append_singleton, keys_insert, keys_append]
    by_cases hkey : key ∈ keys entries
    · rw [takeWhile_append_of_mem hkey]
      split_ifs with hk
      · exact ih
      · rw [takeWhile_append_of_mem (mem_keys_insertAll.2 hkey), ih]
    · rw [takeWhile_append_of_not_mem hkey]
      have htable : key ∉ keys (insertAll [] entries) := mt mem_keys_insertAll.1 hkey
      split_ifs with hk
      · rw [takeWhile_of_not_mem htable, List.mem_append, mem_keys_insertAll]
        refine (or_iff_left_of_imp fun hother => ?_).symm
        obtain rfl : other = k := by simpa using (List.takeWhile_prefix _).subset hother
        exact mem_keys_insertAll.1 hk
      · rw [takeWhile_append_of_not_mem htable, List.mem_append,
          List.mem_append, mem_keys_insertAll]
        rfl

end Table

end GuardedText
