import GuardedText.EnvFile
import GuardedText.Proofs.Table

/-
  Values of an env file against reading it from top to bottom. From top to bottom a reference stands
  for the nearest binding of its name further up (`EnvFile.readDown`). The values are found in
  another way: a table is made of the bindings first, in which a name keeps its first place and
  takes its last value, and the references are replaced in the order of the table. The two agree if
  no name is bound again after it was referred to, and a name that is referred to is bound before
  the one that refers to it (`EnvFile.Settled`, `EnvFile.lookup?_values`); so they do in a file that
  binds no name twice. Else the table takes a value of further down, or knows no value yet
  (`EnvFile.values_rebound`).
-/

namespace GuardedText

namespace EnvFile

/-! ## References -/

/-- The names that a text refers to. -/
def references (s : Text) : List Text :=
  match s with
  | [] => []
  | c :: t =>
    match reference? (c :: t) with
    | some (name, _, rest) =>
      if rest.length ≤ t.length then name :: references rest else references t
    | none => references t
termination_by s.length
decreasing_by all_goals (simp only [List.length_cons]; omega)

/-- Only the names that a text refers to matter for what becomes of it. -/
theorem expand_congr {known known' : List (Text × Option Text)} {s : Text}
    (h : ∀ name ∈ references s, Table.lookup? name known = Table.lookup? name known') :
    expand known s = expand known' s := by
  fun_induction references s with
  | case1 => simp [expand]
  | case2 c t name fallback rest href hle ih =>
    have hname := h name List.mem_cons_self
    rw [expand, expand, href]
    simp only [hle, if_true, resolve, hname]
    rw [ih fun n hn => h n (List.mem_cons_of_mem name hn)]
  | case3 c t name fallback rest href hle ih =>
    rw [expand, expand, href]
    simp only [hle, if_false]
    rw [ih h]
  | case4 c t href ih =>
    rw [expand, expand, href]
    simp only
    rw [ih h]

/-! ## From top to bottom -/

/-- The bindings of a file, the last one first, with their references replaced. Each reference
stands for the nearest binding of its name before. -/
def readUp : List (Text × Option Text) → List (Text × Option Text)
  | [] => []
  | (name, value) :: earlier => (name, value.map (expand (readUp earlier))) :: readUp earlier

/-- What a name stands for after a file was read from top to bottom. -/
def readDown (found : List (Text × Option Text)) (name : Text) : Option (Option Text) :=
  Table.lookup? name (readUp found.reverse)

@[simp]
theorem keys_readUp (found : List (Text × Option Text)) :
    Table.keys (readUp found) = Table.keys found := by
  induction found with
  | nil => rfl
  | cons entry found ih => exact congrArg (entry.1 :: ·) ih

theorem lookup?_readUp_append {name : Text} {t u : List (Text × Option Text)}
    (h : name ∉ Table.keys t) :
    Table.lookup? name (readUp (t ++ u)) = Table.lookup? name (readUp u) := by
  induction t with
  | nil => rfl
  | cons entry t ih =>
    obtain ⟨k, v⟩ := entry
    simp only [Table.keys_cons, List.mem_cons, not_or] at h
    simp [readUp, Table.lookup?, Ne.symm h.1, ih h.2]

/-- A name stands for its last value, in which references stand for what was bound before. -/
theorem readDown_last {before after : List (Text × Option Text)} {name : Text}
    {value : Option Text} (h : name ∉ Table.keys after) :
    readDown (before ++ (name, value) :: after) name =
      some (value.map (expand (readUp before.reverse))) := by
  rw [readDown, List.reverse_append, List.reverse_cons, List.append_assoc,
    lookup?_readUp_append (by simpa using h)]
  simp [readUp, Table.lookup?]

/-! ## In the order of a table -/

theorem expandAll_append_singleton (entries : List (Text × Option Text)) (name : Text)
    (value : Option Text) :
    expandAll [] (entries ++ [(name, value)]) =
      Table.insert name (value.map (expand (expandAll [] entries))) (expandAll [] entries) := by
  simp [expandAll]

theorem lookup?_expandAll_of_not_mem {entries : List (Text × Option Text)} {name : Text}
    (h : name ∉ Table.keys entries) : Table.lookup? name (expandAll [] entries) = none := by
  induction entries using List.reverseRecOn with
  | nil => rfl
  | append_singleton entries entry ih =>
    obtain ⟨k, v⟩ := entry
    rw [Table.keys_append, List.mem_append, not_or] at h
    rw [expandAll_append_singleton, Table.lookup?_insert_of_ne _ _ (by simpa using h.2), ih h.1]

/-- A value is expanded by those of the entries before it. -/
theorem lookup?_expandAll {before after : List (Text × Option Text)} {name : Text}
    {value : Option Text} (h : name ∉ Table.keys after) :
    Table.lookup? name (expandAll [] (before ++ (name, value) :: after)) =
      some (value.map (expand (expandAll [] before))) := by
  induction after using List.reverseRecOn with
  | nil => rw [expandAll_append_singleton, Table.lookup?_insert_self]
  | append_singleton after entry ih =>
    obtain ⟨k, v⟩ := entry
    rw [Table.keys_append, List.mem_append, not_or] at h
    rw [← List.cons_append, ← List.append_assoc, expandAll_append_singleton,
      Table.lookup?_insert_of_ne _ _ (by simpa using h.2), ih h.1]

/-! ## The two agree -/

/-- If the value that a name keeps refers to a name that was bound before, then that one is not
bound again after that, and it was bound before the name was bound at all. -/
def Settled (found : List (Text × Option Text)) : Prop :=
  ∀ before after name value, found = before ++ (name, some value) :: after →
    name ∉ Table.keys after → ∀ other ∈ references value, other ∈ Table.keys before →
      other ≠ name ∧ other ∉ Table.keys after ∧
        other ∈ (Table.keys before).takeWhile (· != name)

theorem settled_of_nodup {found : List (Text × Option Text)} (h : (Table.keys found).Nodup) :
    Settled found := by
  rintro before after name value rfl - other - hother
  have hname := (Table.not_mem_keys_of_nodup h).1
  rw [Table.keys_append, Table.keys_cons] at h
  have hnot := List.disjoint_left.1 (List.nodup_append'.1 h).2.2 hother
  rw [List.mem_cons, not_or] at hnot
  rw [Table.takeWhile_of_not_mem hname]
  exact ⟨hnot.1, hnot.2, hother⟩

/-- What is first in the table stands before in the file. -/
theorem mem_keys_before {found before after : List (Text × Option Text)} {name other : Text}
    {value : Option Text} (htable : Table.insertAll [] found = before ++ (name, value) :: after) :
    other ∈ Table.keys before ↔ other ∈ (Table.keys found).takeWhile (· != name) := by
  have hname := (Table.not_mem_keys_of_nodup (htable ▸ Table.nodup_keys_insertAll found)).1
  rw [← Table.mem_before_insertAll, htable, Table.keys_append,
    Table.takeWhile_append_of_not_mem hname, Table.keys_cons, List.takeWhile_cons_of_neg (by simp),
    List.append_nil]

theorem lookup?_expandAll_insertAll {found : List (Text × Option Text)} (h : Settled found)
    {before after : List (Text × Option Text)} {name : Text} {value : Option Text}
    (htable : Table.insertAll [] found = before ++ (name, value) :: after) :
    Table.lookup? name (expandAll [] (Table.insertAll [] found)) = readDown found name := by
  -- By induction on the place of the name in the table: what it refers to stands before it there.
  induction hn : before.length using Nat.strong_induction_on
    generalizing before after name value with
  | h n ih =>
    subst hn
    obtain ⟨hbefore, hafter⟩ :=
      Table.not_mem_keys_of_nodup (htable ▸ Table.nodup_keys_insertAll found)
    have hlast : Table.lookup? name found.reverse = some value := by
      rw [← Table.lookup?_insertAll, htable, Table.lookup?_append_of_not_mem hbefore]
      simp [Table.lookup?]
    obtain ⟨later, earlier, hfound, hlater⟩ := Table.exists_of_lookup? hlast
    obtain rfl : found = earlier.reverse ++ (name, value) :: later.reverse := by
      simpa using congrArg List.reverse hfound
    rw [htable, lookup?_expandAll hafter, readDown_last (by simpa using hlater)]
    cases value with
    | none => rfl
    | some value =>
      refine congrArg some (congrArg some (expand_congr fun other hother => ?_))
      by_cases hmem : other ∈ Table.keys earlier.reverse
      · obtain ⟨hne, hagain, hfirst⟩ := h _ _ _ _ rfl (by simpa using hlater) other hother hmem
        have hmember : other ∈ Table.keys before := by
          rw [mem_keys_before htable, Table.keys_append]
          exact Table.mem_takeWhile_append hfirst _
        obtain ⟨value', t, u, rfl, -⟩ := Table.exists_of_mem_keys hmember
        rw [List.append_assoc, List.cons_append] at htable
        have hread := ih t.length (by simp) htable rfl
        have hrest := (Table.not_mem_keys_of_nodup (htable ▸ Table.nodup_keys_insertAll _)).2
        rw [htable, lookup?_expandAll hrest] at hread
        rw [Table.keys_append, List.mem_append, not_or] at hrest
        rw [lookup?_expandAll hrest.1, hread, readDown, List.reverse_append, List.reverse_cons,
          List.reverse_reverse, List.reverse_reverse, lookup?_readUp_append]
        simpa [hne] using hagain
      · have hnone : other ∉ Table.keys before := fun hmember => hmem <| by
          rw [mem_keys_before htable, Table.keys_append, Table.keys_cons] at hmember
          exact Table.mem_before_of_mem hmember
        rw [lookup?_expandAll_of_not_mem hnone]
        exact (Table.lookup?_eq_none.2 (by simpa using hmem)).symm

/-- The values of a file with settled bindings are those of reading it from top to bottom. -/
theorem lookup?_values {found : List Statement} (h : Settled (bindings found)) (name : Text) :
    Table.lookup? name (values true found) = readDown (bindings found) name := by
  rw [values, if_pos rfl]
  by_cases hmem : name ∈ Table.keys (Table.insertAll [] (bindings found))
  · obtain ⟨value, before, after, htable, -⟩ := Table.exists_of_mem_keys hmem
    exact lookup?_expandAll_insertAll h htable
  · rw [lookup?_expandAll_of_not_mem hmem, readDown, eq_comm, Table.lookup?_eq_none]
    rwa [keys_readUp, Table.keys_reverse, List.mem_reverse, ← Table.mem_keys_insertAll]

theorem lookup?_values_chain :
    Settled (bindings (statements "A=1\nB=$\x7bA\x7d2")) ∧
      Table.lookup? (Text.ofString "B") (values true (statements "A=1\nB=$\x7bA\x7d2")) =
        readDown (bindings (statements "A=1\nB=$\x7bA\x7d2")) "B" := by
  have h : Settled (bindings (statements "A=1\nB=$\x7bA\x7d2")) :=
    settled_of_nodup (by decide +kernel)
  exact ⟨h, lookup?_values h _⟩

/-- A name that is bound again lends its last value to references before it, and none to its own. -/
theorem values_rebound :
    (Table.lookup? (Text.ofString "B") (values true (statements "A=1\nB=$\x7bA\x7d\nA=2")) =
        some (some (Text.ofString "2")) ∧
      readDown (bindings (statements "A=1\nB=$\x7bA\x7d\nA=2")) "B" =
        some (some (Text.ofString "1"))) ∧
    Table.lookup? (Text.ofString "A") (values true (statements "A=1\nA=$\x7bA\x7d2")) =
        some (some (Text.ofString "2")) ∧
      readDown (bindings (statements "A=1\nA=$\x7bA\x7d2")) "A" =
        some (some (Text.ofString "12")) := by
  decide +kernel

end EnvFile

end GuardedText
