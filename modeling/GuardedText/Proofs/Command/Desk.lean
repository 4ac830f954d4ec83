import GuardedText.Command.Host
import GuardedText.Proofs.Result

/-
  Files on a desk. A resolved path is made of names (`Path.IsPlace`), and then its text leads back to it
  (`Path.names_display`). What stands at a path depends on the places of the files and folders and not
  on the bytes of the files (`Desk.Alike`). So a file takes other bytes (`Desk.write_display`) without a
  change to what is read at any other path (`Desk.read_put_of_ne`).
-/

namespace GuardedText

/-! ## Paths -/

namespace Path

/-- A name of a file or folder. -/
def IsName (n : Text) : Prop :=
  n ≠ [] ∧ slash ∉ n ∧ n ≠ Text.ofString "." ∧ n ≠ Text.ofString ".."

/-- A path made of names. -/
def IsPlace (place : List Text) : Prop := ∀ n ∈ place, IsName n

instance (n : Text) : Decidable (IsName n) := inferInstanceAs (Decidable (_ ∧ _ ∧ _ ∧ _))

instance (place : List Text) : Decidable (IsPlace place) :=
  inferInstanceAs (Decidable (∀ n ∈ place, IsName n))

theorem join_eq_intercalate (sep : Text) (parts : List Text) :
    Text.join sep parts = sep.intercalate parts := by
  induction parts with
  | nil => rfl
  | cons part parts ih =>
    cases parts with
    | nil => simp [Text.join]
    | cons next parts => rw [Text.join, ih, List.intercalate_cons_cons]; nofun

/-- The text of a resolved path leads back to it. -/
theorem names_display {place : List Text} (h : IsPlace place) : names (display place) = place := by
  have hkeep : ∀ n ∈ place, (!n.isEmpty && n != Text.ofString ".") = true := by
    intro n hn
    obtain ⟨hempty, -, hpoint, -⟩ := h n hn
    simp [hempty, hpoint]
  unfold names display Text.splitAtEach
  rw [List.splitOnP_cons_eq_if_modifyHead, if_pos (by decide), List.filter_cons_of_neg (by decide)]
  by_cases hnil : place = []
  · subst hnil
    rfl
  · have hsplit : List.splitOnP (· == slash) (Text.join [slash] place) = place := by
      rw [join_eq_intercalate]
      exact List.splitOn_intercalate slash (fun n hn => (h n hn).2.1) hnil
    rw [hsplit, List.filter_eq_self.2 hkeep]

theorem not_mem_of_mem_splitOnP {p : CodePoint → Bool} {s part : Text} (h : part ∈ s.splitOnP p) :
    ∀ c ∈ part, p c = false := by
  induction s generalizing part with
  | nil =>
    rw [List.splitOnP_nil, List.mem_singleton] at h
    subst h
    nofun
  | cons c s ih =>
    rw [List.splitOnP_cons_eq_if_modifyHead] at h
    split at h
    · rcases List.mem_cons.1 h with rfl | h
      · nofun
      · exact ih h
    · rename_i hc
      obtain ⟨first, rest, hsplit⟩ := List.exists_cons_of_ne_nil (List.splitOnP_ne_nil p s)
      rw [hsplit] at h ih
      rcases List.mem_cons.1 h with rfl | h
      · intro d hd
        rcases List.mem_cons.1 hd with rfl | hd
        · simpa using hc
        · exact ih List.mem_cons_self d hd
      · exact ih (List.mem_cons_of_mem _ h)

/-- A name of a written path is a name, or leads up. -/
theorem isName_of_mem_names {path n : Text} (h : n ∈ names path) (hup : n ≠ Text.ofString "..") :
    IsName n := by
  unfold names Text.splitAtEach at h
  obtain ⟨hmem, hkeep⟩ := List.mem_filter.1 h
  rw [Bool.and_eq_true, Bool.not_eq_true', bne_iff_ne] at hkeep
  refine ⟨by simpa using hkeep.1, fun hslash => ?_, hkeep.2, hup⟩
  have := not_mem_of_mem_splitOnP hmem slash hslash
  simp at this

theorem isPlace_step {place : List Text} {n : Text} (h : IsPlace place)
    (hn : n ≠ Text.ofString ".." → IsName n) : IsPlace (step place n) := by
  unfold step
  split
  · exact fun m hm => h m (List.dropLast_subset _ hm)
  · rename_i hup
    exact List.forall_mem_append.2 ⟨h, List.forall_mem_singleton.2 (hn hup)⟩

/-- A path is resolved to names. -/
theorem isPlace_resolve {here : List Text} (h : IsPlace here) (path : Text) :
    IsPlace (resolve here path) := by
  have hfold : ∀ (ns : List Text) (place : List Text), IsPlace place →
      (∀ n ∈ ns, n ≠ Text.ofString ".." → IsName n) → IsPlace (ns.foldl step place) := by
    intro ns
    induction ns with
    | nil => exact fun place hplace _ => hplace
    | cons n ns ih =>
      intro place hplace hns
      obtain ⟨hn, hrest⟩ := List.forall_mem_cons.1 hns
      exact ih _ (isPlace_step hplace hn) hrest
  refine hfold _ _ ?_ fun n hn hup => isName_of_mem_names hn hup
  split
  · nofun
  · exact h

end Path

namespace Command.Desk

open GuardedText.Path (IsPlace display)

/-! ## What a desk looks like -/

/-- Two desks with files and folders at the same places. -/
structure Alike (d d' : Desk) : Prop where
  home : d'.home = d.home
  folders : d'.folders = d.folders
  places : d'.files.map (·.1) = d.files.map (·.1)

section

variable {d d' : Desk} (h : Alike d d')
include h

theorem Alike.kindAt? (place : List Text) : d'.kindAt? place = d.kindAt? place := by
  have hany : ∀ d : Desk, (d.files.any fun file => file.1 == place) =
      (d.files.map (·.1)).any (· == place) := by
    intro d
    rw [List.any_map]
    rfl
  unfold Desk.kindAt?
  rw [hany, hany, h.home, h.folders, h.places]

theorem Alike.walk (place names : List Text) : d'.walk place names = d.walk place names := by
  induction names generalizing place with
  | nil => rfl
  | cons name names ih => rw [Desk.walk, Desk.walk, h.kindAt?, ih]

theorem Alike.lookup (path : Text) : d'.lookup path = d.lookup path := by
  unfold Desk.lookup Desk.locate
  rw [h.home, h.walk]
  simp only [h.kindAt?]

end

/-! ## Files at resolved paths -/

/-- A walk along names comes to the path that they make. -/
theorem walk_eq_ok {d : Desk} {names : List Text} (hnames : IsPlace names) {here place : List Text}
    (h : d.walk here names = .ok place) : place = here ++ names := by
  induction names generalizing here with
  | nil =>
    cases h
    rw [List.append_nil]
  | cons name names ih =>
    obtain ⟨hname, hrest⟩ := List.forall_mem_cons.1 hnames
    rw [walk] at h
    split at h
    · have := ih hrest h
      rw [this, Path.step, if_neg hname.2.2.2, List.append_assoc, List.singleton_append]
    · cases h
    · cases h

/-- The text of a resolved path leads to that path or nowhere. -/
theorem place_of_lookup {d : Desk} {place found : List Text} {kind : Kind} (hplace : IsPlace place)
    (h : d.lookup (display place) = .ok (found, kind)) : found = place := by
  obtain ⟨q, hlocate, h⟩ := Except.bind_eq_ok.1 h
  unfold locate at hlocate
  rw [if_neg (by simp [display]), if_pos (by simp [Path.isAbsolute, display]),
    Path.names_display hplace] at hlocate
  have hq : q = place := walk_eq_ok hplace hlocate
  split at h
  · cases h
    exact hq
  · cases h

/-- What is read at a resolved path: what stands there, and its bytes if it is a file. -/
theorem read_display (d : Desk) {place : List Text} (hplace : IsPlace place) :
    d.read (display place) =
      match d.lookup (display place) with
      | .error e => .error e
      | .ok (_, .folder) => .error .isFolder
      | .ok (_, .file) => .ok ((d.files.lookup place).getD []) := by
  unfold read
  cases hlookup : d.lookup (display place) with
  | error e => rfl
  | ok found =>
    obtain ⟨found, kind⟩ := found
    obtain rfl := place_of_lookup hplace hlookup
    cases kind <;> rfl

/-- A file has other bytes. -/
def put (d : Desk) (place : List Text) (bytes : List Byte) : Desk :=
  { d with files := d.files.map fun (f, old) => if f == place then (f, bytes) else (f, old) }

theorem alike_put (d : Desk) (place : List Text) (bytes : List Byte) :
    Alike d (d.put place bytes) := by
  refine ⟨rfl, rfl, ?_⟩
  rw [put, List.map_map]
  refine List.map_congr_left fun f _ => ?_
  dsimp only [Function.comp]
  split <;> rfl

/-- A file that can be read takes other bytes. -/
theorem write_display {d : Desk} {place : List Text} (hplace : IsPlace place) {old : List Byte}
    (h : d.read (display place) = .ok old) (bytes : List Byte) :
    d.write (display place) bytes = d.put place bytes := by
  rw [read_display d hplace] at h
  unfold write
  split at h
  · cases h
  · cases h
  · rename_i hlookup
    rw [hlookup, place_of_lookup hplace hlookup]
    rfl

theorem lookup_put_of_ne {place other : List Text} (hne : other ≠ place) (bytes : List Byte)
    (files : List (List Text × List Byte)) :
    (files.map fun (f, old) => if f == place then (f, bytes) else (f, old)).lookup other =
      files.lookup other := by
  induction files with
  | nil => rfl
  | cons f files ih =>
    obtain ⟨f, old⟩ := f
    by_cases hf : f = place
    · subst hf
      have hother : (other == f) = false := beq_eq_false_iff_ne.2 hne
      simp only [List.map_cons, beq_self_eq_true, if_true, List.lookup_cons, hother, ih]
    · have hf : (f == place) = false := beq_eq_false_iff_ne.2 hf
      simp only [List.map_cons, hf, Bool.false_eq_true, if_false, List.lookup_cons, ih]

/-- A file that takes other bytes changes nothing at other paths. -/
theorem read_put_of_ne (d : Desk) {place other : List Text} (hother : IsPlace other)
    (hne : other ≠ place) (bytes : List Byte) :
    (d.put place bytes).read (display other) = d.read (display other) := by
  rw [read_display _ hother, read_display _ hother, (alike_put d place bytes).lookup, put]
  dsimp only
  rw [lookup_put_of_ne hne]

theorem any_of_kindAt? {d : Desk} {place : List Text} (h : d.kindAt? place = some .file) :
    (d.files.any fun (f, _) => f == place) = true := by
  unfold kindAt? at h
  split at h
  · assumption
  · split at h
    · cases h
    · cases h

theorem kindAt?_of_lookup {d : Desk} {path : Text} {place : List Text} {kind : Kind}
    (h : d.lookup path = .ok (place, kind)) : d.kindAt? place = some kind := by
  obtain ⟨found, -, h⟩ := Except.bind_eq_ok.1 h
  split at h
  · rename_i hkind
    cases h
    exact hkind
  · cases h

theorem lookup_put_self {place : List Text} (bytes : List Byte)
    {files : List (List Text × List Byte)} (h : (files.any fun (f, _) => f == place) = true) :
    (files.map fun (f, old) => if f == place then (f, bytes) else (f, old)).lookup place =
      some bytes := by
  induction files with
  | nil => cases h
  | cons f files ih =>
    obtain ⟨f, old⟩ := f
    by_cases hf : f = place
    · subst hf
      simp only [List.map_cons, beq_self_eq_true, if_true, List.lookup_cons]
    · have hback : (place == f) = false := beq_eq_false_iff_ne.2 (Ne.symm hf)
      have hf : (f == place) = false := beq_eq_false_iff_ne.2 hf
      simp only [List.any_cons, hf, Bool.false_or] at h
      simp only [List.map_cons, hf, Bool.false_eq_true, if_false, List.lookup_cons, hback, ih h]

/-- A file that takes other bytes has them. -/
theorem read_put_self {d : Desk} {place : List Text} (hplace : IsPlace place) {old : List Byte}
    (h : d.read (display place) = .ok old) (bytes : List Byte) :
    (d.put place bytes).read (display place) = .ok bytes := by
  rw [read_display _ hplace] at h
  rw [read_display _ hplace, (alike_put d place bytes).lookup]
  split at h
  · cases h
  · cases h
  · rename_i found hlookup
    rw [place_of_lookup hplace hlookup] at hlookup
    rw [put, lookup_put_self bytes (any_of_kindAt? (kindAt?_of_lookup hlookup)), Option.getD_some]

end Command.Desk

end GuardedText
