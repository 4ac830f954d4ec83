import Mathlib.Data.List.Perm.Subperm
import GuardedText.Builtin.Host
import GuardedText.Proofs.Private.Agree

/-
  Images of values that agree are the same without the private attributes in them, and where guards
  get at the host's type of texts, so are the texts that it gives. An object inside itself is one on
  both sides, because paired objects lie inside paired ones. Images and texts are made with as much
  fuel as there are objects; since no object is opened inside itself, more changes nothing
  (`path_fuel`).
-/

namespace GuardedText

theorem shownItems_eq (items : List Image) : shownItems items = items.map Image.shown := by
  induction items with
  | nil => rfl
  | cons i items ih => rw [shownItems, List.map_cons, ih]

theorem shownEntries_eq (entries : List (Image × Image)) :
    shownEntries entries = entries.map fun (k, i) => (k, i.shown) := by
  induction entries with
  | nil => rfl
  | cons e entries ih => rw [shownEntries, List.map_cons, ih]

theorem shownSlots_eq (slots : List (Text × Image)) :
    shownSlots slots = slots.map fun (k, i) => (k, i.shown) := by
  induction slots with
  | nil => rfl
  | cons e slots ih => rw [shownSlots, List.map_cons, ih]

/-- The image of an object without its private attributes. -/
theorem shownAttributes_map (attributes : Attributes) (f : Value → Image) :
    shownAttributes (attributes.map fun (k, v) => (k, f v)) =
      attributes.shown.map fun (k, v) => (k, (f v).shown) := by
  unfold Attributes.shown
  induction attributes with
  | nil => rfl
  | cons e attributes ih =>
    obtain ⟨k, v⟩ := e
    rw [List.map_cons, shownAttributes, ih, List.filter_cons]
    by_cases hk : Store.isPrivate k = true <;> simp [hk]

namespace Store

/-! ## Enough fuel -/

section

variable {γ : Type} {s : Store} {f : Nat → List Ref → γ}
  (hnext : ∀ n path, (∀ r < s.size, r ∉ path → f (n + 1) (r :: path) = f n (r :: path)) →
    f (n + 2) path = f (n + 1) path)
include hnext

/-- A function of fuel and a path that opens objects of the store outside its path gains nothing by
more fuel than there are such objects. -/
theorem path_fuel {n : Nat} {path : List Ref} (hpath : path.Nodup) (hvalid : ∀ r ∈ path, r < s.size)
    (hn : s.size < n + path.length) : f (n + 1) path = f n path := by
  induction n generalizing path with
  | zero =>
    have hsubset : path ⊆ List.range s.size := fun r hr => List.mem_range.2 (hvalid r hr)
    have hlength := (List.subperm_of_subset hpath hsubset).length_le
    rw [List.length_range] at hlength
    omega
  | succ n ih =>
    refine hnext n path fun r hr hfresh => ih (List.nodup_cons.2 ⟨hfresh, hpath⟩) ?_ ?_
    · exact List.forall_mem_cons.2 ⟨hr, hvalid⟩
    · rw [List.length_cons]
      omega

theorem fuel_enough {n : Nat} (hn : s.size + 1 ≤ n) : f n [] = f (s.size + 1) [] := by
  obtain ⟨k, rfl⟩ := Nat.exists_eq_add_of_le hn
  induction k with
  | zero => rfl
  | succ k ih =>
    rw [← Nat.add_assoc, path_fuel hnext List.nodup_nil nofun (by simp; omega), ih (by omega)]

end

theorem image_imageOf {s : Store} {n : Nat} (hn : s.size + 1 ≤ n) (v : Value) :
    s.image n [] v = s.imageOf v := by
  refine congrFun (fuel_enough (fun n path h => ?_) hn) v
  funext v
  cases v with
  | ref r =>
    rw [image, image]
    by_cases hinside : path.contains r = true
    · rw [if_pos hinside, if_pos hinside]
    · rw [if_neg hinside, if_neg hinside]
      cases ho : s[r]? with
      | none => rfl
      | some o =>
        simp only [h r (Array.getElem?_eq_some_iff.1 ho).1 (by simpa using hinside)]
  | _ => rfl

theorem display_displayOf {s : Store} {n : Nat} (hn : s.size + 1 ≤ n) (v : Value) :
    s.display n [] false v = s.displayOf v := by
  refine congrFun (congrFun (fuel_enough (fun n path h => ?_) hn) false) v
  funext inner v
  cases v with
  | ref r =>
    rw [display, display]
    cases hinside : path.contains r
    · cases ho : s[r]? with
      | none => rfl
      | some o =>
        have hsame := h r (Array.getElem?_eq_some_iff.1 ho).1 (by simpa using hinside)
        cases o <;> simp only [hsame]
    · cases s[r]? with
      | none => rfl
      | some o => cases o <;> rfl
  | _ => rfl

/-! ## Both sides -/

variable {p : Pairing} {s s' : Store} (hs : Store.Agree p s s') {v v' : Value}
include hs

theorem image_shown_eq (n : Nat) {path path' : List Ref} (hpath : List.Forall₂ p.pairs path path')
    (hv : Value.Agree p v v') : (s.image n path v).shown = (s'.image n path' v').shown := by
  induction n generalizing path path' v v' with
  | zero => cases hv <;> rfl
  | succ n ih =>
    cases hv with
    | @ref r r' hr =>
      have h := hs.objects r r' hr
      have hinside : path.contains r = path'.contains r' := by
        simpa using List.rel_mem p.unique hr hpath
      rw [image, image, hinside]
      split
      · rfl
      · have hinner (v v' : Value) (hv : Value.Agree p v v') :
            (s.image n (r :: path) v).shown = (s'.image n (r' :: path') v').shown :=
          ih (.cons hr hpath) hv
        generalize s[r]? = o, s'[r']? = o' at h ⊢
        cases h with
        | none => rfl
        | some h =>
          cases h with
          | list h | tuple h =>
            simp only [Image.shown, shownItems_eq, List.map_map, Function.comp_def]
            rw [h.map_eq hinner]
          | dict h | frozen h =>
            simp only [Image.shown, shownEntries_eq, List.map_map, Function.comp_def]
            refine congrArg Image.mapping (List.Forall₂.map_eq h ?_)
            rintro ⟨k, v⟩ ⟨_, v'⟩ ⟨rfl, hv⟩
            dsimp only
            rw [hinner v v' hv]
          | record h _ =>
            simp only [Image.shown, shownAttributes_map]
            exact congrArg Image.record (h.map_eq id hinner)
          | slots ha hb =>
            simp only [Image.shown, shownSlots_eq, List.map_map, Function.comp_def]
            exact congrArg Image.slots ((Table.Agree.slots ha hb).map_eq id hinner)
          | _ => rfl
    | _ => rfl

theorem display_eq (hspelled : p.spelled) (n : Nat) {path path' : List Ref}
    (hpath : List.Forall₂ p.pairs path path') (inner : Bool) (hv : Value.Agree p v v') :
    s.display n path inner v = s'.display n path' inner v' := by
  induction n generalizing path path' inner v v' with
  | zero => cases hv <;> rfl
  | succ n ih =>
    cases hv with
    | @ref r r' hr =>
      have h := hs.objects r r' hr
      have hinside : path.contains r = path'.contains r' := by
        simpa using List.rel_mem p.unique hr hpath
      rw [display, display, hinside]
      have hinner (v v' : Value) (hv : Value.Agree p v v') :
          s.display n (r :: path) true v = s'.display n (r' :: path') true v' :=
        ih (.cons hr hpath) true hv
      generalize s[r]? = o, s'[r']? = o' at h ⊢
      cases hopen : path'.contains r'
      · cases h with
        | none => rfl
        | some h =>
          cases h with
          | list h => simp only [h.mapM_eq hinner]
          | tuple h => simp only [h.mapM_eq hinner, h.length_eq]
          | dict h =>
            dsimp only
            rw [List.Forall₂.mapM_eq h]
            rintro ⟨k, v⟩ ⟨_, v'⟩ ⟨rfl, hv⟩
            dsimp only
            rw [hinner v v' hv]
          | record _ hall =>
            have hpublic := (hall hspelled).filter (f := fun (k, _) => !k.isEmpty)
              (g := fun (k, _) => !k.isEmpty) (by rintro ⟨k, v⟩ ⟨_, v'⟩ ⟨rfl, -⟩; rfl)
            dsimp only
            rw [hpublic.mapM_eq]
            rintro ⟨k, v⟩ ⟨_, v'⟩ ⟨rfl, hv⟩
            dsimp only
            rw [hinner v v' hv]
          | _ => rfl
      · cases h with
        | none => rfl
        | some h => cases h <;> rfl
    | _ => rfl

/-- Values that agree look the same but for private attributes. -/
theorem imageOf_shown_eq (hv : Value.Agree p v v') :
    (s.imageOf v).shown = (s'.imageOf v').shown := by
  rw [← image_imageOf (Nat.le_max_left (s.size + 1) (s'.size + 1)),
    ← image_imageOf (Nat.le_max_right (s.size + 1) (s'.size + 1)), image_shown_eq hs _ .nil hv]

/-- The host's texts for values that agree are the same if private attributes agree, too. -/
theorem displayOf_eq (hspelled : p.spelled) (hv : Value.Agree p v v') :
    s.displayOf v = s'.displayOf v' := by
  rw [← display_displayOf (Nat.le_max_left (s.size + 1) (s'.size + 1)),
    ← display_displayOf (Nat.le_max_right (s.size + 1) (s'.size + 1)),
    display_eq hs hspelled _ .nil false hv]

end Store

end GuardedText
