import GuardedText.Builtin.Call
import GuardedText.Proofs.Property.Element
import GuardedText.Proofs.Table

/-
  Membership and enumeration. The operator `in` looks a key up, `Object.keys` goes through what an
  object has. What is found under a key is what is listed under its name (`seen_of_listed`), unless
  the host keeps it inside an object or the key is spelled in another way (`Obj.Lists`). So the two
  agree, except that what is listed as `undefined` is not a member (`within_iff_listed`).
-/

namespace GuardedText

/-! ## Listed values -/

namespace Table

variable {κ α : Type} [BEq κ] [LawfulBEq κ]

theorem lookup?_filter (p : κ → Bool) (key : κ) (table : List (κ × α)) :
    lookup? key (table.filter fun entry => p entry.1) =
      if p key then lookup? key table else none := by
  induction table with
  | nil => simp [lookup?]
  | cons entry rest ih =>
    obtain ⟨k, v⟩ := entry
    by_cases hk : k = key
    · subst hk
      cases hp : p k <;> simp [hp, lookup?, ih]
    · cases hp : p k <;> simp [hp, lookup?, hk, ih]

theorem lookup?_eq_find? (key : κ) (table : List (κ × α)) :
    lookup? key table = (table.find? fun entry => entry.1 == key).map Prod.snd := by
  induction table with
  | nil => rfl
  | cons entry rest ih =>
    obtain ⟨k, v⟩ := entry
    by_cases hk : k = key
    · simp [lookup?, hk]
    · rw [lookup?, if_neg (by simpa using hk), ih, List.find?_cons_of_neg (by simpa using hk)]

end Table

/-- The keys that an object lists under their names: no length and no function of an array, a key of
which an array takes what its name says, and of a mapping, whose keys are all written out, an entry
under a number only if it is the one that is found. Objects with room for two attributes list nothing,
and what the host keeps inside an object is not listed either. -/
def Obj.Lists (key : Value) (t : Text) : Obj → Prop
  | .list items | .tuple items => t ≠ Text.ofString "length" ∧
      Store.methodNamed? Store.arrayMethods t = none ∧ items.length ≤ tenTo 21 ∧
      Store.Regular items t key
  | .dict entries | .frozen entries => ∀ m, Key.number m ∈ Table.keys entries →
      m.natAbs < 10 ^ Numeral.maxDigits ∧
      (Text.ofInt m = t ↔ Table.lookup? (.name t) entries = none ∧
        ∃ n, key = .num n ∧ (Key.number m).isNumber n = true)
  | .slots _ _ => False
  | .arrow _ _ _ attributes => (Table.lookup? (Text.ofString "node") attributes).isSome
  | o => o.conceals t = false

namespace Store

theorem lookup?_zipIdx (values : List Value) (k i : Nat) :
    Table.lookup? (Text.ofNat (k + i))
      ((values.zipIdx k).map fun (v, j) => (Text.ofNat j, v)) = values[i]? := by
  induction values generalizing k i with
  | nil => rfl
  | cons v values ih =>
    cases i with
    | zero => simp [Table.lookup?]
    | succ i =>
      have hne : Text.ofNat k ≠ Text.ofNat (k + (i + 1)) := fun h => by
        have := Text.ofNat_injective h
        omega
      have hsum : k + (i + 1) = k + 1 + i := by omega
      simp [Table.lookup?, hne]
      rw [hsum]
      exact ih (k + 1) i

/-- Under a name, an array lists the element whose numeral it is. -/
theorem lookup?_indexed (values : List Value) (name : Text) :
    Table.lookup? name (indexed values) =
      (indexNamed? values.length name).bind (values[·]?) := by
  by_cases hnumeral : ∃ i, Text.ofNat i = name
  · obtain ⟨i, rfl⟩ := hnumeral
    have hlookup := lookup?_zipIdx values 0 i
    rw [Nat.zero_add] at hlookup
    rw [indexed, hlookup, indexNamed?_bind]
  · rw [indexNamed?_eq_none.2 fun i _ hi => hnumeral ⟨i, hi⟩]
    refine Table.lookup?_eq_none.2 fun hmem => ?_
    obtain ⟨entry, hentry, heq⟩ := List.mem_map.1 hmem
    obtain ⟨⟨v, i⟩, -, rfl⟩ := List.mem_map.1 hentry
    exact hnumeral ⟨i, heq⟩

variable {s : Store} {r : Ref} {o : Obj} {key : Value} {name : Text}

theorem lookup?_toText {entries : Entries} {p : Key → Bool}
    (h : ∀ k ∈ Table.keys entries, k.toText = name ↔ p k = true) :
    Table.lookup? name (entries.map fun (k, v) => (k.toText, v)) =
      (entries.find? fun entry => p entry.1).map Prod.snd := by
  induction entries with
  | nil => rfl
  | cons entry rest ih =>
    obtain ⟨k, v⟩ := entry
    have hk := h k List.mem_cons_self
    have hrest := ih fun k hk => h k (List.mem_cons_of_mem _ hk)
    by_cases hname : k.toText = name
    · simp [Table.lookup?, hname, hk.1 hname]
    · have hp : p k = false := Bool.eq_false_iff.2 fun hp => hname (hk.2 hp)
      simp [Table.lookup?, hname, hp, hrest]

/-- Where a mapping that lists a name has an entry under it, no other key is written like it. -/
theorem toText_iff_of_named {entries : Entries} (h : (Obj.dict entries).Lists key name) {v : Value}
    (hname : Table.lookup? (.name name) entries = some v) :
    ∀ k ∈ Table.keys entries, k.toText = name ↔ (k == .name name) = true := by
  intro k hk
  cases k with
  | name t => simp [Key.toText]
  | number m =>
    refine iff_of_false (fun hm => ?_) (by simp)
    obtain ⟨hnone, -⟩ := (h m hk).2.1 hm
    rw [hname] at hnone
    cases hnone

/-- Where it has none, only the number that the key denotes is written like it. -/
theorem toText_iff_of_unnamed {entries : Entries} (h : (Obj.dict entries).Lists key name)
    (hname : Table.lookup? (.name name) entries = none) :
    ∀ k ∈ Table.keys entries, k.toText = name ↔ ∃ n, key = .num n ∧ k.isNumber n = true := by
  intro k hk
  cases k with
  | name t =>
    refine iff_of_false ?_ ?_
    · rintro rfl
      exact Table.lookup?_eq_none.1 hname hk
    · rintro ⟨n, -, hn⟩
      exact Bool.false_ne_true hn
  | number m => exact (h m hk).2.trans (and_iff_right hname)

/-- Under a name, a mapping lists the entry that is found. -/
theorem seen_entryProperty {entries : Entries} (h : (Obj.dict entries).Lists key name) :
    (entryProperty entries key name).seen = .value
      ((Table.lookup? name (entries.map fun (k, v) => (k.toText, v))).getD .undefined) := by
  rw [entryProperty_eq]
  cases hname : Table.lookup? (.name name) entries with
  | some v =>
    rw [lookup?_toText (toText_iff_of_named h hname), ← Table.lookup?_eq_find?, hname]
    rfl
  | none =>
    have hkeys := toText_iff_of_unnamed h hname
    by_cases hnumber : ∃ n, key = .num n
    · obtain ⟨n, rfl⟩ := hnumber
      have hfound : ∀ k ∈ Table.keys entries, k.toText = name ↔ k.isNumber n = true :=
        fun k hk => (hkeys k hk).trans (by simp)
      rw [lookup?_toText hfound]
      exact Found.seen_ofOption _
    · have hnone : ∀ k ∈ Table.keys entries, k.toText = name ↔ false = true := by
        intro k hk
        refine (hkeys k hk).trans (iff_of_false ?_ Bool.false_ne_true)
        rintro ⟨n, heq, -⟩
        exact hnumber ⟨n, heq⟩
      rw [lookup?_toText hnone, List.find?_eq_none.2 (by simp)]
      cases key with
      | num n => exact absurd ⟨n, rfl⟩ hnumber
      | _ => rfl

/-- The keys of a mapping that lists a name are written out. -/
theorem isWritable_of_lists {entries : Entries} (h : (Obj.dict entries).Lists key name) :
    ∀ entry ∈ entries, entry.1.IsWritable := by
  rintro ⟨k, v⟩ hentry
  cases k with
  | name => trivial
  | number m => exact (h m (List.mem_map_of_mem hentry)).1

/-- Under a name, an array that lists it has what it lists. -/
theorem elementNamed_listed {items : List Value} (hlists : (Obj.list items).Lists key name) :
    (elementNamed items arrayMethods name).seen =
      .value ((Table.lookup? name (indexed items)).getD .undefined) := by
  obtain ⟨hlength, hmethod, -, -⟩ := hlists
  rw [elementNamed, if_neg hlength, lookup?_indexed]
  cases indexNamed? items.length name with
  | none => rw [hmethod]; rfl
  | some i => exact Found.seen_ofOption _

/-- Under a name, an object lists the public attribute that is found. -/
theorem seen_attributeProperty
    (h : o.conceals name = true → ((attributes? o).bind (Table.lookup? name)).isSome) :
    (attributeProperty o name).map Found.seen =
      .ok (.value ((Table.lookup? name (((attributes? o).getD []).filter
        fun (k, _) => !isPrivate k)).getD .undefined)) := by
  rw [Table.lookup?_filter fun k => !isPrivate k, attributeProperty]
  cases hprivate : isPrivate name
  · cases hattributes : attributes? o with
    | none =>
      rw [hattributes] at h
      have hopen : o.conceals name = false := by simpa using h
      simp only [Option.bind_none, hopen]
      rfl
    | some attributes =>
      rw [hattributes] at h
      rw [Option.bind_some] at h ⊢
      rw [Option.getD_some]
      cases hvalue : Table.lookup? name attributes with
      | some v => rfl
      | none =>
        rw [hvalue] at h
        have hopen : o.conceals name = false := by simpa using h
        simp only [hopen]
        rfl
  · rfl

/-- What is found under a key is what is listed under its name. -/
theorem seen_of_listed (hr : s[r]? = some o) (hkey : s.keyText key = .ok name)
    (hlists : o.Lists key name) : ∃ listed, s.objectEntries (.ref r) = .ok listed ∧
      (s.property (.ref r) key).map Found.seen =
        .ok (.value ((Table.lookup? name listed).getD .undefined)) := by
  rw [objectEntries, hr]
  cases o with
  | list items | tuple items =>
    refine ⟨_, rfl, ?_⟩
    have hsequence : s.sequence? (.ref r) = some (items, arrayMethods) := by
      change (s.items? (.ref r)).map (·, arrayMethods) = _
      rw [items?_ref, hr]
      rfl
    obtain ⟨-, -, hlength, hregular⟩ := id hlists
    rw [(seen_iff_aligned hsequence hkey).2 ((aligned_iff_regular hkey hlength).2 hregular)]
    exact congrArg Except.ok (elementNamed_listed hlists)
  | dict entries | frozen entries =>
    refine ⟨_, namedEntries_eq_ok_iff.2 ⟨isWritable_of_lists hlists, rfl⟩, ?_⟩
    rw [property_ref hr key hkey]
    exact congrArg Except.ok (seen_entryProperty hlists)
  | slots => exact hlists.elim
  | node | expression => cases hlists
  | arrow params body frame attributes =>
    refine ⟨_, if_pos hlists, ?_⟩
    rw [property_ref hr key hkey]
    refine seen_attributeProperty fun hname => ?_
    obtain rfl : name = Text.ofString "node" := of_decide_eq_true hname
    exact hlists
  | _ =>
    refine ⟨_, rfl, ?_⟩
    rw [property_ref hr key hkey]
    exact seen_attributeProperty fun hname => (Bool.eq_false_iff.1 hlists hname).elim

theorem hasProperty_of_seen {v : Value}
    (h : (s.property (.ref r) key).map Found.seen = .ok (.value v)) :
    ∃ b, s.hasProperty (.ref r) key = .ok b ∧ (b = true ↔ v ≠ .undefined) := by
  obtain ⟨found, hfound, hseen⟩ := Except.map_eq_ok.1 h
  simp only [hasProperty, hfound]
  cases found with
  | absent =>
    cases hseen
    exact ⟨false, rfl, by simp⟩
  | value u =>
    cases hseen
    cases v <;> exact ⟨_, rfl, by simp⟩
  | method m => cases hseen

end Store

namespace Eval

open Store

/-- `in` is true if and only if `Object.keys` lists the name of the key and its value is not
`undefined`. -/
theorem within_iff_listed {w : World} {r : Ref} {o : Obj} {key : Value} {name : Text}
    (hr : w.store[r]? = some o) (hkey : w.store.keyText key = .ok name)
    (hlists : o.Lists key name) : ∃ b listed,
      w.store.binary .within key (.ref r) = .ok (.bool b) ∧
      w.store.objectEntries (.ref r) = .ok listed ∧
      callBuiltin .keys [.ref r] w = .ok (.ref w.store.size)
        { w with store := w.store.push (.list ((Table.keys listed).map .text)) } ∧
      (b = true ↔ name ∈ Table.keys listed ∧ Table.lookup? name listed ≠ some .undefined) := by
  obtain ⟨listed, hlisted, hseen⟩ := seen_of_listed hr hkey hlists
  obtain ⟨b, hb, hiff⟩ := hasProperty_of_seen hseen
  refine ⟨b, listed, ?_, hlisted, ?_, hiff.trans ?_⟩
  · rw [binary, hb]
    rfl
  · rw [callBuiltin, read_bind_apply, hlisted, Table.keys, List.map_map]
    rfl
  · cases hname : Table.lookup? name listed with
    | none => simp [Table.lookup?_eq_none.1 hname]
    | some v =>
      have hmem : name ∈ Table.keys listed := by
        by_contra hnot
        rw [Table.lookup?_eq_none.2 hnot] at hname
        cases hname
      simp [hmem]

/-- The mapping `{a: undefined, b: 1}` in a world of its own. -/
def half : World := { store := #[.dict [(.name "a", .undefined), (.name "b", .num (.int 1))]] }

theorem within_iff_listed_half : ∃ b listed,
    half.store[0]? = some (.dict [(.name "a", .undefined), (.name "b", .num (.int 1))]) ∧
      half.store.keyText (.text "b") = .ok "b" ∧
      (Obj.dict [(.name "a", .undefined), (.name "b", .num (.int 1))]).Lists (.text "b") "b" ∧
      half.store.binary .within (.text "b") (.ref 0) = .ok (.bool b) ∧
      half.store.objectEntries (.ref 0) = .ok listed ∧
      callBuiltin .keys [.ref 0] half = .ok (.ref half.store.size)
        { half with store := half.store.push (.list ((Table.keys listed).map .text)) } ∧
      (b = true ↔ ("b" : Text) ∈ Table.keys listed ∧
        Table.lookup? ("b" : Text) listed ≠ some .undefined) := by
  have hlists : (Obj.dict [(.name "a", .undefined), (.name "b", .num (.int 1))]).Lists
      (.text "b") "b" := by
    intro m hm
    simp [Table.keys] at hm
  obtain ⟨b, listed, h⟩ := within_iff_listed (w := half) (r := 0) rfl rfl hlists
  exact ⟨b, listed, rfl, rfl, hlists, h⟩

/-- What is listed as `undefined` is no member. -/
theorem within_undefined : half.store.binary .within (.text "a") (.ref 0) = .ok (.bool false) ∧
    callBuiltin .keys [.ref 0] half = .ok (.ref 1)
      { half with store := half.store.push (.list [.text "a", .text "b"]) } :=
  ⟨rfl, rfl⟩

end Eval

end GuardedText
