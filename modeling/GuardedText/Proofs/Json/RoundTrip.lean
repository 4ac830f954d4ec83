import Mathlib.Tactic.FinCases
import GuardedText.Proofs.Grown
import GuardedText.Proofs.Json.Data
import GuardedText.Proofs.Json.Reader

/-
  JSON there and back. The text of a value that consists of null, truth values, integers, texts,
  arrays and mappings is read as a value that holds the same (`Eval.parseJson_stringify`). The
  arrays and mappings of that value are new; what was in the store before stays.
-/

namespace GuardedText

namespace Data

/-- The trees of what JSON can carry: integers below 2^1000 are the only numbers, and the keys of a
mapping are names, each there once. -/
def IsExact : Data → Prop
  | .null | .bool _ | .text _ | .list _ => True
  | .num (.int n) => n.natAbs < 2 ^ 1000
  | .mapping entries => (∀ e ∈ entries, ∃ t, e.1 = .name t) ∧ (Table.keys entries).Nodup
  | _ => False

theorem fits_of_isExact (d : Data) (h : d.IsExact) : d.Fits := by
  cases d with
  | num n =>
    cases n with
    | int n =>
      have hlimit : 2 ^ 1000 ≤ Double.limit := by decide +kernel
      exact Nat.lt_of_lt_of_le h hlimit
    | float x => trivial
  | mapping entries =>
    intro e he _
    obtain ⟨t, ht⟩ := h.1 e he
    rw [ht]
    trivial
  | _ => trivial

/-- A power of two is within the limit if the power of ten with the same exponent is. -/
theorem lt_limit {n k : Nat} (hk : k ≤ Numeral.maxDigits) (h : n < 2 ^ k) :
    n < 10 ^ Numeral.maxDigits :=
  calc n < 2 ^ k := h
    _ ≤ 10 ^ k := Nat.pow_le_pow_left (by decide) k
    _ ≤ 10 ^ Numeral.maxDigits := Nat.pow_le_pow_right (by decide) hk

theorem ne_undefined_of_isExact {d : Data} (h : d.IsExact) : d ≠ .undefined := by
  rintro rfl
  exact h

theorem keys_members : ∀ {entries : List (Key × Data)}, AllEntries IsExact entries →
    Table.keys (members entries) = (Table.keys entries).map Key.toText
  | [], _ => rfl
  | (k, d) :: entries, h => by
    rw [members_cons k (ne_undefined_of_isExact h.1.self), Table.keys_cons, Table.keys_cons,
      List.map_cons, keys_members h.2]

theorem nodup_members {entries : List (Key × Data)} (h : (mapping entries).All IsExact) :
    (Table.keys (members entries)).Nodup := by
  obtain ⟨⟨hnames, hnodup⟩, hall⟩ := h
  rw [keys_members hall]
  refine hnodup.map_on fun k hk k' hk' heq => ?_
  obtain ⟨⟨k, _⟩, hmem, rfl⟩ := List.mem_map.1 hk
  obtain ⟨⟨k', _⟩, hmem', rfl⟩ := List.mem_map.1 hk'
  obtain ⟨t, rfl⟩ := hnames _ hmem
  obtain ⟨t', rfl⟩ := hnames _ hmem'
  exact congrArg Key.name heq

theorem document_int (n : Int) : (num (.int n)).document = .number (.int n) := by
  rw [document, Num.isFinite, if_pos rfl]

theorem document_mapping {entries : List (Key × Data)} (h : (mapping entries).All IsExact) :
    (mapping entries).document = .object (members entries) :=
  congrArg Json.object (Table.insertAll_of_nodup (nodup_members h))

mutual

theorem exact_document : ∀ {d : Data}, d.All IsExact → d.document.Exact
  | .null, _ | .bool _, _ | .text _, _ => trivial
  | .num (.int n), h => by
    rw [document_int]
    exact lt_limit (by decide) h
  | .list _, h => exact_documents h.2
  | .mapping entries, h => by
    rw [document_mapping h]
    exact ⟨nodup_members h, exact_members h.2⟩

theorem exact_documents : ∀ {items : List Data}, AllItems IsExact items →
    Json.ExactItems (documents items)
  | [], _ => trivial
  | _ :: _, h => ⟨exact_document h.1, exact_documents h.2⟩

theorem exact_members : ∀ {entries : List (Key × Data)}, AllEntries IsExact entries →
    Json.ExactMembers (members entries)
  | [], _ => trivial
  | (k, d) :: entries, h => by
    rw [members_cons k (ne_undefined_of_isExact h.1.self)]
    exact ⟨exact_document h.1, exact_members h.2⟩

end

end Data

namespace Store

variable {s : Store}

theorem callable_append (t : Store) {v : Value} (h : s.callable v = true) :
    (s ++ t).callable v = true := by
  cases v with
  | ref r =>
    rw [callable_ref, Option.any_eq_true] at h
    obtain ⟨o, ho, hfunction⟩ := h
    exact (callable_of_get? (get?_append (v := .ref r) t ho)).trans hfunction
  | _ => exact h

mutual

/-- New objects change nothing that is there. -/
theorem shows_append (t : Store) : ∀ {d : Data} {v : Value}, s.Shows d v → (s ++ t).Shows d v
  | .undefined, _, h | .null, _, h | .bool _, _, h | .num _, _, h | .text _, _, h => h
  | .function, _, h => callable_append t h
  | .list _, _, ⟨vs, hget, h⟩ => ⟨vs, get?_append t hget, showsItems_append t h⟩
  | .tuple _, _, ⟨vs, hget, h⟩ => ⟨vs, get?_append t hget, showsItems_append t h⟩
  | .mapping _, v, ⟨es, hget, h⟩ => by
    refine ⟨es, ?_, showsEntries_append t h⟩
    unfold entries?
    rcases get?_of_entries? hget with hget | hget <;> rw [get?_append t hget]

theorem showsItems_append (t : Store) : ∀ {items : List Data} {vs : List Value},
    s.ShowsItems items vs → (s ++ t).ShowsItems items vs
  | [], [], _ => trivial
  | _ :: _, _ :: _, h => ⟨shows_append t h.1, showsItems_append t h.2⟩

theorem showsEntries_append (t : Store) : ∀ {entries : List (Key × Data)} {es : Entries},
    s.ShowsEntries entries es → (s ++ t).ShowsEntries entries es
  | [], [], _ => trivial
  | _ :: _, _ :: _, ⟨hk, hv, h⟩ => ⟨hk, shows_append t hv, showsEntries_append t h⟩

end

end Store

/-! ## Reading -/

namespace Eval

open Store

mutual

/-- The value of a document holds what the tree of the document says. -/
theorem ofJson_document : ∀ {d : Data}, d.All Data.IsExact → ∀ w : World, ∃ v more,
    ofJson d.document w = .ok v (w.grown more) ∧ (w.grown more).store.Shows d v
  | .null, _, w => ⟨.null, #[], by rw [World.grown_empty]; rfl, rfl⟩
  | .bool b, _, w => ⟨.bool b, #[], by rw [World.grown_empty]; rfl, rfl⟩
  | .num (.int n), _, w => ⟨.num (.int n), #[], by rw [World.grown_empty]; rfl, rfl⟩
  | .text t, _, w => ⟨.text t, #[], by rw [World.grown_empty]; rfl, rfl⟩
  | .list items, h, w => by
    obtain ⟨vs, more, hrun, hshows⟩ := ofItems_documents h.2 w
    refine ⟨.ref (w.grown more).store.size, more ++ #[.list vs], ?_, vs, ?_, ?_⟩
    · rw [← World.grown_grown, ← allocate_eq]
      simp only [Data.document, ofJson, bind, EStateM.bind, hrun]
    · rw [← World.grown_grown]
      exact get?_grown _ _
    · rw [← World.grown_grown]
      exact showsItems_append _ hshows
  | .mapping entries, h, w => by
    obtain ⟨es, more, hrun, hshows⟩ := ofMembers_members h.2 h.1.1 w
    refine ⟨.ref (w.grown more).store.size, more ++ #[.dict es], ?_, es, ?_, ?_⟩
    · rw [Data.document_mapping h, ← World.grown_grown, ← allocate_eq]
      simp only [ofJson, bind, EStateM.bind, hrun]
    · rw [← World.grown_grown, entries?, get?_grown]
    · rw [← World.grown_grown]
      exact showsEntries_append _ hshows

theorem ofItems_documents : ∀ {items : List Data}, Data.AllItems Data.IsExact items → ∀ w : World,
    ∃ vs more, ofItems (Data.documents items) w = .ok vs (w.grown more) ∧
      (w.grown more).store.ShowsItems items vs
  | [], _, w => ⟨[], #[], by rw [World.grown_empty]; rfl, trivial⟩
  | d :: items, h, w => by
    obtain ⟨v, more, hrun, hshows⟩ := ofJson_document h.1 w
    obtain ⟨vs, more', hrun', hshows'⟩ := ofItems_documents h.2 (w.grown more)
    rw [World.grown_grown] at hrun' hshows'
    refine ⟨v :: vs, more ++ more', ?_, ?_, hshows'⟩
    · simp only [Data.documents, ofItems, bind, EStateM.bind, hrun, hrun']
      rfl
    · rw [← World.grown_grown]
      exact shows_append _ hshows

theorem ofMembers_members : ∀ {entries : List (Key × Data)},
    Data.AllEntries Data.IsExact entries → (∀ e ∈ entries, ∃ t, e.1 = .name t) → ∀ w : World,
    ∃ es more, ofMembers (Data.members entries) w = .ok es (w.grown more) ∧
      (w.grown more).store.ShowsEntries entries es
  | [], _, _, w => ⟨[], #[], by rw [World.grown_empty]; rfl, trivial⟩
  | (k, d) :: entries, h, hnames, w => by
    obtain ⟨t, rfl⟩ : ∃ t, k = .name t := hnames _ List.mem_cons_self
    obtain ⟨v, more, hrun, hshows⟩ := ofJson_document h.1 w
    obtain ⟨es, more', hrun', hshows'⟩ :=
      ofMembers_members h.2 (fun e he => hnames e (List.mem_cons_of_mem _ he)) (w.grown more)
    rw [World.grown_grown] at hrun' hshows'
    refine ⟨(.name t, v) :: es, more ++ more', ?_, rfl, ?_, hshows'⟩
    · rw [Data.members_cons _ (Data.ne_undefined_of_isExact h.1.self)]
      simp only [ofMembers, bind, EStateM.bind, hrun, hrun']
      rfl
    · rw [← World.grown_grown]
      exact shows_append _ hshows

end

/-- The text of a value in JSON is read as a value that holds the same. -/
theorem parseJson_stringify {d : Data} (hd : d.All Data.IsExact) (w : World) {v : Value}
    (hv : w.store.Shows d v) : ∃ t v' more,
      callBuiltin .stringify [v] w = .ok (.text t) w ∧
      callBuiltin .parseJson [.text t] w = .ok v' (w.grown more) ∧
      (w.grown more).store.Shows d v ∧ (w.grown more).store.Shows d v' := by
  have htext := stringify_shows (hd.mono Data.fits_of_isExact) hv
  have hsome : d.hasText = true := by
    cases d with
    | undefined | function => exact hd.elim
    | _ => rfl
  rw [hsome, if_pos rfl] at htext
  obtain ⟨v', more, hrun, hshows⟩ := ofJson_document hd w
  refine ⟨Json.render false d.document, v', more, ?_, ?_, shows_append more hv, hshows⟩
  · rw [callBuiltin_stringify, htext]
  · have hread : callBuiltin .parseJson [.text (Json.render false d.document)] w =
        parseJson (Json.render false d.document) w := rfl
    rw [hread, parseJson, Json.parse_render (Data.exact_document hd)]
    exact hrun

/-- A mapping of an array and a mapping, with a quote and a line feed in its texts. -/
theorem parseJson_stringify_nested :
    let d : Data := .mapping
      [(.name "a\"", .list [.num (.int (-12)), .bool true, .null, .text "\n"]),
        (.name [], .mapping [])]
    let w : World := { store := #[.dict [], .list [.num (.int (-12)), .bool true, .null, .text "\n"],
      .dict [(.name "a\"", .ref 1), (.name [], .ref 0)]] }
    d.All Data.IsExact ∧ w.store.Shows d (.ref 2) ∧ ∃ t v' more,
      callBuiltin .stringify [.ref 2] w = .ok (.text t) w ∧
      callBuiltin .parseJson [.text t] w = .ok v' (w.grown more) ∧
      (w.grown more).store.Shows d (.ref 2) ∧ (w.grown more).store.Shows d v' := by
  intro d w
  have hexact : d.All Data.IsExact := by
    refine ⟨⟨fun e he => ?_, by decide⟩, ⟨trivial, ?_, trivial, trivial, trivial, trivial⟩,
      ⟨⟨nofun, by decide⟩, trivial⟩, trivial⟩
    · fin_cases he <;> exact ⟨_, rfl⟩
    · exact (by decide +kernel : (-12 : Int).natAbs < 2 ^ 1000)
  have hshows : w.store.Shows d (.ref 2) :=
    ⟨_, rfl, rfl, ⟨_, rfl, rfl, rfl, rfl, rfl, trivial⟩, rfl, ⟨_, rfl, trivial⟩, trivial⟩
  exact ⟨hexact, hshows, parseJson_stringify hexact w hshows⟩

end Eval

end GuardedText
