import GuardedText.Builtin.Call
import GuardedText.Proofs.Number.Limit
import GuardedText.Proofs.Number.Remainder
import GuardedText.Proofs.Property.Found
import GuardedText.Proofs.Value.Fuel

/-
  What a value holds, as a tree. A value that shows a tree has no array or mapping inside itself, so
  there is fuel enough for its document (`Store.jsonWithin_shows`), and its text in JSON is that of
  the tree (`Store.stringify_shows`).
-/

namespace GuardedText

/-- What a value holds: the values of JSON, `undefined` and functions. -/
inductive Data where
  | undefined
  | function
  | null
  | bool (b : Bool)
  | num (n : Num)
  | text (t : Text)
  | list (items : List Data)
  | tuple (items : List Data)
  | mapping (entries : List (Key × Data))

/-- Whether a number has a numeral in JSON. -/
def Num.isFinite : Num → Bool
  | .int _ => true
  | .float x => !Double.isNaN x && !Double.isInfinite x

namespace Data

variable (p : Data → Prop)

mutual

/-- Whether something is so for a tree and everything in it. -/
def All : Data → Prop
  | .list items => p (.list items) ∧ AllItems items
  | .tuple items => p (.tuple items) ∧ AllItems items
  | .mapping entries => p (.mapping entries) ∧ AllEntries entries
  | d => p d

/-- Whether it is so for all items and everything in them. -/
def AllItems : List Data → Prop
  | [] => True
  | d :: items => d.All ∧ AllItems items

/-- Whether it is so for all entries and everything in them. -/
def AllEntries : List (Key × Data) → Prop
  | [] => True
  | (_, d) :: entries => d.All ∧ AllEntries entries

end

variable {p} {q : Data → Prop}

mutual

theorem All.mono (h : ∀ d, p d → q d) : ∀ {d : Data}, d.All p → d.All q
  | .list _, hd | .tuple _, hd => ⟨h _ hd.1, AllItems.mono h hd.2⟩
  | .mapping _, hd => ⟨h _ hd.1, AllEntries.mono h hd.2⟩
  | .undefined, hd | .function, hd | .null, hd | .bool _, hd | .num _, hd | .text _, hd => h _ hd

theorem AllItems.mono (h : ∀ d, p d → q d) : ∀ {items : List Data}, AllItems p items →
    AllItems q items
  | [], _ => trivial
  | _ :: _, hd => ⟨hd.1.mono h, AllItems.mono h hd.2⟩

theorem AllEntries.mono (h : ∀ d, p d → q d) : ∀ {entries : List (Key × Data)},
    AllEntries p entries → AllEntries q entries
  | [], _ => trivial
  | _ :: _, hd => ⟨hd.1.mono h, AllEntries.mono h hd.2⟩

end

theorem All.self : ∀ {d : Data}, d.All p → p d
  | .list _, hd | .tuple _, hd | .mapping _, hd => hd.1
  | .undefined, hd | .function, hd | .null, hd | .bool _, hd | .num _, hd | .text _, hd => hd

mutual

/-- The document of a tree. -/
def document : Data → Json
  | .undefined | .function | .null => .null
  | .bool b => .bool b
  | .num n => if n.isFinite then .number n else .null
  | .text t => .text t
  | .list items | .tuple items => .array (documents items)
  | .mapping entries => .object (Table.insertAll [] (members entries))

/-- The documents of items. -/
def documents : List Data → List Json
  | [] => []
  | d :: items => d.document :: documents items

/-- The members of the entries that are not `undefined`. -/
def members : List (Key × Data) → List (Text × Json)
  | [] => []
  | (_, .undefined) :: entries => members entries
  | (k, d) :: entries => (k.toText, d.document) :: members entries

end

theorem members_cons (k : Key) {d : Data} (hd : d ≠ .undefined) (entries : List (Key × Data)) :
    members ((k, d) :: entries) = (k.toText, d.document) :: members entries := by
  cases d with
  | undefined => exact absurd rfl hd
  | _ => rfl

/-- Integers that are not too large for a double, and keys that are not too large to be written. -/
def Fits : Data → Prop
  | .num (.int n) => Double.Fits n
  | .mapping entries => ∀ e ∈ entries, e.2 ≠ .undefined → e.1.IsWritable
  | _ => True

/-- Whether a tree is neither `undefined` nor a function, which have no text in JSON. -/
def hasText : Data → Bool
  | .undefined | .function => false
  | _ => true

end Data

namespace Store

variable (s : Store)

mutual

/-- What it is for a value to hold what a tree says. -/
def Shows : Data → Value → Prop
  | .undefined, v => v = .undefined
  | .function, v => s.callable v = true
  | .null, v => v = .null
  | .bool b, v => v = .bool b
  | .num n, v => v = .num n
  | .text t, v => v = .text t
  | .list items, v => ∃ vs, s.get? v = some (.list vs) ∧ ShowsItems items vs
  | .tuple items, v => ∃ vs, s.get? v = some (.tuple vs) ∧ ShowsItems items vs
  | .mapping entries, v => ∃ es, s.entries? v = some es ∧ ShowsEntries entries es

/-- What it is for values to hold what trees say, one after the other. -/
def ShowsItems : List Data → List Value → Prop
  | [], [] => True
  | d :: items, v :: vs => Shows d v ∧ ShowsItems items vs
  | _, _ => False

/-- What it is for entries to have the keys of others and to hold what these say. -/
def ShowsEntries : List (Key × Data) → Entries → Prop
  | [], [] => True
  | (k, d) :: entries, (k', v) :: es => k = k' ∧ Shows d v ∧ ShowsEntries entries es
  | _, _ => False

end

variable {s} {v : Value}

/-! ## Documents -/

/-- Whether an entry of a mapping is not `undefined`. -/
def isPresent : Key × Value → Bool := fun (_, v) =>
  match v with
  | .undefined => false
  | _ => true

theorem isPresent_shows {d : Data} (hd : d ≠ .undefined) (h : s.Shows d v) (k : Key) :
    isPresent (k, v) = true := by
  cases v with
  | undefined =>
    cases d with
    | undefined => exact absurd rfl hd
    | list | tuple | mapping =>
      obtain ⟨_, hnone, -⟩ := h
      cases hnone
    | _ => cases h
  | _ => rfl

theorem jsonWithin_array {vs : List Value}
    (h : s.get? v = some (.list vs) ∨ s.get? v = some (.tuple vs)) :
    s.jsonWithin (s.size + 1) v = (do return .array (← vs.mapM (s.jsonWithin (s.size + 1)))) := by
  rw [← jsonWithin_fuel (Nat.le_succ _)]
  cases v with
  | ref r =>
    change s[r]? = _ ∨ s[r]? = _ at h
    rcases h with h | h <;> rw [jsonWithin, h]
  | _ => rcases h with h | h <;> cases h

theorem get?_of_entries? {es : Entries} (h : s.entries? v = some es) :
    s.get? v = some (.dict es) ∨ s.get? v = some (.frozen es) := by
  unfold entries? at h
  split at h <;> cases h
  · exact .inl ‹_›
  · exact .inr ‹_›

theorem jsonWithin_mapping {es : Entries} (h : s.entries? v = some es) :
    s.jsonWithin (s.size + 1) v = (do
      let members ← (es.filter isPresent).mapM fun (k, v) =>
        return (← k.write, ← s.jsonWithin (s.size + 1) v)
      return .object (Table.insertAll [] members)) := by
  rw [← jsonWithin_fuel (Nat.le_succ _)]
  cases v with
  | ref r =>
    have hobject : s[r]? = some (.dict es) ∨ s[r]? = some (.frozen es) := get?_of_entries? h
    rcases hobject with h | h <;> rw [jsonWithin, h] <;> rfl
  | _ => cases h

theorem jsonWithin_toFloat (n : Num) (fuel : Nat) : s.jsonWithin fuel (.num n) = (do
    let x ← n.toFloat
    if Double.isNaN x || Double.isInfinite x then return .null else return .number n) := by
  cases fuel <;> rfl

theorem jsonWithin_num {n : Num} (h : (Data.num n).Fits) (fuel : Nat) :
    s.jsonWithin fuel (.num n) = .ok (Data.num n).document := by
  have hresult {x : Float} (hx : n.toFloat = .ok x)
      (hfinite : n.isFinite = !(Double.isNaN x || Double.isInfinite x)) :
      s.jsonWithin fuel (.num n) = .ok (Data.num n).document := by
    rw [jsonWithin_toFloat, hx, Data.document, hfinite]
    show (if Double.isNaN x || Double.isInfinite x then _ else _) = _
    cases Double.isNaN x || Double.isInfinite x <;> rfl
  cases n with
  | int n =>
    rcases Double.ofInt?_cases n with ⟨-, x, k, hx, hsigned, -⟩ | ⟨hlarge, -⟩
    · refine hresult (Num.toFloat_int hx) ?_
      rw [hsigned.isNaN, hsigned.isInfinite]
      rfl
    · exact absurd h hlarge
  | float x => exact hresult rfl (by simp [Num.isFinite])

theorem jsonWithin_function (h : s.callable v = true) : s.jsonWithin (s.size + 1) v = .ok .null := by
  cases v with
  | ref r =>
    have hjson : s.jsonWithin (s.size + 1) (.ref r) =
        if s.callable (.ref r) then .ok .null else .error .badCall := by
      rw [callable_ref] at h
      rw [jsonWithin]
      cases ho : s[r]? with
      | none => rfl
      | some o =>
        rw [ho] at h
        cases o with
        | list | tuple | dict | frozen => cases h
        | _ => rfl
    rw [hjson, if_pos h]
  | type => rfl
  | _ => cases h

mutual

/-- A value has the document of the tree that it shows. -/
theorem jsonWithin_shows : ∀ {d : Data} {v : Value}, d.All Data.Fits → s.Shows d v →
    s.jsonWithin (s.size + 1) v = .ok d.document
  | .undefined, _, _, rfl | .null, _, _, rfl => rfl
  | .function, v, _, h => jsonWithin_function h
  | .bool _, _, _, rfl | .text _, _, _, rfl => rfl
  | .num n, _, hd, rfl => jsonWithin_num hd _
  | .list items, v, hd, ⟨vs, hv, hitems⟩ => by
    rw [jsonWithin_array (.inl hv), documents_shows hd.2 hitems]
    rfl
  | .tuple items, v, hd, ⟨vs, hv, hitems⟩ => by
    rw [jsonWithin_array (.inr hv), documents_shows hd.2 hitems]
    rfl
  | .mapping entries, v, hd, ⟨es, hv, hentries⟩ => by
    rw [jsonWithin_mapping hv, members_shows hd.1 hd.2 hentries]
    rfl

theorem documents_shows : ∀ {items : List Data} {vs : List Value}, Data.AllItems Data.Fits items →
    s.ShowsItems items vs → vs.mapM (s.jsonWithin (s.size + 1)) = .ok (Data.documents items)
  | [], [], _, _ => rfl
  | d :: items, v :: vs, hd, h => by
    rw [List.mapM_cons, jsonWithin_shows hd.1 h.1, documents_shows hd.2 h.2]
    rfl

theorem members_shows : ∀ {entries : List (Key × Data)} {es : Entries},
    (Data.mapping entries).Fits → Data.AllEntries Data.Fits entries → s.ShowsEntries entries es →
    ((es.filter isPresent).mapM fun (k, v) => return (← k.write, ← s.jsonWithin (s.size + 1) v)) =
      (.ok (Data.members entries) : Except Fault (List (Text × Json)))
  | [], [], _, _, _ => rfl
  | (k, d) :: entries, (_, v) :: es, hkeys, hd, ⟨rfl, hv, h⟩ => by
    have hrest := members_shows (fun e he => hkeys e (List.mem_cons_of_mem _ he)) hd.2 h
    by_cases hundefined : d = .undefined
    · subst hundefined
      obtain rfl : v = .undefined := hv
      exact hrest
    · rw [List.filter_cons_of_pos (isPresent_shows hundefined hv k), List.mapM_cons,
        Data.members_cons k hundefined, hrest]
      dsimp only
      rw [Key.write_of_isWritable (hkeys _ List.mem_cons_self hundefined), jsonWithin_shows hd.1 hv]
      rfl

end

/-! ## Texts -/

theorem callable_of_get? {o : Obj} (h : s.get? v = some o) : s.callable v = o.isFunction := by
  cases v with
  | ref r =>
    change s[r]? = some o at h
    rw [callable_ref, h]
    rfl
  | _ => cases h

theorem stringify_shows {d : Data} (hd : d.All Data.Fits) (hv : s.Shows d v) :
    s.stringify v = .ok (if d.hasText then .text (Json.render false d.document) else .undefined) := by
  have hjson := jsonWithin_shows hd hv
  have htext (hv : v ≠ .undefined) (hfunction : s.callable v = false) :
      s.stringify v = .ok (.text (Json.render false d.document)) := by
    cases v with
    | undefined => exact absurd rfl hv
    | _ =>
      unfold stringify
      dsimp only
      rw [hfunction, hjson]
      rfl
  cases d with
  | undefined =>
    obtain rfl : v = .undefined := hv
    rfl
  | function =>
    have hfunction : s.callable v = true := hv
    cases v with
    | undefined => cases hfunction
    | type => rfl
    | _ => exact if_pos hfunction
  | list items | tuple items =>
    obtain ⟨vs, hget, -⟩ := hv
    refine htext ?_ (callable_of_get? hget)
    rintro rfl
    cases hget
  | mapping entries =>
    obtain ⟨es, hentries, -⟩ := hv
    have hget := get?_of_entries? hentries
    refine htext ?_ ?_
    · rintro rfl
      cases hentries
    · rcases hget with hget | hget <;> exact callable_of_get? hget
  | _ =>
    obtain rfl := hv
    exact htext nofun rfl

end Store

namespace Eval

/-- A call of the function that writes JSON. -/
theorem callBuiltin_stringify (w : World) (v : Value) (rest : List Value) :
    callBuiltin .stringify (v :: rest) w = match w.store.stringify v with
      | .ok text => .ok text w
      | .error e => .error e w := by
  refine (read_apply (fun s => s.stringify v) w).trans ?_
  cases w.store.stringify v <;> rfl

end Eval

end GuardedText
