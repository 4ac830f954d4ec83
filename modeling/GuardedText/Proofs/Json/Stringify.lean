import GuardedText.Proofs.Json.Data
import GuardedText.Proofs.Json.Escape

/-
  The text of a value in JSON against the rule of JavaScript (`Data.json?`): `undefined` and functions
  have no text, so they are null in an array and missing from a mapping; numbers are written as in
  texts. A value is written by the rule (`Eval.stringify_json`) unless it holds a double that is
  written differently where it is to be read back, an integer that is too large for a double, a
  function in a mapping, or a key beyond the limit of digits (`Data.IsRegular`).
-/

namespace GuardedText

namespace Json

/-- A string with its quotes. -/
def quoted (t : Text) : Text := "\"" ++ t.flatMap spelling ++ "\""

theorem quote_eq (t : Text) : quote false t = quoted t := by
  have hspelling : escape false = spelling := funext escape_eq
  rw [quote, quoted, hspelling]
  rfl

theorem renderItems_eq (items : List Json) :
    renderItems false items = Text.join "," (items.map (render false)) := by
  induction items with
  | nil => rfl
  | cons item items ih =>
    cases items with
    | nil => rfl
    | cons next items => exact congrArg (render false item ++ Text.ofString "," ++ ·) ih

/-- The text of a member. -/
def renderMember (member : Text × Json) : Text := quoted member.1 ++ ":" ++ render false member.2

theorem renderMembers_eq (members : List (Text × Json)) :
    renderMembers false members = Text.join "," (members.map renderMember) := by
  induction members with
  | nil => rfl
  | cons member members ih =>
    cases members with
    | nil => exact congrArg (· ++ Text.ofString ":" ++ render false member.2) (quote_eq member.1)
    | cons next members =>
      calc renderMembers false (member :: next :: members)
        _ = quote false member.1 ++ Text.ofString ":" ++
            (render false member.2 ++ Text.ofString "," ++
              renderMembers false (next :: members)) := rfl
        _ = renderMember member ++ Text.ofString "," ++
            Text.join "," ((next :: members).map renderMember) := by
          rw [ih, quote_eq, renderMember]
          simp only [List.append_assoc]

end Json

namespace Data

mutual

/-- The text of a tree in JSON by the rule of JavaScript. -/
def json? : Data → Option Text
  | .undefined | .function => none
  | .null => some "null"
  | .bool b => some (if b then "true" else "false")
  | .num n => some (if n.isFinite then n.toText else "null")
  | .text t => some (Json.quoted t)
  | .list items | .tuple items => some ("[" ++ Text.join "," (jsonItems items) ++ "]")
  | .mapping entries => some ("\x7b" ++ Text.join "," (jsonEntries entries) ++ "\x7d")

/-- The texts of items; what has none is null. -/
def jsonItems : List Data → List Text
  | [] => []
  | d :: items => d.json?.getD "null" :: jsonItems items

/-- The texts of entries; what has none is left out, with its key. -/
def jsonEntries : List (Key × Data) → List Text
  | [] => []
  | (k, d) :: entries =>
    match d.json? with
    | none => jsonEntries entries
    | some t => (Json.quoted k.toText ++ ":" ++ t) :: jsonEntries entries

end

/-- The names of the entries that have a text. -/
def names (entries : List (Key × Data)) : List Text :=
  (entries.filter fun e => e.2.hasText).map fun e => e.1.toText

/-- The trees that are written by the rule, as far as they are concerned without what is in them. -/
def IsRegular : Data → Prop
  | .num (.int n) => Double.Fits n
  | .num (.float x) =>
    (Num.float x).isFinite = true → (Num.float x).toFullText = (Num.float x).toText
  | .mapping entries => (∀ e ∈ entries, e.2 ≠ .function) ∧ (names entries).Nodup ∧
    ∀ e ∈ entries, e.2 ≠ .undefined → e.1.IsWritable
  | _ => True

theorem fits_of_isRegular (d : Data) (h : d.IsRegular) : d.Fits := by
  cases d with
  | num n =>
    cases n with
    | int n => exact h
    | float x => trivial
  | mapping entries => exact h.2.2
  | _ => trivial

theorem keys_members_eq {entries : List (Key × Data)} (h : ∀ e ∈ entries, e.2 ≠ .function) :
    Table.keys (members entries) = names entries := by
  induction entries with
  | nil => rfl
  | cons e entries ih =>
    obtain ⟨k, d⟩ := e
    rw [List.forall_mem_cons] at h
    have hrest := ih h.2
    cases d with
    | undefined => exact hrest
    | function => exact absurd rfl h.1
    | _ => exact congrArg (k.toText :: ·) hrest

theorem exists_json? {d : Data} (hundefined : d ≠ .undefined) (hfunction : d ≠ .function) :
    ∃ t, d.json? = some t := by
  cases d with
  | undefined => exact absurd rfl hundefined
  | function => exact absurd rfl hfunction
  | _ => exact ⟨_, rfl⟩

theorem render_num {n : Num} (h : (num n).IsRegular) :
    Json.render false (num n).document = (num n).json?.getD "null" := by
  cases hfinite : n.isFinite with
  | false =>
    rw [document, json?, hfinite]
    rfl
  | true =>
    rw [document, json?, hfinite]
    cases n with
    | int n => rfl
    | float x => exact h hfinite

mutual

/-- A regular tree is written by the rule. -/
theorem render_document : ∀ {d : Data}, d.All IsRegular →
    Json.render false d.document = d.json?.getD "null"
  | .undefined, _ | .function, _ | .null, _ => rfl
  | .bool true, _ | .bool false, _ => rfl
  | .num n, h => render_num h
  | .text t, _ => Json.quote_eq t
  | .list items, h | .tuple items, h => by
    rw [document, Json.render, Json.renderItems_eq, render_documents h.2]
    rfl
  | .mapping entries, h => by
    have hnodup : (Table.keys (members entries)).Nodup := by
      rw [keys_members_eq h.1.1]
      exact h.1.2.1
    rw [document, Table.insertAll_of_nodup hnodup, Json.render, Json.renderMembers_eq,
      render_members h.2 h.1.1]
    rfl

theorem render_documents : ∀ {items : List Data}, AllItems IsRegular items →
    (documents items).map (Json.render false) = jsonItems items
  | [], _ => rfl
  | _ :: _, h => congrArg₂ List.cons (render_document h.1) (render_documents h.2)

theorem render_members : ∀ {entries : List (Key × Data)}, AllEntries IsRegular entries →
    (∀ e ∈ entries, e.2 ≠ .function) →
    (members entries).map Json.renderMember = jsonEntries entries
  | [], _, _ => rfl
  | (k, d) :: entries, h, hfunction => by
    rw [List.forall_mem_cons] at hfunction
    have hrest := render_members h.2 hfunction.2
    by_cases hundefined : d = .undefined
    · subst hundefined
      exact hrest
    · obtain ⟨t, ht⟩ := exists_json? hundefined hfunction.1
      have hd := render_document h.1
      rw [ht, Option.getD_some] at hd
      rw [members_cons k hundefined, List.map_cons, hrest, jsonEntries, ht, Json.renderMember, hd]

end

end Data

namespace Eval

/-- JSON is written by the rule of JavaScript. -/
theorem stringify_json {d : Data} (hd : d.All Data.IsRegular) (w : World) {v : Value}
    (hv : w.store.Shows d v) (rest : List Value) :
    callBuiltin .stringify (v :: rest) w = .ok (d.json?.elim .undefined .text) w := by
  have htext := Store.stringify_shows (hd.mono Data.fits_of_isRegular) hv
  rw [Data.render_document hd] at htext
  rw [callBuiltin_stringify, htext]
  cases d <;> rfl

/-- A world with a function, an array and two mappings that hold it. -/
def functions : World where
  store := #[.builtin .now [], .list [.undefined, .ref 0, .num (.float 0.5), .num .nan],
    .dict [(.name "a\n", .ref 1), (.number 7, .undefined), (.number (-1), .bool true)],
    .dict [(.name "a", .ref 0)]]

theorem stringify_json_nested :
    let d : Data := .mapping
      [(.name "a\n", .list [.undefined, .function, .num (.float 0.5), .num .nan]),
        (.number 7, .undefined), (.number (-1), .bool true)]
    d.All Data.IsRegular ∧ functions.store.Shows d (.ref 2) ∧
      callBuiltin .stringify [.ref 2] functions =
        .ok (.text "\x7b\"a\\n\":[null,null,0.5,null],\"-1\":true\x7d") functions := by
  intro d
  have hregular : d.All Data.IsRegular := by
    refine ⟨⟨fun e he => ?_, by decide, fun e he hpresent => ?_⟩,
      ⟨trivial, trivial, trivial, ?_, ?_, trivial⟩, trivial, trivial, trivial⟩
    · fin_cases he <;> exact nofun
    · fin_cases he
      · trivial
      · exact absurd rfl hpresent
      · exact Num.isWritable_int.1 (by decide)
    · exact fun _ => by decide +kernel
    · exact fun h => absurd h (by decide +kernel)
  have hshows : functions.store.Shows d (.ref 2) :=
    ⟨_, rfl, rfl, ⟨_, rfl, rfl, rfl, rfl, rfl, trivial⟩, rfl, rfl, rfl, rfl, trivial⟩
  have htext : d.json? = some "\x7b\"a\\n\":[null,null,0.5,null],\"-1\":true\x7d" := by
    decide +kernel
  have hresult := stringify_json hregular functions hshows []
  rw [htext] at hresult
  exact ⟨hregular, hshows, hresult⟩

/-- A double, a function in a mapping and an integer that are not written by the rule. -/
theorem stringify_departs :
    (Data.num (.float 1)).json? = some "1" ∧
      callBuiltin .stringify [.num (.float 1)] functions = .ok (.text "1.0") functions ∧
    functions.store.Shows (.mapping [(.name "a", .function)]) (.ref 3) ∧
      (Data.mapping [(.name "a", .function)]).json? = some "\x7b\x7d" ∧
      callBuiltin .stringify [.ref 3] functions = .ok (.text "\x7b\"a\":null\x7d") functions ∧
    (Data.num (.int (2 ^ 1024))).json? = some (Text.ofInt (2 ^ 1024)) ∧
      callBuiltin .stringify [.num (.int (2 ^ 1024))] functions = .error .overflow functions := by
  have hdouble : functions.store.stringify (.num (.float 1)) = .ok (.text "1.0") := by
    have htext : Json.render false (Data.num (.float 1)).document = "1.0" := by decide +kernel
    rw [← htext]
    exact Store.stringify_shows (d := .num (.float 1)) trivial rfl
  have hfunction : functions.store.stringify (.ref 3) = .ok (.text "\x7b\"a\":null\x7d") := rfl
  have hlarge : functions.store.stringify (.num (.int (2 ^ 1024))) = .error .overflow := by
    rcases Double.ofInt?_cases (2 ^ 1024) with ⟨hfits, -⟩ | ⟨-, hnone⟩
    · exact absurd hfits (by decide +kernel)
    · have hjson := functions.store.jsonWithin_toFloat (.int (2 ^ 1024)) (functions.store.size + 1)
      rw [Num.toFloat_int_large hnone] at hjson
      show (do
        let document ← functions.store.jsonWithin _ _
        return Value.text (Json.render false document)) = _
      rw [hjson]
      rfl
  refine ⟨by decide +kernel, ?_, ⟨_, rfl, rfl, rfl, trivial⟩, rfl, ?_, rfl, ?_⟩
  · rw [callBuiltin_stringify, hdouble]
  · rw [callBuiltin_stringify, hfunction]
  · rw [callBuiltin_stringify, hlarge]

end Eval

end GuardedText
