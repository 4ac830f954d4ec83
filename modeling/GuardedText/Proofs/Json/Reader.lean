import Mathlib.Tactic.FinCases
import GuardedText.Proofs.Table
import GuardedText.Proofs.Text.Numeral
import GuardedText.Proofs.Json.Escape

/-
  Reading what was written. Whatever stands behind the text of a document, its reader stops at the
  end of that text, as long as a comma, a closing bracket or nothing follows (`Json.Ends`), and it
  finds the document again (`Json.parse_render`), if its numbers are integers within the limit and its
  objects have each key once (`Json.Exact`).
-/

namespace GuardedText

namespace Json

/-! ## Documents -/

mutual

/-- Documents whose numbers are integers within the limit and whose objects have each key once. -/
def Exact : Json → Prop
  | .null | .bool _ | .text _ => True
  | .number (.int n) => n.natAbs < 10 ^ Numeral.maxDigits
  | .number (.float _) => False
  | .array items => ExactItems items
  | .object members => (Table.keys members).Nodup ∧ ExactMembers members

/-- The items of such arrays. -/
def ExactItems : List Json → Prop
  | [] => True
  | item :: items => item.Exact ∧ ExactItems items

/-- The members of such objects. -/
def ExactMembers : List (Text × Json) → Prop
  | [] => True
  | (_, value) :: members => value.Exact ∧ ExactMembers members

end

/-- What may stand behind a document: a comma, a closing bracket or nothing. -/
def Ends (r : Text) : Prop := ∀ c ∈ r.head?, c ∈ ([',', 0x5D, 0x7D] : List CodePoint)

theorem ends_cons {c : CodePoint} (h : c ∈ ([',', 0x5D, 0x7D] : List CodePoint)) (r : Text) :
    Ends (c :: r) := by
  rintro _ ⟨⟩
  exact h

/-- Nothing that may stand behind a document goes on with a number. -/
theorem Ends.stops {r : Text} (hr : Ends r) : ∀ c ∈ r.head?, c.isAsciiDigit = false ∧
    (c == CodePoint.ofChar '.') = false ∧
    (c == CodePoint.ofChar 'e' || c == CodePoint.ofChar 'E') = false := by
  intro c hc
  have hmem := hr c hc
  fin_cases hmem <;> decide

/-! ## Strings -/

theorem unit?_hexUnit {n : Nat} (h : n < 0x10000) {r : Text} (hr : r ≠ []) :
    unit? (hexUnit n ++ r) = some (n, r) := by
  have hdigits := hexUnit_digits n
  generalize hexUnit n = ds at hdigits ⊢
  rcases hdigits with _ | ⟨ha, _ | ⟨hb, _ | ⟨hc, _ | ⟨hd, _ | _⟩⟩⟩⟩
  obtain ⟨e, r, rfl⟩ := List.exists_cons_of_ne_nil hr
  simp [unit?, ha, hb, hc, hd, unit_value h]

section

variable (opened fuel : Nat)

theorem stringBody_simple {c d : CodePoint} (h : simpleEscape? d = some c) (r : Text) :
    stringBody opened (fuel + 1) (CodePoint.ofChar '\\' :: d :: r) =
      (stringBody opened fuel r).map fun (body, rest) => (c :: body, rest) := by
  have hu : (d == CodePoint.ofChar 'u') = false := by
    rw [beq_eq_false_iff_ne]
    rintro rfl
    cases h
  show (if d == CodePoint.ofChar 'u' then _ else _) = _
  rw [hu, if_neg Bool.false_ne_true, h]
  dsimp only
  cases stringBody opened fuel r <;> rfl

theorem stringBody_unit {n : Nat} (h : n < 0xD800) {r : Text} (hr : r ≠ []) :
    stringBody opened (fuel + 1) (unitEscape n ++ r) =
      (stringBody opened fuel r).map fun (body, rest) => (Fin.ofNat 0x110000 n :: body, rest) := by
  have hjoin : joinUnits n r = (Fin.ofNat 0x110000 n, r) := by
    simp [joinUnits, show ¬ 0xD800 ≤ n by omega]
  have hunit := unit?_hexUnit (n := n) (by omega) hr
  have hescape : unitEscape n ++ r =
      CodePoint.ofChar '\\' :: CodePoint.ofChar 'u' :: (hexUnit n ++ r) := rfl
  rw [hescape]
  simp only [stringBody, BEq.rfl, if_true, hunit, hjoin]
  cases stringBody opened fuel r <;> rfl

/-- The spelling of a code point is read as that code point. -/
theorem stringBody_escaped {c : CodePoint} {w : Text} (h : Escaped c w) {r : Text} (hr : r ≠ []) :
    stringBody opened (fuel + 1) (w ++ r) =
      (stringBody opened fuel r).map fun (body, rest) => (c :: body, rest) := by
  cases h with
  | plain hlow hquote hslash =>
    simp only [List.cons_append, List.nil_append, stringBody, beq_iff_eq, hquote, hslash,
      if_false, Nat.not_lt.2 hlow]
    cases stringBody opened fuel r <;> rfl
  | letter hmem =>
    refine stringBody_simple opened fuel ?_ r
    fin_cases hmem <;> rfl
  | unit hlow =>
    have hc : Fin.ofNat 0x110000 c.val = c := Fin.ofNat_val_eq_self c
    have hunit := stringBody_unit opened fuel (n := c.val) (by omega) hr
    rwa [hc] at hunit

/-- A string is read up to its closing quote. -/
theorem stringBody_quote {t : Text} (r : Text) {fuel : Nat} (hfuel : t.length < fuel) :
    stringBody opened fuel (t.flatMap (escape false) ++ (0x22 : CodePoint) :: r) = .ok (t, r) := by
  induction t generalizing fuel with
  | nil =>
    obtain ⟨fuel, rfl⟩ : ∃ k, fuel = k + 1 := ⟨fuel - 1, by omega⟩
    rfl
  | cons c t ih =>
    rw [List.length_cons] at hfuel
    obtain ⟨fuel, rfl⟩ : ∃ k, fuel = k + 1 := ⟨fuel - 1, by omega⟩
    rw [List.flatMap_cons, List.append_assoc, stringBody_escaped opened fuel (escaped c) (by simp),
      ih (by omega)]
    rfl

end

theorem length_le_flatMap_escape (t : Text) : t.length ≤ (t.flatMap (escape false)).length := by
  induction t with
  | nil => exact Nat.le_refl _
  | cons c t ih =>
    have hpos : 0 < (escape false c).length := by
      have hescaped := escaped c
      generalize escape false c = w at hescaped ⊢
      cases hescaped <;> simp [unitEscape, hexUnit]
    rw [List.flatMap_cons, List.length_append, List.length_cons]
    omega

/-! ## Numbers -/

/-- The digits of a numeral are read up to its end. -/
theorem asciiDigits_ofNat (n : Nat) {r : Text} (hr : ∀ c ∈ r.head?, c.isAsciiDigit = false) :
    asciiDigits (Text.ofNat n ++ r) = ((Text.ofNat n).map fun d => d.val - 0x30, r) := by
  have hall : ∀ c ∈ Text.ofNat n, c.isAsciiDigit = true :=
    fun _ => Text.isAsciiDigit_of_mem_ofNat
  have hrest : r.takeWhile CodePoint.isAsciiDigit = [] ∧ r.dropWhile CodePoint.isAsciiDigit = r := by
    cases r with
    | nil => exact ⟨rfl, rfl⟩
    | cons c r =>
      have hc := hr c rfl
      simp [hc]
  rw [asciiDigits, Text.span, List.takeWhile_append_of_pos hall, List.dropWhile_append_of_pos hall,
    hrest.1, hrest.2, List.append_nil]

/-- No numeral but that of zero starts with a zero. -/
theorem head_ofNat {n : Nat} (hn : n ≠ 0) {c : CodePoint} {t : Text} (h : Text.ofNat n = c :: t) :
    (c == CodePoint.ofChar '0') = false := by
  induction n using Nat.strongRecOn generalizing t with
  | ind n ih =>
    rcases Nat.lt_or_ge n 10 with hlt | hle
    · rw [Text.ofNat_of_lt hlt] at h
      cases h
      interval_cases n
      · exact absurd rfl hn
      all_goals rfl
    · rw [Text.ofNat_of_le hle] at h
      obtain ⟨d, u, hd⟩ := List.exists_cons_of_ne_nil (Text.ofNat_ne_nil (n / 10))
      rw [hd, List.cons_append] at h
      cases h
      exact ih (n / 10) (Nat.div_lt_self (by omega) (by omega)) (by omega) hd

/-- An integer in front of the end of a document. -/
def signedDigits (negative : Bool) (n : Nat) (r : Text) : Text :=
  if negative then CodePoint.ofChar '-' :: (Text.ofNat n ++ r) else Text.ofNat n ++ r

theorem minus_digits (negative : Bool) (n : Nat) (r : Text) :
    minus (signedDigits negative n r) = (negative, Text.ofNat n ++ r) := by
  cases negative with
  | true => rfl
  | false =>
    obtain ⟨d, ds, hd, hdigit⟩ := Text.exists_ofNat_cons n
    have hminus : ¬ (d == CodePoint.ofChar '-') = true := by
      rw [beq_iff_eq]
      rintro rfl
      cases hdigit
    rw [signedDigits, if_neg Bool.false_ne_true, hd]
    exact if_neg hminus

theorem whole_digits (n : Nat) {r : Text} (hr : Ends r) :
    whole (Text.ofNat n ++ r) = ((Text.ofNat n).map fun d => d.val - 0x30, r) := by
  have hdigits := asciiDigits_ofNat n fun c hc => (hr.stops c hc).1
  obtain ⟨d, ds, hd⟩ := List.exists_cons_of_ne_nil (Text.ofNat_ne_nil n)
  rcases eq_or_ne n 0 with rfl | hn
  · rfl
  · rw [← hdigits, hd]
    show (if d == CodePoint.ofChar '0' then _ else _) = _
    rw [head_ofNat hn hd, if_neg Bool.false_ne_true]

/-- A number in which neither a point nor an exponent follows the digits is an integer. -/
theorem number?_digits (n : Nat) {r : Text} (hr : Ends r) (negative : Bool) :
    number? (signedDigits negative n r) =
      some (.int (if negative then -(n : Int) else n), r) := by
  have hvalue := Text.ofDigits_ofNat n
  have hne := Text.ofNat_ne_nil n
  simp only [number?, minus_digits, whole_digits n hr]
  cases r with
  | nil => simp [hvalue, hne]
  | cons c r =>
    obtain ⟨-, hpoint, hexponent⟩ := hr.stops c rfl
    simp [hvalue, hne, hpoint, hexponent]

theorem ofInt_append (n : Int) (r : Text) :
    Text.ofInt n ++ r = signedDigits (decide (n < 0)) n.natAbs r := by
  cases n with
  | ofNat n => rw [signedDigits, decide_eq_false (by simp)]; rfl
  | negSucc n => rw [signedDigits, decide_eq_true (by omega)]; rfl

/-- An integer within the limit is taken. -/
theorem accept_ofInt {n : Int} (hn : n.natAbs < 10 ^ Numeral.maxDigits) {r : Text} (hr : Ends r) :
    accept (Text.ofInt n ++ r) (.number (.int n), r) = .ok (.number (.int n), r) := by
  rw [accept, ofInt_append, minus_digits, whole_digits _ hr, List.length_map]
  exact if_pos (Numeral.isReadable_of_le ((Text.length_ofNat_le_iff (by decide)).2 hn))

theorem exists_digit_ofInt (n : Int) (r : Text) :
    ((Text.ofInt n ++ r).take 2).any CodePoint.isAsciiDigit = true := by
  have hdigit (n : Nat) : ∃ d ds, Text.ofNat n = d :: ds ∧ d.isAsciiDigit = true := by
    obtain ⟨d, ds, hd⟩ := List.exists_cons_of_ne_nil (Text.ofNat_ne_nil n)
    exact ⟨d, ds, hd, Text.isAsciiDigit_of_mem_ofNat (hd ▸ List.mem_cons_self)⟩
  cases n with
  | ofNat n =>
    obtain ⟨d, ds, hd, hdigit⟩ := hdigit n
    simp [Text.ofInt, hd, hdigit]
  | negSucc n =>
    obtain ⟨d, ds, hd, hdigit⟩ := hdigit (n + 1)
    simp [Text.ofInt, hd, hdigit]

/-- An integer is read as itself. -/
theorem atom?_ofInt (n : Int) {r : Text} (hr : Ends r) :
    atom? (Text.ofInt n ++ r) = some (.number (.int n), r) := by
  have hwords : ∀ p ∈ words, (Text.after? p.1 (Text.ofInt n ++ r)).map (p.2, ·) = none := by
    have hletters : ∀ p ∈ words, 2 ≤ p.1.length ∧
        (p.1.take 2).any CodePoint.isAsciiDigit = false := by decide
    intro p hp
    obtain ⟨hlength, hletter⟩ := hletters p hp
    rw [Option.map_eq_none_iff, Option.eq_none_iff_forall_ne_some]
    intro rest hrest
    have hdigit := exists_digit_ofInt n r
    rw [Text.after?_eq_some_iff.1 hrest, List.take_append_of_le_length hlength, hletter] at hdigit
    cases hdigit
  have hnumber : number? (Text.ofInt n ++ r) = some (.int n, r) := by
    rw [ofInt_append, number?_digits _ hr]
    split_ifs with h
    · have := of_decide_eq_true h
      exact congrArg (fun n => some (Num.int n, r)) (by omega)
    · have := of_decide_eq_false (Bool.eq_false_iff.2 h)
      exact congrArg (fun n => some (Num.int n, r)) (by omega)
  rw [atom?, hnumber]
  exact congrArg (Option.or · _) (List.findSome?_eq_none_iff.2 hwords)

/-! ## Arrays and objects -/

theorem skip_cons {c : CodePoint} (h : isSpace c = false) (s : Text) : skip (c :: s) = c :: s :=
  List.dropWhile_cons_of_neg (by rw [h]; exact Bool.false_ne_true)

section

variable {fuel : Nat} {s r : Text} {item : Json}

theorem items_last (h : value fuel s = .ok (item, (0x5D : CodePoint) :: r)) :
    items (fuel + 1) s = .ok ([item], r) := by
  rw [items, h]
  rfl

theorem items_next (h : value fuel s = .ok (item, CodePoint.ofChar ',' :: r)) {rest : List Json}
    {t : Text} (hrest : items fuel (skip r) = .ok (rest, t)) :
    items (fuel + 1) s = .ok (item :: rest, t) := by
  rw [items, h]
  show items fuel (skip r) >>= _ = _
  rw [hrest]
  rfl

variable (found : List (Text × Json)) {key : Text}

theorem members_key (fuel : Nat) (s : Text) :
    members (fuel + 1) found (quote false key ++ CodePoint.ofChar ':' :: s) = (do
      let (item, rest) ← value fuel (skip s)
      let found := Table.insert key item found
      match skip rest with
      | [] => .error ⟨.expectedComma, 0⟩
      | d :: v =>
        if d.val == 0x7D then return (found, v)
        else if d == ',' then members fuel found (skip v)
        else .error ⟨.expectedComma, v.length + 1⟩) := by
  have hbody (opened : Nat) : stringBody opened
      ((quote false key ++ CodePoint.ofChar ':' :: s).length + 1)
      (key.flatMap (escape false) ++ (0x22 : CodePoint) :: CodePoint.ofChar ':' :: s) =
        .ok (key, CodePoint.ofChar ':' :: s) := by
    refine stringBody_quote opened _ ?_
    have := length_le_flatMap_escape key
    simp only [quote, List.length_append, List.length_cons]
    omega
  have hquote : quote false key ++ CodePoint.ofChar ':' :: s = (0x22 : CodePoint) ::
      (key.flatMap (escape false) ++ (0x22 : CodePoint) :: CodePoint.ofChar ':' :: s) := by
    simp [quote]
  rw [hquote] at hbody ⊢
  rw [members]
  show stringBody _ _ _ >>= _ = _
  rw [hbody]
  rfl

theorem members_last
    (h : value fuel (skip s) = .ok (item, (0x7D : CodePoint) :: r)) :
    members (fuel + 1) found (quote false key ++ CodePoint.ofChar ':' :: s) =
      .ok (Table.insert key item found, r) := by
  rw [members_key, h]
  rfl

theorem members_next
    (h : value fuel (skip s) = .ok (item, CodePoint.ofChar ',' :: r)) :
    members (fuel + 1) found (quote false key ++ CodePoint.ofChar ':' :: s) =
      members fuel (Table.insert key item found) (skip r) := by
  rw [members_key, h]
  rfl

end

/-! ## Documents -/

/-- What the text of a document can start with: no white space, no closing bracket, no mark. -/
def Opens (c : CodePoint) : Prop := isSpace c = false ∧ c.val ≠ 0x5D ∧ c ≠ 0xFEFF

instance : DecidablePred Opens := fun c =>
  inferInstanceAs (Decidable (isSpace c = false ∧ c.val ≠ 0x5D ∧ c ≠ 0xFEFF))

theorem opens_digit {c : CodePoint} (h : c.isAsciiDigit = true) : Opens c := by
  have hbounds : 0x30 ≤ c.val ∧ c.val ≤ 0x39 := by
    simpa [CodePoint.isAsciiDigit, CodePoint.between] using h
  refine ⟨?_, by omega, fun hmark => absurd (congrArg Fin.val hmark) (by omega)⟩
  rw [← Bool.not_eq_true]
  intro hspace
  simp only [isSpace, Bool.or_eq_true, beq_iff_eq] at hspace
  rcases hspace with ((rfl | rfl) | rfl) | rfl <;> cases h

/-- An integer starts with a digit or with a minus. -/
theorem exists_head_ofInt (n : Int) : ∃ c u, Text.ofInt n = c :: u ∧
    (c.isAsciiDigit = true ∨ c = CodePoint.ofChar '-') := by
  cases n with
  | ofNat n =>
    obtain ⟨c, u, hc⟩ := List.exists_cons_of_ne_nil (Text.ofNat_ne_nil n)
    exact ⟨c, u, hc, .inl (Text.isAsciiDigit_of_mem_ofNat (hc ▸ List.mem_cons_self))⟩
  | negSucc n => exact ⟨_, _, rfl, .inr rfl⟩

theorem exists_opens {d : Json} (hd : d.Exact) : ∃ c u, render false d = c :: u ∧ Opens c := by
  cases d with
  | null => exact ⟨_, _, rfl, by decide⟩
  | bool b => cases b <;> exact ⟨_, _, rfl, by decide⟩
  | number n =>
    cases n with
    | int n =>
      obtain ⟨c, u, hc, hhead⟩ := exists_head_ofInt n
      refine ⟨c, u, hc, ?_⟩
      rcases hhead with hdigit | rfl
      · exact opens_digit hdigit
      · decide
    | float x => exact hd.elim
  | _ => exact ⟨_, _, rfl, by decide⟩

/-- No white space stands in front of a document. -/
theorem skip_render {d : Json} (hd : d.Exact) (r : Text) :
    skip (render false d ++ r) = render false d ++ r := by
  obtain ⟨c, u, hc, hopens⟩ := exists_opens hd
  rw [hc]
  exact skip_cons hopens.1 _

theorem skip_renderItems {item : Json} (hd : item.Exact) (items : List Json) (r : Text) :
    skip (renderItems false (item :: items) ++ r) = renderItems false (item :: items) ++ r := by
  obtain ⟨c, u, hc, hopens⟩ := exists_opens hd
  cases items <;> simp only [renderItems, hc, List.cons_append] <;> exact skip_cons hopens.1 _

theorem skip_renderMembers (member : Text × Json) (members : List (Text × Json)) (r : Text) :
    skip (renderMembers false (member :: members) ++ r) =
      renderMembers false (member :: members) ++ r := by
  cases members <;> exact skip_cons (c := 0x22) rfl _

section

variable {fuel : Nat} {r : Text}

theorem value_number {n : Int} (hn : n.natAbs < 10 ^ Numeral.maxDigits) (hr : Ends r) :
    value (fuel + 1) (Text.ofInt n ++ r) = .ok (.number (.int n), r) := by
  have hatom := atom?_ofInt n hr
  have haccept := accept_ofInt hn hr
  obtain ⟨c, u, hc, hhead⟩ := exists_head_ofInt n
  have hplain : (c.val == 0x22) = false ∧ (c.val == 0x5B) = false ∧ (c.val == 0x7B) = false := by
    rcases hhead with hdigit | rfl
    · have hbounds : 0x30 ≤ c.val ∧ c.val ≤ 0x39 := by
        simpa [CodePoint.isAsciiDigit, CodePoint.between] using hdigit
      refine ⟨?_, ?_, ?_⟩ <;> exact beq_eq_false_iff_ne.2 (by omega)
    · decide
  rw [hc, List.cons_append] at hatom haccept ⊢
  simp only [value, hplain, Bool.false_eq_true, if_false, hatom, Option.elim_some, haccept]

theorem value_text (t r : Text) : value (fuel + 1) (quote false t ++ r) = .ok (.text t, r) := by
  have hbody (opened : Nat) : stringBody opened ((quote false t ++ r).length + 1)
      (t.flatMap (escape false) ++ (0x22 : CodePoint) :: r) = .ok (t, r) := by
    refine stringBody_quote opened r ?_
    have := length_le_flatMap_escape t
    simp only [quote, List.length_append, List.length_cons]
    omega
  have hquote : quote false t ++ r =
      (0x22 : CodePoint) :: (t.flatMap (escape false) ++ (0x22 : CodePoint) :: r) := by
    simp [quote]
  rw [hquote] at hbody ⊢
  show stringBody _ _ _ >>= _ = _
  rw [hbody]
  rfl

theorem value_array {c : CodePoint} (hc : Opens c) {s : Text} {found : List Json}
    (h : items fuel (c :: s) = .ok (found, r)) :
    value (fuel + 1) ((0x5B : CodePoint) :: c :: s) = .ok (.array found, r) := by
  show (match skip (c :: s) with
    | [] => _
    | d :: u => _) = _
  rw [skip_cons hc.1]
  dsimp only
  rw [if_neg (by simpa using hc.2.1), h]
  rfl

theorem value_object {s : Text} {found : List (Text × Json)}
    (h : members fuel [] ((0x22 : CodePoint) :: s) = .ok (found, r)) :
    value (fuel + 1) ((0x7B : CodePoint) :: (0x22 : CodePoint) :: s) =
      .ok (.object found, r) := by
  show members fuel [] ((0x22 : CodePoint) :: s) >>= _ = _
  rw [h]
  rfl

end

mutual

/-- A document is read up to the end of its text. -/
theorem value_render : ∀ {d : Json}, d.Exact → ∀ {r : Text} {n : Nat}, Ends r →
    (render false d).length < n → value n (render false d ++ r) = .ok (d, r)
  | .null, _, _, _ + 1, _, _ => rfl
  | .bool true, _, _, _ + 1, _, _ => rfl
  | .bool false, _, _, _ + 1, _, _ => rfl
  | .number (.int _), hn, _, _ + 1, hr, _ => value_number hn hr
  | .text t, _, r, _ + 1, _, _ => value_text t r
  | .array [], _, _, _ + 1, _, _ => rfl
  | .array (item :: rest), hd, r, n + 1, _, hfuel => by
    obtain ⟨c, u, hc, hopens⟩ := exists_opens hd.1
    obtain ⟨u, hu⟩ : ∃ u, renderItems false (item :: rest) = c :: u := by
      cases rest <;> simp [renderItems, hc]
    have hitems := items_render (List.cons_ne_nil item rest) hd (r := r) (n := n) (by
      simp only [render, List.length_cons, List.length_append] at hfuel
      omega)
    rw [hu] at hitems
    have harray := value_array hopens hitems
    simpa [render, hu] using harray
  | .object [], _, _, _ + 1, _, _ => rfl
  | .object ((key, item) :: rest), hd, r, n + 1, _, hfuel => by
    obtain ⟨u, hu⟩ : ∃ u, renderMembers false ((key, item) :: rest) = (0x22 : CodePoint) :: u := by
      cases rest <;> simp [renderMembers, quote]
    have hmembers := members_render (List.cons_ne_nil (key, item) rest) hd.2 [] (r := r)
      (n := n) (by
        simp only [render, List.length_cons, List.length_append] at hfuel
        omega)
    rw [Table.insertAll_of_nodup hd.1, hu] at hmembers
    have hobject := value_object hmembers
    simpa [render, hu] using hobject

/-- The items of an array are read up to its closing bracket. -/
theorem items_render : ∀ {ds : List Json}, ds ≠ [] → ExactItems ds → ∀ {r : Text} {n : Nat},
    (renderItems false ds).length + 1 < n →
    items n (renderItems false ds ++ (0x5D : CodePoint) :: r) = .ok (ds, r)
  | [item], _, hd, r, n + 1, hfuel =>
    items_last (value_render hd.1 (ends_cons (by simp) r) (Nat.lt_of_succ_lt_succ hfuel))
  | item :: item' :: rest, _, hd, r, n + 1, hfuel => by
    have hsplit (t : Text) : renderItems false (item :: item' :: rest) ++ t =
        render false item ++ CodePoint.ofChar ',' :: (renderItems false (item' :: rest) ++ t) := by
      simp [renderItems, Text.ofString]
    have hlength := congrArg List.length (hsplit [])
    simp only [List.length_append, List.length_cons, List.length_nil] at hlength
    have hitem := value_render hd.1 (ends_cons (c := ',') (by simp)
      (renderItems false (item' :: rest) ++ (0x5D : CodePoint) :: r)) (n := n) (by omega)
    have hrest := items_render (List.cons_ne_nil item' rest) hd.2 (r := r) (n := n) (by omega)
    rw [hsplit]
    refine items_next hitem ?_
    rwa [skip_renderItems hd.2.1]

/-- The members of an object are read up to its closing brace. -/
theorem members_render : ∀ {ms : List (Text × Json)}, ms ≠ [] → ExactMembers ms →
    ∀ (found : List (Text × Json)) {r : Text} {n : Nat},
    (renderMembers false ms).length + 1 < n →
    members n found (renderMembers false ms ++ (0x7D : CodePoint) :: r) =
      .ok (Table.insertAll found ms, r)
  | [(key, item)], _, hd, found, r, n + 1, hfuel => by
    have hsplit (t : Text) : renderMembers false [(key, item)] ++ t =
        quote false key ++ CodePoint.ofChar ':' :: (render false item ++ t) := by
      simp [renderMembers, Text.ofString]
    have hlength := congrArg List.length (hsplit [])
    simp only [List.length_append, List.length_cons, List.length_nil] at hlength
    have hitem := value_render hd.1 (ends_cons (c := 0x7D) (by simp) r) (n := n) (by omega)
    rw [hsplit]
    refine members_last found ?_
    rwa [skip_render hd.1]
  | (key, item) :: (key', item') :: rest, _, hd, found, r, n + 1, hfuel => by
    have hsplit (t : Text) : renderMembers false ((key, item) :: (key', item') :: rest) ++ t =
        quote false key ++ CodePoint.ofChar ':' :: (render false item ++ CodePoint.ofChar ',' ::
          (renderMembers false ((key', item') :: rest) ++ t)) := by
      simp [renderMembers, Text.ofString]
    have hlength := congrArg List.length (hsplit [])
    simp only [List.length_append, List.length_cons, List.length_nil] at hlength
    have hitem := value_render hd.1 (ends_cons (c := ',') (by simp)
      (renderMembers false ((key', item') :: rest) ++ (0x7D : CodePoint) :: r)) (n := n)
      (by omega)
    have hrest := members_render (List.cons_ne_nil (key', item') rest) hd.2
      (Table.insert key item found) (r := r) (n := n) (by omega)
    rw [hsplit, members_next found (by rwa [skip_render hd.1]), skip_renderMembers]
    exact hrest

end

/-- The text of a document is read as that document. -/
theorem parse_render {d : Json} (hd : d.Exact) : parse (render false d) = .ok d := by
  have hvalue := value_render hd (r := []) (n := 2 * (render false d).length + 2)
    (by rintro _ ⟨⟩) (by omega)
  have hskip := skip_render hd []
  rw [List.append_nil] at hvalue hskip
  obtain ⟨c, u, hc, hopens⟩ := exists_opens hd
  have hmark : ((render false d).head? == some 0xFEFF) = false := by
    rw [hc]
    simpa using hopens.2.2
  rw [parse, hmark, if_neg Bool.false_ne_true, hskip, hvalue]
  rfl

end Json

end GuardedText
