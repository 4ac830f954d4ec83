import GuardedText.Builtin.Object
import GuardedText.Proofs.Number.Numeral
import GuardedText.Proofs.Property.Found

/-
  Elements of arrays and texts. The name of a key alone should say what an array or a text has
  under it: the length, the element whose numeral the name is, a function or nothing
  (`elementNamed`). The index is taken from the key itself, though, so this holds for the keys of
  `Regular` and for no others (`property_element_iff`).
-/

namespace GuardedText.Store

/-! ## Names -/

/-- The elements of an array or a text, and its functions. -/
def sequence? (s : Store) : Value → Option (List Value × List (String × Method))
  | .text t => some (characters t, textMethods)
  | v => (s.items? v).map (·, arrayMethods)

/-- The index below a length whose numeral a name is. -/
def indexNamed? (length : Nat) (name : Text) : Option Nat :=
  (List.range length).find? (Text.ofNat · == name)

/-- What an array or a text has under a name. -/
def elementNamed (elements : List Value) (methods : List (String × Method)) (name : Text) : Found :=
  if name = Text.ofString "length" then .value (.num (.int elements.length))
  else
    match indexNamed? elements.length name with
    | some i => .ofOption elements[i]?
    | none => (methodNamed? methods name).elim .absent .method

theorem indexNamed?_eq_none {length : Nat} {name : Text} :
    indexNamed? length name = none ↔ ∀ i < length, Text.ofNat i ≠ name := by
  simp [indexNamed?, List.find?_eq_none]

theorem indexNamed?_ofNat {length n : Nat} (h : n < length) :
    indexNamed? length (Text.ofNat n) = some n := by
  cases hfound : indexNamed? length (Text.ofNat n) with
  | none => exact absurd rfl (indexNamed?_eq_none.1 hfound n h)
  | some i =>
    have hname := List.find?_some hfound
    rw [Text.ofNat_injective (beq_iff_eq.1 hname)]

/-- The element whose numeral a name is. -/
theorem indexNamed?_bind (elements : List Value) (i : Nat) :
    (indexNamed? elements.length (Text.ofNat i)).bind (elements[·]?) = elements[i]? := by
  rcases Nat.lt_or_ge i elements.length with hlt | hge
  · rw [indexNamed?_ofNat hlt]
    rfl
  · rw [List.getElem?_eq_none hge, indexNamed?_eq_none.2 fun j hj heq => ?_]
    · rfl
    · have := Text.ofNat_injective heq
      omega

/-- What does not start with a small letter is not the name of the length. -/
theorem ne_length {name : Text} (h : name.startsSmall = false) : name ≠ Text.ofString "length" := by
  rintro rfl
  exact absurd h (by decide)

theorem methods_of_sequence? {s : Store} {object : Value} {elements : List Value}
    {methods : List (String × Method)} (h : s.sequence? object = some (elements, methods)) :
    methods = textMethods ∨ methods = arrayMethods := by
  unfold sequence? at h
  split at h
  · exact .inl (Prod.mk.inj (Option.some.inj h)).2.symm
  · obtain ⟨_, -, heq⟩ := Option.map_eq_some_iff.1 h
    exact .inr (Prod.mk.inj heq).2.symm

/-- The functions of arrays and texts have names that start with a small letter. -/
theorem methodNamed?_eq_none {s : Store} {object : Value} {elements : List Value}
    {methods : List (String × Method)} (h : s.sequence? object = some (elements, methods))
    {name : Text} (hname : name.startsSmall = false) : methodNamed? methods name = none := by
  have hmethods : ∀ m ∈ methods, (Text.ofString m.1).startsSmall = true := by
    rcases methods_of_sequence? h with rfl | rfl <;> decide
  rw [methodNamed?, Option.map_eq_none_iff, List.find?_eq_none]
  intro m hm heq
  have := hmethods m hm
  rw [beq_iff_eq.1 heq, hname] at this
  cases this

/-- What an array or a text has under a name that is no word. -/
theorem elementNamed_seen {elements : List Value} {methods : List (String × Method)} {name : Text}
    (hname : name.startsSmall = false) (hmethod : methodNamed? methods name = none) :
    (elementNamed elements methods name).seen = .value
      (((indexNamed? elements.length name).bind (elements[·]?)).getD .undefined) := by
  rw [elementNamed, if_neg (ne_length hname)]
  cases indexNamed? elements.length name with
  | none => rw [hmethod]; rfl
  | some i => exact Found.seen_ofOption _

/-! ## Keys -/

/-- A text of digits denotes an index, or none that can be read. -/
theorem index?_of_digits {t : Text} (hne : t ≠ []) (hdigits : t.all CodePoint.isDigit = true) :
    index? (.text t) = .error .badValue ∨ ∃ n, index? (.text t) = .ok (some n) := by
  have hempty : t.isEmpty = false := List.isEmpty_eq_false_iff.2 hne
  rw [index?, hempty, hdigits]
  cases t.mapM CodePoint.decimalValue? with
  | none => exact .inl rfl
  | some ds =>
    by_cases hread : Numeral.isReadable 10 ds.length = true
    · exact .inr ⟨_, congrArg (·.bind fun i => pure (some i)) (Numeral.read_of_isReadable hread)⟩
    · exact .inl (congrArg (·.bind fun i => pure (some i)) (Numeral.read_of_not hread))

theorem index?_of_not_digits {t : Text} (h : ¬(t ≠ [] ∧ t.all CodePoint.isDigit = true)) :
    index? (.text t) = .ok none := by
  have hall : (!t.isEmpty && t.all CodePoint.isDigit) = false := by
    rw [← Bool.not_eq_true, Bool.and_eq_true, Bool.not_eq_true', List.isEmpty_eq_false_iff]
    exact h
  rw [index?, hall]
  rfl

/-- Only a key that denotes no index can be a word. -/
theorem not_startsSmall_of_index {s : Store} {key : Value} {name : Text}
    (hindex : index? key ≠ .ok none) (hkey : s.keyText key = .ok name) :
    name.startsSmall = false := by
  cases key with
  | num n =>
    obtain ⟨-, rfl⟩ := Num.write_eq_ok_iff.1 hkey
    exact n.not_startsSmall_toText
  | text t =>
    obtain rfl : t = name := Except.ok.inj hkey
    by_cases hdigits : t ≠ [] ∧ t.all CodePoint.isDigit = true
    · exact Text.not_startsSmall_of_digits hdigits.2
    · exact absurd (index?_of_not_digits hdigits) hindex
  | _ => exact absurd rfl hindex

theorem ne_length_of_index {s : Store} {key : Value} {name : Text} {i : Nat}
    (hindex : index? key = .ok (some i)) (hkey : s.keyText key = .ok name) :
    name ≠ Text.ofString "length" :=
  ne_length (not_startsSmall_of_index (by simp [hindex]) hkey)

/-- Whether the index that a key denotes, if any, leads to the element whose numeral its name is. -/
def Aligned (elements : List Value) (name : Text) : Except Fault (Option Nat) → Prop
  | .error _ => False
  | .ok i? => (i?.bind (elements[·]?)).getD .undefined =
      ((indexNamed? elements.length name).bind (elements[·]?)).getD .undefined

/-- When a key gives what its name says: a text of digits is the numeral of a number within the
limit, or is read and the element that it reaches is `undefined`; a number fits a double, and the
text of an array is no numeral of an element. -/
def Regular (elements : List Value) (name : Text) : Value → Prop
  | .text t => t ≠ [] → t.all CodePoint.isDigit = true →
      (∃ n, n < 10 ^ Numeral.maxDigits ∧ t = Text.ofNat n) ∨
      ∃ n, index? (.text t) = .ok (some n) ∧ (elements[n]?).getD .undefined = .undefined
  | .num n => ∃ x, n.toFloat = .ok x
  | .ref _ => ∀ i, Text.ofNat i = name → (elements[i]?).getD .undefined = .undefined
  | _ => True

section

variable {s : Store} {object key : Value} {elements : List Value}
  {methods : List (String × Method)} {name : Text}

theorem property_sequence (hobject : s.sequence? object = some (elements, methods))
    (hkey : s.keyText key = .ok name) : s.property object key =
      sequenceProperty elements.length (elements[·]?) methods key name := by
  cases object with
  | text t =>
    obtain ⟨rfl, rfl⟩ := Prod.mk.inj (Option.some.inj hobject)
    simp only [property, hkey, characters, List.length_map, List.getElem?_map]
    rfl
  | ref r =>
    obtain ⟨items, hitems, heq⟩ := Option.map_eq_some_iff.1 hobject
    obtain ⟨rfl, rfl⟩ := Prod.mk.inj heq
    rw [items?_ref] at hitems
    obtain ⟨o, hr, ho⟩ := Option.bind_eq_some_iff.1 hitems
    rw [property_ref hr key hkey]
    cases o <;> cases ho <;> rfl
  | _ => cases hobject

/-- Without an index nothing but an element whose numeral the name is can be missed. -/
theorem aligned_none : Aligned elements name (.ok none) ↔
    ∀ i, Text.ofNat i = name → (elements[i]?).getD .undefined = .undefined := by
  by_cases hnumeral : ∃ i, Text.ofNat i = name
  · obtain ⟨i, rfl⟩ := hnumeral
    rw [Aligned, indexNamed?_bind]
    constructor
    · intro h j hj
      obtain rfl := Text.ofNat_injective hj
      exact h.symm
    · intro h
      exact (h i rfl).symm
  · rw [Aligned, indexNamed?_eq_none.2 fun i _ hi => hnumeral ⟨i, hi⟩]
    exact iff_of_true rfl fun i hi => absurd ⟨i, hi⟩ hnumeral

theorem aligned_word (h : name.startsSmall = true) : Aligned elements name (.ok none) :=
  aligned_none.2 fun i hi => by
    rw [← hi, Text.not_startsSmall_ofNat] at h
    cases h

theorem aligned_some {i : Nat} (h : ∀ j < elements.length, Text.ofNat j = name ↔ j = i) :
    Aligned elements name (.ok (some i)) := by
  rw [Aligned, Option.bind_some]
  rcases Nat.lt_or_ge i elements.length with hlt | hge
  · rw [← (h i hlt).2 rfl, indexNamed?_bind]
  · rw [List.getElem?_eq_none hge, indexNamed?_eq_none.2 fun j hj heq => ?_]
    · rfl
    · have := (h j hj).1 heq
      omega

/-- An array or a text has under a key what the key's name says if and only if the index of the key
leads where the name does. -/
theorem seen_iff_aligned (hobject : s.sequence? object = some (elements, methods))
    (hkey : s.keyText key = .ok name) :
    (s.property object key).map Found.seen = .ok (elementNamed elements methods name).seen ↔
      Aligned elements name (index? key) := by
  rw [property_sequence hobject hkey, sequenceProperty]
  by_cases hnone : index? key = .ok none
  · rw [hnone]
    by_cases hword : name.startsSmall = true
    · have hindex : indexNamed? elements.length name = none :=
        indexNamed?_eq_none.2 fun i _ hi => by
          rw [← hi, Text.not_startsSmall_ofNat] at hword
          cases hword
      refine iff_of_true ?_ (aligned_word hword)
      rw [elementNamed, hindex]
      split_ifs <;> rfl
    · have hsmall := Bool.eq_false_iff.2 hword
      have hmethod := methodNamed?_eq_none hobject hsmall
      rw [if_neg (ne_length hsmall), elementNamed_seen hsmall hmethod, hmethod, Aligned]
      change Except.ok (Found.value .undefined) = _ ↔ _
      rw [Except.ok.injEq, Found.value.injEq]
      rfl
  · have hsmall := not_startsSmall_of_index hnone hkey
    rw [if_neg (ne_length hsmall), elementNamed_seen hsmall (methodNamed?_eq_none hobject hsmall)]
    cases hindex : index? key with
    | error e => exact iff_of_false (fun h => by cases h) id
    | ok i? =>
      cases i? with
      | none => exact absurd hindex hnone
      | some i =>
        change Except.ok (Found.ofOption elements[i]?).seen = _ ↔ _
        rw [Found.seen_ofOption, Aligned, Except.ok.injEq, Found.value.injEq]
        rfl

theorem aligned_text (t : Text) :
    Aligned elements t (index? (.text t)) ↔ Regular elements t (.text t) := by
  by_cases hdigits : t ≠ [] ∧ t.all CodePoint.isDigit = true
  · by_cases hnumeral : ∃ n, n < 10 ^ Numeral.maxDigits ∧ t = Text.ofNat n
    · obtain ⟨n, hn, rfl⟩ := hnumeral
      rw [index?_ofNat hn]
      exact iff_of_true (aligned_some fun j _ => Text.ofNat_inj) fun _ _ => .inl ⟨n, hn, rfl⟩
    · rcases index?_of_digits hdigits.1 hdigits.2 with hindex | ⟨n, hindex⟩
      · rw [hindex, Regular, hindex]
        refine iff_of_false id fun h => ?_
        obtain hn | ⟨m, hm, -⟩ := h hdigits.1 hdigits.2
        · exact hnumeral hn
        · cases hm
      · rw [hindex, Regular, hindex, Aligned, indexNamed?_eq_none.2 fun i _ hi =>
          hnumeral ⟨i, (index?_ofNat_iff.1 (hi ▸ hindex)).1, hi.symm⟩]
        constructor
        · intro h _ _
          exact .inr ⟨n, rfl, h⟩
        · intro h
          obtain hn | ⟨m, hm, hundefined⟩ := h hdigits.1 hdigits.2
          · exact absurd hn hnumeral
          · obtain rfl := Option.some.inj (Except.ok.inj hm)
            exact hundefined
  · rw [index?_of_not_digits hdigits, aligned_none]
    refine iff_of_true (fun i hi => ?_) fun hne hall => absurd ⟨hne, hall⟩ hdigits
    exact absurd ⟨hi ▸ Text.ofNat_ne_nil i, hi ▸ Text.isDigit_ofNat i⟩ hdigits

theorem aligned_num (n : Num) (hlength : elements.length ≤ tenTo 21) :
    Aligned elements n.toText (index? (.num n)) ↔ Regular elements n.toText (.num n) := by
  cases hfloat : n.toFloat with
  | error e =>
    have hindex : index? (.num n) = .error e := by
      rw [index?, hfloat]
      rfl
    rw [hindex, Regular, hfloat]
    exact iff_of_false id fun h => by
      obtain ⟨x, hx⟩ := h
      cases hx
  | ok x =>
    refine iff_of_true ?_ ⟨x, hfloat⟩
    have hnatural {i : Nat} (hi : i < elements.length) :
        Text.ofNat i = n.toText ↔ index? (.num n) = .ok (some i) := by
      rw [eq_comm, Num.toText_eq_ofNat_iff (Nat.lt_of_lt_of_le hi hlength), index?_num_iff hfloat]
    obtain ⟨i?, hindex⟩ : ∃ i?, index? (.num n) = .ok i? := ⟨_, index?_num hfloat⟩
    rw [hindex] at hnatural ⊢
    cases i? with
    | none =>
      refine aligned_none.2 fun i hi => ?_
      rcases Nat.lt_or_ge i elements.length with hlt | hge
      · cases (hnatural hlt).1 hi
      · rw [List.getElem?_eq_none hge]
        rfl
    | some i =>
      refine aligned_some fun j hj => ?_
      rw [hnatural hj, Except.ok.injEq, Option.some.injEq, eq_comm]

theorem aligned_iff_regular (hkey : s.keyText key = .ok name)
    (hlength : elements.length ≤ tenTo 21) :
    Aligned elements name (index? key) ↔ Regular elements name key := by
  cases key with
  | text t =>
    obtain rfl : t = name := Except.ok.inj hkey
    exact aligned_text t
  | num n =>
    obtain ⟨-, rfl⟩ := Num.write_eq_ok_iff.1 hkey
    exact aligned_num n hlength
  | ref r => exact aligned_none
  | undefined | null | type =>
    obtain rfl := Except.ok.inj hkey
    exact iff_of_true (aligned_word (by decide)) trivial
  | bool b =>
    obtain rfl := Except.ok.inj hkey
    exact iff_of_true (aligned_word (by cases b <;> decide)) trivial

/-- An array or a text has under a key what the key's name says if and only if the key is
regular. -/
theorem property_element_iff (hobject : s.sequence? object = some (elements, methods))
    (hkey : s.keyText key = .ok name) (hlength : elements.length ≤ tenTo 21) :
    (s.property object key).map Found.seen = .ok (elementNamed elements methods name).seen ↔
      Regular elements name key :=
  (seen_iff_aligned hobject hkey).trans (aligned_iff_regular hkey hlength)

end

/-! ## An array of two numbers -/

/-- The array `[5, 6]` in a store of its own. -/
def pair : Store := #[.list [.num (.int 5), .num (.int 6)]]

theorem property_element_iff_pair :
    pair.sequence? (.ref 0) = some ([.num (.int 5), .num (.int 6)], arrayMethods) ∧
      pair.keyText (.text "1") = .ok "1" ∧ 2 ≤ tenTo 21 ∧
      ((pair.property (.ref 0) (.text "1")).map Found.seen =
          .ok (elementNamed [.num (.int 5), .num (.int 6)] arrayMethods "1").seen ↔
        Regular [.num (.int 5), .num (.int 6)] "1" (.text "1")) ∧
      Regular [.num (.int 5), .num (.int 6)] "1" (.text "1") ∧
      elementNamed [.num (.int 5), .num (.int 6)] arrayMethods "1" = .value (.num (.int 6)) :=
  ⟨rfl, rfl, by decide, property_element_iff rfl rfl (by decide),
    fun _ _ => .inl ⟨1, Nat.one_lt_pow (by decide) (by decide), rfl⟩, rfl⟩

/-- Digits that are no numeral reach elements all the same, or make reading fail. -/
theorem property_zeros :
    pair.property (.ref 0) (.text "01") = .ok (.value (.num (.int 6))) ∧
      elementNamed [.num (.int 5), .num (.int 6)] arrayMethods "01" = .absent ∧
      pair.property (.ref 0) (.text "²") = .error .badValue ∧
      elementNamed [.num (.int 5), .num (.int 6)] arrayMethods "²" = .absent :=
  ⟨rfl, rfl, rfl, rfl⟩

end GuardedText.Store
