import GuardedText.Value.Convert

/-
  Strict and loose equality. Strictly equal values have one kind and one content, or are one object.
  Loosely, values of different kinds are converted until they have one kind or are a number and a
  text: a truth value gives its number, an object its text. Every operand is converted once at most,
  so that the comparison is one of converted operands (`looseEquals_settle`).
-/

namespace GuardedText.Store

/-- Strict equality. -/
def strictEquals : Value → Value → Bool
  | .undefined, .undefined => true
  | .null, .null => true
  | .bool a, .bool b => a == b
  | .num a, .num b => a.equal b
  | .text a, .text b => a == b
  | .type a, .type b => a == b
  | .ref a, .ref b => a == b
  | _, _ => false

/-- How often a value is converted before it is compared. -/
def conversions : Value → Nat
  | .bool _ | .type _ | .ref _ => 1
  | _ => 0

/-- Whether a value is no object. -/
def isPrimitive : Value → Bool
  | .type _ | .ref _ => false
  | _ => true

/-- A truth value as a number. -/
def ofBool (b : Bool) : Value := .num (.int (if b then 1 else 0))

/-- What is left of an object is converted no more, and anything else stays. -/
theorem toPrimitive_cases {s : Store} {v u : Value} (h : s.toPrimitive v = .ok u) :
    (isPrimitive v = true ∧ u = v) ∨
      (isPrimitive v = false ∧ conversions v = 1 ∧ conversions u = 0) := by
  cases v with
  | type t =>
    cases h
    exact .inr ⟨rfl, rfl, rfl⟩
  | ref r =>
    rw [toPrimitive] at h
    cases htext : s.toText (.ref r) with
    | error e =>
      rw [htext] at h
      cases h
    | ok t =>
      rw [htext] at h
      cases h
      exact .inr ⟨rfl, rfl, rfl⟩
  | _ =>
    cases h
    exact .inl ⟨rfl, rfl⟩

/-- Loose equality. -/
def looseEquals (s : Store) (a b : Value) : Except Fault Bool :=
  if isNothing a || isNothing b then .ok (isNothing a && isNothing b)
  else if s.typeName a = s.typeName b then .ok (strictEquals a b)
  else
    match a, b with
    | .bool x, b => s.looseEquals (ofBool x) b
    | a, .bool y => s.looseEquals a (ofBool y)
    | .num m, .text t => return m.equal (← textToNumber t)
    | .text t, .num n => return (← textToNumber t).equal n
    | a, b =>
      match _ha : s.toPrimitive a, _hb : s.toPrimitive b with
      | .error e, _ => .error e
      | .ok _, .error e => .error e
      | .ok a', .ok b' =>
        if _h : isPrimitive a && isPrimitive b then .ok false else s.looseEquals a' b'
termination_by conversions a + conversions b
decreasing_by
  · simp [conversions, ofBool]
  · simp [conversions, ofBool]
  · rcases toPrimitive_cases _ha with ⟨ha, rfl⟩ | ⟨-, hone, hzero⟩
    · rcases toPrimitive_cases _hb with ⟨hb, rfl⟩ | ⟨-, hone, hzero⟩
      · exact absurd (by rw [ha, hb]; rfl) _h
      · omega
    · rcases toPrimitive_cases _hb with ⟨-, rfl⟩ | ⟨-, hone', hzero'⟩ <;> omega

/-! ## Converted operands -/

/-- A truth value as its number; anything else stays. -/
def unBool : Value → Value
  | .bool b => ofBool b
  | v => v

/-- Loose equality of values that are no objects: a number and a text are compared as numbers. -/
def settleEquals (a b : Value) : Except Fault Bool :=
  match unBool a, unBool b with
  | .num m, .text t => return m.equal (← textToNumber t)
  | .text t, .num n => return (← textToNumber t).equal n
  | a, b => .ok (strictEquals a b)

theorem isPrimitive_of_toPrimitive {s : Store} {v u : Value} (h : s.toPrimitive v = .ok u) :
    isPrimitive u = true ∧ (isNothing v = false → isNothing u = false) := by
  cases v with
  | ref r =>
    rw [toPrimitive] at h
    cases htext : s.toText (.ref r) with
    | error e =>
      rw [htext] at h
      cases h
    | ok t =>
      rw [htext] at h
      cases h
      exact ⟨rfl, fun _ => rfl⟩
  | _ =>
    cases h
    exact ⟨rfl, id⟩

theorem toPrimitive_of_isPrimitive {s : Store} {v : Value} (h : isPrimitive v = true) :
    s.toPrimitive v = .ok v := by
  cases v with
  | type t => cases h
  | ref r => cases h
  | _ => rfl

theorem exists_num_of_typeName {s : Store} {v : Value} (h : s.typeName v = "number") :
    ∃ n, v = .num n := by
  cases v with
  | num n => exact ⟨n, rfl⟩
  | ref r =>
    simp only [typeName] at h
    split at h <;> simp at h
  | _ => exact absurd h (by simp [typeName, callable])

theorem num_or_text {v : Value} (hprimitive : isPrimitive v = true) (hsome : isNothing v = false)
    (hbool : ∀ x, v = .bool x → False) : (∃ n, v = .num n) ∨ ∃ t, v = .text t := by
  cases v with
  | num n => exact .inl ⟨n, rfl⟩
  | text t => exact .inr ⟨t, rfl⟩
  | bool x => exact (hbool x rfl).elim
  | undefined | null => cases hsome
  | type | ref => cases hprimitive

/-- Values of one kind are compared as they are. -/
theorem settleEquals_of_kind {s : Store} {a b : Value} (h : s.typeName a = s.typeName b) :
    settleEquals a b = .ok (strictEquals a b) := by
  cases a <;> cases b
  case bool.bool x y => cases x <;> cases y <;> rfl
  all_goals first
    | rfl
    | exact absurd h (by simp [typeName])

/-- Comparing what values are converted to. -/
def compareConverted (s : Store) (a b : Value) : Except Fault Bool := do
  let a ← s.toPrimitive a
  let b ← s.toPrimitive b
  settleEquals a b

/-- Values of different kinds are loosely equal if what they are converted to is. -/
theorem looseEquals_settle (s : Store) (a b : Value) : s.looseEquals a b =
    if isNothing a || isNothing b then .ok (isNothing a && isNothing b)
    else if s.typeName a = s.typeName b then .ok (strictEquals a b)
    else s.compareConverted a b := by
  fun_induction looseEquals s a b with
  | case1 a b h => rw [if_pos h]
  | case2 a b h hkind => rw [if_neg h, if_pos hkind]
  | case3 x b h hkind ih =>
    have hsome : ¬(isNothing (ofBool x) || isNothing b) = true := h
    rw [if_neg h, if_neg hkind, ih, if_neg hsome]
    by_cases hnum : s.typeName (ofBool x) = s.typeName b
    · obtain ⟨n, rfl⟩ := exists_num_of_typeName hnum.symm
      rfl
    · rw [if_neg hnum]
      rfl
  | case4 a y _ h hkind ih =>
    have hsome : ¬(isNothing a || isNothing (ofBool y)) = true := h
    rw [if_neg h, if_neg hkind, ih, if_neg hsome]
    by_cases hnum : s.typeName a = s.typeName (ofBool y)
    · obtain ⟨n, rfl⟩ := exists_num_of_typeName hnum
      rfl
    · rw [if_neg hnum]
      rfl
  | case5 | case6 => rfl
  | case7 a b _ _ _ _ e ha h hkind =>
    rw [if_neg h, if_neg hkind, compareConverted, ha]
    rfl
  | case8 a b _ _ _ _ a' e ha hb h hkind =>
    rw [if_neg h, if_neg hkind, compareConverted, ha, hb]
    rfl
  | case9 a b hbool hbool' hnum htext a' b' _ _ hprimitive h hkind =>
    simp only [Bool.and_eq_true, Bool.or_eq_true, not_or, Bool.not_eq_true] at hprimitive h
    obtain ⟨m, rfl⟩ | ⟨t, rfl⟩ := num_or_text hprimitive.1 h.1 hbool
    · obtain ⟨n, rfl⟩ | ⟨u, rfl⟩ := num_or_text hprimitive.2 h.2 hbool'
      · exact absurd rfl hkind
      · exact (hnum m u rfl rfl).elim
    · obtain ⟨n, rfl⟩ | ⟨u, rfl⟩ := num_or_text hprimitive.2 h.2 hbool'
      · exact (htext t n rfl rfl).elim
      · exact absurd rfl hkind
  | case10 a b _ _ _ _ a' b' ha hb hprimitive h hkind ih =>
    obtain ⟨hfirst, ha'⟩ := isPrimitive_of_toPrimitive ha
    obtain ⟨hsecond, hb'⟩ := isPrimitive_of_toPrimitive hb
    have hsome : ¬(isNothing a' || isNothing b') = true := by
      simp only [Bool.or_eq_true, not_or, Bool.not_eq_true] at h ⊢
      exact ⟨ha' h.1, hb' h.2⟩
    rw [if_neg h, if_neg hkind, ih, if_neg hsome, compareConverted, compareConverted, ha, hb,
      toPrimitive_of_isPrimitive hfirst, toPrimitive_of_isPrimitive hsecond]
    by_cases hsame : s.typeName a' = s.typeName b'
    · rw [if_pos hsame, ← settleEquals_of_kind hsame]
      rfl
    · rw [if_neg hsame]

end GuardedText.Store
