import GuardedText.Proofs.Number.Limit
import GuardedText.Proofs.Property.Name

/-
  Equality of values. If no array lies inside itself, loose equality is the same whichever operand
  comes first, as strict equality is, and it has a result unless there is a numeral beyond the limit
  (`Store.Overlong`). What is strictly equal is loosely equal, and values of one kind that are not
  missing are loosely equal only then (`Store.looseEquals_lawful`).
-/

namespace GuardedText

/-! ## Equal numbers -/

namespace Double

open Float.Model

theorem compare_swap (a b : UnpackedFloat) : b.compare a = (a.compare b).map Ordering.swap := by
  match a, b with
  | .notANumber, b => cases b <;> rfl
  | a, .notANumber => rcases a with _ | _ | _ | ⟨_ | _⟩ <;> rfl
  | .infinity p, .infinity q => cases p <;> cases q <;> rfl
  | .infinity p, .zero _ => cases p <;> rfl
  | .zero _, .infinity q => cases q <;> rfl
  | .infinity p, .finite q _ _ _ => cases p <;> cases q <;> rfl
  | .finite p _ _ _, .infinity q => cases p <;> cases q <;> rfl
  | .zero _, .zero _ => rfl
  | .zero _, .finite q _ _ _ => cases q <;> rfl
  | .finite p _ _ _, .zero _ => cases p <;> rfl
  | .finite p m e _, .finite q m' e' _ =>
    have hswap : (compare e' e).then (compare m' m) =
        ((compare e e').then (compare m m')).swap := by
      rw [Ordering.swap_then, Int.compare_swap, Nat.compare_swap]
    cases p <;> cases q
    case positive.positive => exact congrArg some hswap
    case negative.negative => exact congrArg (fun o => some o.swap) hswap
    all_goals rfl

theorem beq_iff_compare (x y : Float) :
    (x == y) = true ↔ x.toModel.unpack.compare y.toModel.unpack = some .eq :=
  beq_iff_eq (a := x.toModel.unpack.compare y.toModel.unpack)

theorem lt_iff_compare (x y : Float) :
    x < y ↔ x.toModel.unpack.compare y.toModel.unpack = some .lt := by
  have hmodel : x < y ↔ x.toModel < y.toModel := decide_eq_true_iff
  exact hmodel.trans (beq_iff_eq (a := x.toModel.unpack.compare y.toModel.unpack))

theorem beq_symm {x y : Float} (h : (x == y) = true) : (y == x) = true := by
  rw [beq_iff_compare] at h ⊢
  rw [compare_swap, h]
  rfl

theorem compare?_eq_iff (x y : Float) :
    compare? x y = some .eq ↔ isNaN x = false ∧ isNaN y = false ∧ (x == y) = true := by
  have hnot (heq : (x == y) = true) : ¬ x < y := by
    rw [lt_iff_compare, (beq_iff_compare x y).1 heq]
    exact fun h => nomatch h
  unfold compare?
  by_cases hnan : (isNaN x || isNaN y) = true
  · rw [if_pos hnan]
    constructor
    · intro h
      cases h
    · rintro ⟨hx, hy, -⟩
      rw [hx, hy] at hnan
      cases hnan
  · rw [if_neg hnan]
    rw [Bool.or_eq_true, not_or, Bool.not_eq_true, Bool.not_eq_true] at hnan
    split_ifs with hlt heq
    · exact iff_of_false (by decide) fun h => hnot h.2.2 hlt
    · exact iff_of_true rfl ⟨hnan.1, hnan.2, heq⟩
    · exact iff_of_false (by decide) fun h => heq h.2.2

theorem compare?_eq_comm (x y : Float) : compare? x y = some .eq ↔ compare? y x = some .eq := by
  rw [compare?_eq_iff, compare?_eq_iff]
  exact ⟨fun ⟨hx, hy, heq⟩ => ⟨hy, hx, beq_symm heq⟩, fun ⟨hy, hx, heq⟩ => ⟨hx, hy, beq_symm heq⟩⟩

end Double

theorem Num.equal_comm (a b : Num) : a.equal b = b.equal a := by
  have hmixed (m : Int) (y : Float) :
      (Num.int m).equal (.float y) = (Num.float y).equal (.int m) := by
    change (Double.compareInt? m y == some .eq) =
      ((Double.compareInt? m y).map Ordering.swap == some .eq)
    cases Double.compareInt? m y with
    | none => rfl
    | some o => cases o <;> rfl
  cases a with
  | int m =>
    cases b with
    | int n =>
      rw [Bool.eq_iff_iff]
      simp only [equal, compare?, beq_iff_eq, Option.some.injEq, Int.compare_eq_eq]
      exact eq_comm
    | float y => exact hmixed m y
  | float x =>
    cases b with
    | int n => exact (hmixed n x).symm
    | float y =>
      rw [Bool.eq_iff_iff]
      exact beq_iff_eq.trans ((Double.compare?_eq_comm x y).trans beq_iff_eq.symm)

namespace Store

/-! ## Arrays inside themselves -/

/-- Whether no array that a value holds is held by one of its own items. -/
def Acyclic (s : Store) (v : Value) : Prop :=
  ∀ r items, s.Holds r v → s.items? (.ref r) = some items → ∀ item ∈ items, ¬ s.Holds r item

variable {s : Store} {v : Value}

/-- Arrays of values that were there before them are not inside themselves. -/
theorem acyclic_of_older (h : ∀ r items, s.items? (.ref r) = some items →
    ∀ t, .ref t ∈ items → t < r) (v : Value) : s.Acyclic v := by
  have hdown {r t : Ref} {u : Value} (hholds : s.Holds r u) (hu : u = .ref t) : r ≤ t := by
    induction hholds generalizing t with
    | self =>
      cases hu
      exact Nat.le_refl _
    | @item u item items hitems hitem hholds ih =>
      subst hu
      cases item with
      | ref t' => exact (ih rfl).trans (h t items hitems t' hitem).le
      | _ => cases hholds with
        | item hnone => cases hnone
  intro r items _ hitems item hitem hholds
  cases item with
  | ref t => exact absurd (hdown hholds rfl) (Nat.not_le_of_lt (h r items hitems t hitem))
  | _ => cases hholds with
    | item hnone => cases hnone

section

open scoped Classical

variable {item : Value} {items : List Value}

theorem acyclic_item (h : s.Acyclic v) (hitems : s.items? v = some items) (hitem : item ∈ items) :
    s.Acyclic item :=
  fun r _ hholds => h r _ (.item hitems hitem hholds)

/-- The places of the objects that a value holds. -/
noncomputable def held (s : Store) (v : Value) : Finset Ref :=
  {r ∈ Finset.range s.size | s.Holds r v}

theorem card_held_le (s : Store) (v : Value) : (s.held v).card ≤ s.size :=
  (Finset.card_filter_le _ _).trans_eq (Finset.card_range _)

/-- An item of an array holds less than the array, unless that is inside itself. -/
theorem card_held_lt {r : Ref} (h : s.Acyclic (.ref r)) (hitems : s.items? (.ref r) = some items)
    (hitem : item ∈ items) : (s.held item).card < (s.held (.ref r)).card := by
  have hless : s.held item ⊆ s.held (.ref r) :=
    Finset.monotone_filter_right _ fun _ _ hholds => .item hitems hitem hholds
  have hr : r < s.size := by
    rw [items?_ref, Option.bind_eq_some_iff] at hitems
    obtain ⟨o, ho, -⟩ := hitems
    exact (Array.getElem?_eq_some_iff.1 ho).1
  refine Finset.card_lt_card ((Finset.ssubset_iff_of_subset hless).2 ⟨r, ?_, ?_⟩)
  · exact Finset.mem_filter.2 ⟨Finset.mem_range.2 hr, .self⟩
  · exact fun hmem => h r items .self hitems item hitem (Finset.mem_filter.1 hmem).2

end

/-! ## Limits -/

/-- A computation fails for nothing but a numeral that is too long. -/
def Limited {α : Type} (x : Except Fault α) : Prop := ∀ e, x = .error e → e = .badValue

section

variable {α β : Type}

theorem limited_bind {x : Except Fault α} {f : α → Except Fault β} (hx : Limited x)
    (hf : ∀ a, x = .ok a → Limited (f a)) : Limited (x >>= f) := fun e he => by
  obtain he | ⟨a, ha, he⟩ := Except.bind_eq_error.1 he
  · exact hx e he
  · exact hf a ha e he

theorem limited_mapM {f : α → Except Fault β} {xs : List α} (h : ∀ x ∈ xs, Limited (f x)) :
    Limited (xs.mapM f) := by
  induction xs with
  | nil => exact nofun
  | cons x xs ih =>
    rw [List.mapM_cons]
    refine limited_bind (h x List.mem_cons_self) fun y _ => ?_
    exact limited_bind (ih fun z hz => h z (List.mem_cons_of_mem x hz)) fun ys _ => nofun

end

theorem limited_write (n : Num) : Limited n.write := fun _ he => (Num.write_eq_error_iff.1 he).2

theorem limited_textToNumber (t : Text) : Limited (textToNumber t) := by
  unfold textToNumber
  dsimp only
  split_ifs
  · exact nofun
  · split
    · rename_i n _
      obtain hread | ⟨hlong, -⟩ := Numeral.accept_eq t.strip n
      · rw [hread]
        exact nofun
      · rw [hlong]
        exact fun e he => (Except.error.inj he).symm
    · exact nofun

/-- The text of a value that holds fewer objects than there is fuel. -/
theorem limited_textWithin {n : Nat} (h : s.Acyclic v) (hheld : (s.held v).card < n) :
    Limited (s.textWithin n v) := by
  induction n generalizing v with
  | zero => exact absurd hheld (Nat.not_lt_zero _)
  | succ n ih =>
    cases v with
    | ref r =>
      rw [textWithin_ref]
      cases hitems : s.items? (.ref r) with
      | none => exact nofun
      | some items =>
        refine limited_bind (limited_mapM fun item hmem => ?_) fun texts _ => nofun
        -- An item holds fewer objects than the array, so less fuel is enough for it.
        have hless := card_held_lt h hitems hmem
        split
        · exact nofun
        · exact ih (acyclic_item h hitems hmem) (by omega)
    | num n => exact limited_write n
    | _ => exact nofun

theorem limited_toPrimitive (h : s.Acyclic v) : Limited (s.toPrimitive v) := by
  cases v with
  | ref r =>
    have htext := limited_textWithin h (Nat.lt_succ_of_le (s.card_held_le (.ref r)))
    exact limited_bind htext fun _ _ => nofun
  | _ => exact nofun

/-! ## Equal values -/

theorem strictEquals_comm (a b : Value) : strictEquals a b = strictEquals b a := by
  cases a <;> cases b
  case num.num m n => exact m.equal_comm n
  all_goals first
    | rfl
    | exact Bool.beq_comm

/-- Values that are strictly equal are both missing or neither is. -/
theorem isNothing_of_strictEquals {a b : Value} (h : strictEquals a b = true) :
    isNothing a = isNothing b := by
  cases a <;> cases b <;> first | rfl | cases h

theorem typeName_of_strictEquals {a b : Value} (h : strictEquals a b = true) :
    s.typeName a = s.typeName b := by
  cases a <;> cases b
  case ref.ref r t => rw [beq_iff_eq.1 h]
  all_goals first
    | rfl
    | cases h

theorem settleEquals_comm (a b : Value) : settleEquals a b = settleEquals b a := by
  unfold settleEquals
  cases unBool a <;> cases unBool b
  case num.text m t => exact bind_congr fun n => congrArg Except.ok (m.equal_comm n)
  case text.num t n => exact bind_congr fun m => congrArg Except.ok (m.equal_comm n)
  all_goals exact congrArg Except.ok (strictEquals_comm _ _)

/-- Comparing a number and a text fails if the text is not read as a number. -/
theorem text_of_settleEquals {a b : Value} {e : Fault} (h : settleEquals a b = .error e) :
    ∃ t, (a = .text t ∨ b = .text t) ∧ textToNumber t = .error e := by
  have unbooled {v : Value} {t : Text} (h : unBool v = .text t) : v = .text t := by
    cases v <;> first | exact h | cases h
  unfold settleEquals at h
  split at h
  · rename_i m t _ ht
    obtain h | ⟨_, -, h⟩ := Except.bind_eq_error.1 h
    · exact ⟨t, .inr (unbooled ht), h⟩
    · cases h
  · rename_i t n ht _
    obtain h | ⟨_, -, h⟩ := Except.bind_eq_error.1 h
    · exact ⟨t, .inl (unbooled ht), h⟩
    · cases h
  · cases h

/-- A value is beyond the limit for loose equality: it is an array in which an integer is too large
for its text to be written, or its text has too many digits to be read as a number. -/
def Overlong (s : Store) (v : Value) : Prop :=
  s.toPrimitive v = .error .badValue ∨
    ∃ t, s.toPrimitive v = .ok (.text t) ∧ textToNumber t = .error .badValue

/-- Loose equality of values without arrays inside themselves fails only for a value beyond the
limit. -/
theorem overlong_of_looseEquals {a b : Value} (ha : s.Acyclic a) (hb : s.Acyclic b) {e : Fault}
    (h : s.looseEquals a b = .error e) : e = .badValue ∧ (s.Overlong a ∨ s.Overlong b) := by
  rw [looseEquals_settle] at h
  split_ifs at h
  obtain h | ⟨a', ha', h⟩ := Except.bind_eq_error.1 h
  · obtain rfl := limited_toPrimitive ha e h
    exact ⟨rfl, .inl (.inl h)⟩
  obtain h | ⟨b', hb', h⟩ := Except.bind_eq_error.1 h
  · obtain rfl := limited_toPrimitive hb e h
    exact ⟨rfl, .inr (.inl h)⟩
  obtain ⟨t, ht, hread⟩ := text_of_settleEquals h
  obtain rfl := limited_textToNumber t e hread
  rcases ht with rfl | rfl
  · exact ⟨rfl, .inl (.inr ⟨t, ha', hread⟩)⟩
  · exact ⟨rfl, .inr (.inr ⟨t, hb', hread⟩)⟩

theorem compareConverted_comm {a b : Value} (ha : s.Acyclic a) (hb : s.Acyclic b) :
    s.compareConverted a b = s.compareConverted b a := by
  rw [compareConverted, compareConverted]
  cases ha' : s.toPrimitive a with
  | error e =>
    obtain rfl := limited_toPrimitive ha e ha'
    cases hb' : s.toPrimitive b with
    | error e =>
      obtain rfl := limited_toPrimitive hb e hb'
      rfl
    | ok b' => rfl
  | ok a' =>
    cases s.toPrimitive b with
    | error e => rfl
    | ok b' => exact settleEquals_comm a' b'

/-- Loose equality of values without arrays inside themselves is the same in either order of the
operands. -/
theorem looseEquals_comm {a b : Value} (ha : s.Acyclic a) (hb : s.Acyclic b) :
    s.looseEquals a b = s.looseEquals b a := by
  rw [looseEquals_settle, looseEquals_settle, Bool.or_comm, Bool.and_comm, strictEquals_comm a,
    compareConverted_comm ha hb]
  simp only [eq_comm (a := s.typeName a)]

theorem looseEquals_of_kind {a b : Value} (h : s.typeName a = s.typeName b)
    (ha : isNothing a = false) (hb : isNothing b = false) :
    s.looseEquals a b = .ok (strictEquals a b) := by
  rw [looseEquals_settle, ha, hb, if_neg (by decide), if_pos h]

theorem looseEquals_of_strictEquals {a b : Value} (h : strictEquals a b = true) :
    s.looseEquals a b = .ok true := by
  have hnothing := isNothing_of_strictEquals h
  cases ha : isNothing a with
  | false => rw [looseEquals_of_kind (typeName_of_strictEquals h) ha (hnothing ▸ ha), h]
  | true =>
    rw [looseEquals_settle, ← hnothing, ha]
    rfl

/-- Loose and strict equality, for values without arrays inside themselves. -/
theorem looseEquals_lawful {a b : Value} (ha : s.Acyclic a) (hb : s.Acyclic b) :
    s.looseEquals a b = s.looseEquals b a ∧
      ((∃ r, s.looseEquals a b = .ok r) ∨
        s.looseEquals a b = .error .badValue ∧ (s.Overlong a ∨ s.Overlong b)) ∧
      strictEquals a b = strictEquals b a ∧
      (strictEquals a b = true → s.looseEquals a b = .ok true) ∧
      (s.typeName a = s.typeName b → isNothing a = false → isNothing b = false →
        s.looseEquals a b = .ok (strictEquals a b)) := by
  refine ⟨looseEquals_comm ha hb, ?_, strictEquals_comm a b, looseEquals_of_strictEquals,
    looseEquals_of_kind⟩
  cases h : s.looseEquals a b with
  | ok r => exact .inl ⟨r, rfl⟩
  | error e =>
    obtain ⟨rfl, hlong⟩ := overlong_of_looseEquals ha hb h
    exact .inr ⟨rfl, hlong⟩

/-- The array `[[1]]` and the truth value true, which are loosely equal though not strictly. -/
theorem looseEquals_lawful_nested :
    let s : Store := #[.list [.num (.int 1)], .list [.ref 0]]
    s.Acyclic (.ref 1) ∧ s.Acyclic (.bool true) ∧
      s.looseEquals (.ref 1) (.bool true) = .ok true ∧
      s.looseEquals (.bool true) (.ref 1) = .ok true ∧
      strictEquals (.bool true) (.ref 1) = false := by
  intro s
  have holder (r : Ref) (items : List Value) (hitems : s.items? (.ref r) = some items) (t : Ref)
      (ht : .ref t ∈ items) : t < r := by
    match r, hitems with
    | 0, hitems =>
      cases hitems
      cases List.mem_singleton.1 ht
    | 1, hitems =>
      cases hitems
      cases List.mem_singleton.1 ht
      exact Nat.one_pos
  have harray := acyclic_of_older holder (.ref 1)
  have hbool := acyclic_of_older holder (.bool true)
  have hloose : s.looseEquals (.ref 1) (.bool true) = .ok true := by
    rw [looseEquals_settle]
    rfl
  obtain ⟨hcomm, -, hstrict, -, -⟩ := looseEquals_lawful harray hbool
  exact ⟨harray, hbool, hloose, hcomm ▸ hloose, hstrict.symm⟩

/-- An array of an integer that is too large to be written has no text to be compared. -/
theorem looseEquals_large {n : Int} (hn : ¬ n.natAbs < 10 ^ Numeral.maxDigits) :
    let s : Store := #[.list [.num (.int n)]]
    s.looseEquals (.ref 0) (.num (.int 1)) = .error .badValue ∧ s.Overlong (.ref 0) := by
  intro s
  have hwrite : (Num.int n).write = .error .badValue :=
    Num.write_of_not (mt Num.isWritable_int.1 hn)
  have hitems : s.textWithin 2 (.ref 0) = .error .badValue := by
    rw [textWithin_ref]
    show ([Value.num (.int n)].mapM _ >>= _) = _
    rw [List.mapM_cons]
    show (((Num.int n).write >>= _) >>= _) = _
    rw [hwrite]
    rfl
  have htext : s.toPrimitive (.ref 0) = .error .badValue := by
    show (s.textWithin 2 (.ref 0) >>= _) = _
    rw [hitems]
    rfl
  refine ⟨?_, .inl htext⟩
  rw [looseEquals_settle]
  show (s.toPrimitive (.ref 0) >>= _) = _
  rw [htext]
  rfl

/-- Ten to the power of the limit is too large. -/
theorem looseEquals_overlong :
    let s : Store := #[.list [.num (.int (10 ^ Numeral.maxDigits : Nat))]]
    s.Acyclic (.ref 0) ∧ s.Acyclic (.num (.int 1)) ∧
      s.looseEquals (.ref 0) (.num (.int 1)) = .error .badValue ∧ s.Overlong (.ref 0) := by
  intro s
  have holder (r : Ref) (items : List Value) (hitems : s.items? (.ref r) = some items) (t : Ref)
      (ht : .ref t ∈ items) : t < r := by
    match r, hitems with
    | 0, hitems =>
      cases hitems
      cases List.mem_singleton.1 ht
  exact ⟨acyclic_of_older holder _, acyclic_of_older holder _, looseEquals_large (lt_irrefl _)⟩

end Store

end GuardedText
