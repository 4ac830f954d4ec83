import GuardedText.Proofs.Scope.Frames

/-
  What becomes of objects where properties are left alone. Tables of variables take other values for
  their names and values that were waited for are taken (`Obj.Renewed`); everything else stays. A
  store `Grows` if nothing in it goes, no frame changes, no table but a context gains or loses a
  name, and the built-ins stay what they are.
-/

namespace GuardedText

/-! ## Objects that change -/

/-- What an object may have become: a table may have taken other values for its names, and a value
that was waited for may be taken. -/
inductive Obj.Renewed : Obj → Obj → Prop where
  | same (o : Obj) : Renewed o o
  | bound {entries entries' : Entries} (h : Table.keys entries' = Table.keys entries) :
      Renewed (.dict entries) (.dict entries')
  | awaited (state state' : Pending) : Renewed (.pending state) (.pending state')

namespace Obj.Renewed

variable {o p q : Obj}

theorem isPlain_iff (h : o.Renewed p) : o.IsPlain ↔ p.IsPlain := by
  cases h <;> exact Iff.rfl

theorem scope?_eq (h : o.Renewed p) : p.scope? = o.scope? := by
  cases h <;> rfl

theorem trans (h : o.Renewed p) (h' : p.Renewed q) : o.Renewed q := by
  cases h with
  | same => exact h'
  | bound h =>
    cases h' with
    | same => exact .bound h
    | bound h' => exact .bound (h'.trans h)
  | awaited =>
    cases h' with
    | same | awaited => exact .awaited _ _

/-- A function stays what it is. -/
theorem arrow {params : List Text} {body : Expr} {frame : Ref} {attributes : Attributes}
    (h : Obj.Renewed (.arrow params body frame attributes) p) :
    p = .arrow params body frame attributes := by
  cases h
  rfl

theorem of_arrow {params : List Text} {body : Expr} {frame : Ref} {attributes : Attributes}
    (h : o.Renewed (.arrow params body frame attributes)) :
    o = .arrow params body frame attributes := by
  cases h
  rfl

end Obj.Renewed

namespace Store

variable {s s' s'' : Store}

/-! ## Growing -/

theorem getElem?_push_of_eq (o : Obj) {r : Ref} {p : Obj} (hr : s[r]? = some p) :
    (s.push o)[r]? = some p := by
  rw [Array.getElem?_push, if_neg (Nat.ne_of_lt (Array.getElem?_eq_some_iff.1 hr).1), hr]

/-- Nothing goes and no frame changes; nothing but contexts gains or loses names, and the built-ins
stay. -/
structure Grows (s s' : Store) : Prop where
  objects : ∀ {r : Ref} {o : Obj}, s[r]? = some o → ∃ o', s'[r]? = some o' ∧
    (o.Renewed o' ∨ s'.IsContext r ∧ o.IsPlain ∧ o'.IsPlain)
  builtins : ∀ {r : Ref}, s.IsBuiltins r → ∀ {o : Obj}, s[r]? = some o → s'[r]? = some o

namespace Grows

section

variable (h : s.Grows s')
include h

/-- No frame changes. -/
theorem frame? {r : Ref} {frame : Ref × Option Ref × Ref} (hframe : s.frame? r = some frame) :
    s'.frame? r = some frame := by
  obtain ⟨locals, parent, globals⟩ := frame
  rw [frame?_eq_some] at hframe ⊢
  obtain ⟨o', hr', ho | ⟨-, ho, -⟩⟩ := h.objects hframe
  · cases ho with
    | same => exact hr'
  · exact ho.elim

theorem frame?_isSome {r : Ref} (hframe : (s.frame? r).isSome) : (s'.frame? r).isSome := by
  obtain ⟨frame, hframe⟩ := Option.isSome_iff_exists.1 hframe
  rw [h.frame? hframe]
  rfl

theorem isContext {table : Ref} : s.IsContext table → s'.IsContext table
  | ⟨globals, r, hr⟩ => ⟨globals, r, h.frame? hr⟩

theorem isVariables {table : Ref} : s.IsVariables table → s'.IsVariables table
  | ⟨parent, globals, r, hr⟩ => ⟨parent, globals, r, h.frame? hr⟩

theorem isBuiltins {table : Ref} : s.IsBuiltins table → s'.IsBuiltins table
  | ⟨locals, parent, r, hr⟩ => ⟨locals, parent, r, h.frame? hr⟩

theorem size : s.size ≤ s'.size := by
  refine Nat.le_of_not_lt fun hlt => ?_
  obtain ⟨o', hr', -⟩ := h.objects (Array.getElem?_eq_getElem hlt)
  exact absurd (Array.getElem?_eq_some_iff.1 hr').1 (Nat.lt_irrefl _)

/-- Nothing but a context gains or loses names. -/
theorem names? {table : Ref} (hne : ¬ s'.IsContext table) {names : List Key}
    (hnames : s.names? table = some names) : s'.names? table = some names := by
  unfold Store.names? Store.entries? Store.get? at hnames ⊢
  cases hr : s[table]? with
  | none => simp [hr] at hnames
  | some o =>
    obtain ⟨o', hr', ho⟩ := h.objects hr
    simp only [hr] at hnames
    simp only [hr']
    cases ho.resolve_right fun ho => hne ho.1 with
    | same => exact hnames
    | bound hkeys =>
      simp only [Option.map_some, Option.some.injEq] at hnames ⊢
      rw [hkeys, hnames]
    | awaited => simp at hnames

/-- A table that is no context stays a table. -/
theorem isTable {table : Ref} (hne : ¬ s'.IsContext table) (hr : s.IsTable table) :
    s'.IsTable table := by
  obtain ⟨entries, hr⟩ := hr
  obtain ⟨o', hr', ho⟩ := h.objects hr
  cases ho.resolve_right fun ho => hne ho.1 with
  | same | bound => exact ⟨_, hr'⟩

/-- An object of the caller stays one. -/
theorem plain {r : Ref} (hr : ∃ o, s[r]? = some o ∧ o.IsPlain) :
    ∃ o, s'[r]? = some o ∧ o.IsPlain := by
  obtain ⟨o, hr, hplain⟩ := hr
  obtain ⟨o', hr', hrenewed | ⟨-, -, hplain'⟩⟩ := h.objects hr
  · exact ⟨o', hr', hrenewed.isPlain_iff.1 hplain⟩
  · exact ⟨o', hr', hplain'⟩

/-- A function stays what it is. -/
theorem arrow {r frame : Ref} {params : List Text} {body : Expr} {attributes : Attributes}
    (hr : s[r]? = some (.arrow params body frame attributes)) :
    s'[r]? = some (.arrow params body frame attributes) := by
  obtain ⟨o', hr', ho | ⟨-, ho, -⟩⟩ := h.objects hr
  · exact ho.arrow ▸ hr'
  · exact ho.elim

theorem trans (h' : s'.Grows s'') : s.Grows s'' where
  objects hr := by
    obtain ⟨o', hr', ho⟩ := h.objects hr
    obtain ⟨o'', hr'', ho'⟩ := h'.objects hr'
    refine ⟨o'', hr'', ?_⟩
    rcases ho with ho | ⟨hc, ho, hp⟩
    · rcases ho' with ho' | ⟨hc, hp, hq⟩
      · exact .inl (ho.trans ho')
      · exact .inr ⟨hc, ho.isPlain_iff.2 hp, hq⟩
    · rcases ho' with ho' | ⟨-, -, hq⟩
      · exact .inr ⟨h'.isContext hc, ho, ho'.isPlain_iff.1 hp⟩
      · exact .inr ⟨h'.isContext hc, ho, hq⟩
  builtins hbuiltins _ hr := h'.builtins (h.isBuiltins hbuiltins) (h.builtins hbuiltins hr)

end

theorem refl (s : Store) : s.Grows s where
  objects hr := ⟨_, hr, .inl (.same _)⟩
  builtins _ _ hr := hr

theorem push (o : Obj) : s.Grows (s.push o) where
  objects hr := ⟨_, getElem?_push_of_eq o hr, .inl (.same _)⟩
  builtins _ _ hr := getElem?_push_of_eq o hr

theorem set {r : Ref} {o o' : Obj} (hr : s[r]? = some o)
    (ho : o.Renewed o' ∨ s.IsContext r ∧ o.IsPlain ∧ o'.IsPlain)
    (hbuiltins : ¬ s.IsBuiltins r) : s.Grows (s.setIfInBounds r o') where
  objects {t p} ht := by
    rw [Array.getElem?_setIfInBounds]
    split
    · rename_i hrt
      subst hrt
      obtain rfl := Option.some.inj (hr.symm.trans ht)
      rw [if_pos (Array.getElem?_eq_some_iff.1 hr).1]
      refine ⟨o', rfl, ho.imp_right fun ⟨⟨globals, f, hf⟩, hplain, hplain'⟩ => ?_⟩
      refine ⟨⟨globals, f, ?_⟩, hplain, hplain'⟩
      rw [frame?_setIfInBounds hr (by rw [hplain.scope?_eq, hplain'.scope?_eq]), hf]
    · exact ⟨p, ht, .inl (.same p)⟩
  builtins {t} hb p ht := by
    rw [Array.getElem?_setIfInBounds, if_neg, ht]
    rintro rfl
    exact hbuiltins hb

end Grows

end Store

end GuardedText
