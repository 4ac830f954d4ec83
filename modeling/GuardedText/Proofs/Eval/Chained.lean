import GuardedText.Proofs.Guard.Build

/-
  Where optional accesses stand. Evaluation leaves an optional access whose base is missing, and
  only a chain catches this. An expression is well formed in this respect if every optional access
  lies on the spine of a chain, that is, if it is reached from the chain through the objects of
  accesses and the functions of calls alone (`Expr.Chained`). What is built from a tree always is
  (`Tree.chained_of_build`): an optional access opens a chain unless its object is an open one.
-/

namespace GuardedText

/-! ## Optional accesses on the spines of chains -/

mutual

/-- Every optional access in an expression lies on the spine of a chain in it or, where the
expression itself lies on one, on its own spine. -/
def Expr.Chained (inside : Bool) : Expr → Prop
  | .literal _ | .name _ => True
  | .array items => chainedItems items
  | .object entries => chainedEntries entries
  | .unary _ e | .deleteValue e | .await e | .arrow _ e => e.Chained false
  | .delete place => place.Chained
  | .binary _ l r | .logical _ l r => l.Chained false ∧ r.Chained false
  | .conditional t c a => t.Chained false ∧ c.Chained false ∧ a.Chained false
  | .assign _ place value => place.Chained ∧ value.Chained false
  | .sequence parts => chainedAll parts
  | .member o _ optional => (optional = true → inside = true) ∧ o.Chained inside
  | .index o k optional => (optional = true → inside = true) ∧ o.Chained inside ∧ k.Chained false
  | .call callee arguments optional =>
    (optional = true → inside = true) ∧ callee.Chained inside ∧ chainedItems arguments
  | .chain body _ => body.Chained true

/-- What is asked of a place. -/
def Place.Chained : Place → Prop
  | .name _ => True
  | .member object _ => object.Chained false
  | .index object key => object.Chained false ∧ key.Chained false

/-- What is asked of some expressions. -/
def chainedAll : List Expr → Prop
  | [] => True
  | e :: es => e.Chained false ∧ chainedAll es

/-- What is asked of some items. -/
def chainedItems : List Item → Prop
  | [] => True
  | .single e :: items | .spread e :: items => e.Chained false ∧ chainedItems items

/-- What is asked of some entries. -/
def chainedEntries : List Entry → Prop
  | [] => True
  | .named _ e :: entries | .spread e :: entries => e.Chained false ∧ chainedEntries entries
  | .computed k e :: entries => k.Chained false ∧ e.Chained false ∧ chainedEntries entries

end

/-- What needs no chain around it may stand on the spine of one. -/
theorem Expr.chained_within {inside : Bool} : ∀ e : Expr, e.Chained false → e.Chained inside
  | .literal _, h | .name _, h | .array _, h | .object _, h | .unary _ _, h | .delete _, h
  | .deleteValue _, h | .await _, h | .binary _ _ _, h | .logical _ _ _, h
  | .conditional _ _ _, h | .assign _ _ _, h | .sequence _, h | .arrow _ _, h | .chain _ _, h => h
  | .member o _ _, h => ⟨fun hoptional => (nomatch h.1 hoptional), o.chained_within h.2⟩
  | .index o _ _, h => ⟨fun hoptional => (nomatch h.1 hoptional), o.chained_within h.2.1, h.2.2⟩
  | .call f _ _, h => ⟨fun hoptional => (nomatch h.1 hoptional), f.chained_within h.2.1, h.2.2⟩

/-! ## Built expressions -/

theorem Place.chained_of_place? {e : Expr} {place : Place} (he : e.Chained false)
    (h : e.place? = some place) : place.Chained := by
  unfold Expr.place? at h
  split at h <;> cases h
  · trivial
  · exact he.2
  · exact he.2

theorem Expr.chained_remove {e : Expr} (he : e.Chained false) : e.remove.Chained false := by
  unfold Expr.remove
  split
  · rename_i place hplace
    exact Place.chained_of_place? he hplace
  · exact he

theorem chainedAll_append {es fs : List Expr} (hes : chainedAll es) (hfs : chainedAll fs) :
    chainedAll (es ++ fs) := by
  induction es with
  | nil => exact hfs
  | cons e es ih => exact ⟨hes.1, ih hes.2⟩

theorem Expr.chained_followedBy {e f : Expr} (he : e.Chained false) (hf : f.Chained false) :
    (e.followedBy f).Chained false := by
  unfold Expr.followedBy
  split
  · exact chainedAll_append he ⟨hf, trivial⟩
  · exact ⟨he, hf, trivial⟩

theorem Expr.chained_parenthesized {e : Expr} (he : e.Chained false) :
    e.parenthesized.Chained false := by
  unfold Expr.parenthesized
  split <;> exact he

/-- An optional access comes to stand on the spine of a chain: of that of its object, if it is open,
or of a new one. -/
theorem Build.chained_access {optional : Bool} {object : Expr} {make : Expr → Expr}
    (hobject : object.Chained false)
    (hmake : ∀ inside, (optional = true → inside = true) → ∀ e : Expr, e.Chained inside →
      (make e).Chained inside) : (Build.access optional object make).Chained false := by
  unfold Build.access Expr.extendOptional Expr.extend
  split
  · split
    · exact hmake true (fun _ => rfl) _ hobject
    · exact hmake true (fun _ => rfl) _ (object.chained_within hobject)
  · rename_i hplain
    split
    · exact hmake true (fun _ => rfl) _ hobject
    · exact hmake false (fun hoptional => absurd hoptional hplain) _ hobject

mutual

/-- In what a tree is built as every optional access lies on the spine of a chain. -/
theorem Tree.BuiltAs.chained : ∀ {t : Tree} {e : Expr}, t.BuiltAs e → e.Chained false
  | _, _, .number _ | _, _, .string _ | _, _, .constant | _, _, .name => trivial
  | _, _, .array hitems => hitems.chained
  | _, _, .object hentries => hentries.chained
  | _, _, .paren h => Expr.chained_parenthesized h.chained
  | _, _, .member h => Build.chained_access h.chained fun _ hinside _ he => ⟨hinside, he⟩
  | _, _, .index h hkey =>
    Build.chained_access h.chained fun _ hinside _ he => ⟨hinside, he, hkey.chained⟩
  | _, _, .call h hitems =>
    Build.chained_access h.chained fun _ hinside _ he => ⟨hinside, he, hitems.chained⟩
  | _, _, .unary h | _, _, .await h | _, _, .arrow h _ => h.chained
  | _, _, .delete h => Expr.chained_remove h.chained
  | _, _, .binary hleft hright | _, _, .logical hleft hright => ⟨hleft.chained, hright.chained⟩
  | _, _, .conditional htest hconsequent halternate =>
    ⟨htest.chained, hconsequent.chained, halternate.chained⟩
  | _, _, .assign htarget hplace hvalue =>
    ⟨Place.chained_of_place? htarget.chained hplace, hvalue.chained⟩
  | _, _, .sequence hleft hright => Expr.chained_followedBy hleft.chained hright.chained

theorem BuiltItems.chained : ∀ {items : List TreeItem} {es : List Item}, BuiltItems items es →
    chainedItems es
  | _, _, .nil => trivial
  | _, _, .single h hrest | _, _, .spread h hrest => ⟨h.chained, hrest.chained⟩

theorem BuiltEntries.chained : ∀ {entries : List TreeEntry} {es : List Entry},
    BuiltEntries entries es → chainedEntries es
  | _, _, .nil => trivial
  | _, _, .named h hrest | _, _, .spread h hrest | _, _, .string _ h hrest
  | _, _, .number _ h hrest => ⟨h.chained, hrest.chained⟩
  | _, _, .computed hkey h hrest => ⟨hkey.chained, h.chained, hrest.chained⟩
  | _, _, .shorthand hrest => ⟨trivial, hrest.chained⟩

end

/-- In an expression that was built every optional access lies on the spine of a chain. -/
theorem Tree.chained_of_build (t : Tree) {e : Expr} (h : t.build = .ok e) : e.Chained false :=
  (t.builtAs h).chained

end GuardedText
