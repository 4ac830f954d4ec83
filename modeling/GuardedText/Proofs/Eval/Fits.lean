import GuardedText.Eval.Expr
import GuardedText.Proofs.Guard.Build

/-
  Where an expression may wait. An expression fits where waiting is allowed if no function in it
  waits, and where waiting is forbidden if nothing in it does (`Expr.Fits`). What is built from a
  tree always fits where waiting is allowed (`Tree.fits_of_build`).
-/

namespace GuardedText

/-! ## Where an expression may wait -/

mutual

/-- No function in an expression waits and, where that is forbidden, nothing in it does. -/
def Expr.Fits (waiting : Waiting) : Expr → Prop
  | .literal _ | .name _ => True
  | .array items => fitsItems waiting items
  | .object entries => fitsEntries waiting entries
  | .unary _ e | .deleteValue e | .chain e _ | .member e _ _ => e.Fits waiting
  | .delete place => place.Fits waiting
  | .await e => waiting = .allowed ∧ e.Fits waiting
  | .binary _ l r | .logical _ l r | .index l r _ => l.Fits waiting ∧ r.Fits waiting
  | .conditional t c a => t.Fits waiting ∧ c.Fits waiting ∧ a.Fits waiting
  | .assign _ place value => place.Fits waiting ∧ value.Fits waiting
  | .sequence parts => fitsAll waiting parts
  | .call callee arguments _ => callee.Fits waiting ∧ fitsItems waiting arguments
  | .arrow _ body => body.suspends = false

/-- What fits in a place. -/
def Place.Fits (waiting : Waiting) : Place → Prop
  | .name _ => True
  | .member object _ => object.Fits waiting
  | .index object key => object.Fits waiting ∧ key.Fits waiting

/-- What fits in some expressions. -/
def fitsAll (waiting : Waiting) : List Expr → Prop
  | [] => True
  | e :: es => e.Fits waiting ∧ fitsAll waiting es

/-- What fits in some items. -/
def fitsItems (waiting : Waiting) : List Item → Prop
  | [] => True
  | .single e :: items | .spread e :: items => e.Fits waiting ∧ fitsItems waiting items

/-- What fits in some entries. -/
def fitsEntries (waiting : Waiting) : List Entry → Prop
  | [] => True
  | .named _ e :: entries | .spread e :: entries => e.Fits waiting ∧ fitsEntries waiting entries
  | .computed k e :: entries => k.Fits waiting ∧ e.Fits waiting ∧ fitsEntries waiting entries

end

mutual

/-- An expression that does not wait fits everywhere. -/
theorem Expr.fits_of_not_suspends {waiting : Waiting} :
    ∀ e : Expr, e.suspends = false → e.Fits waiting
  | .literal _, _ | .name _, _ => trivial
  | .array items, h => fitsItems_of_not_suspends items h
  | .object entries, h => fitsEntries_of_not_suspends entries h
  | .unary _ e, h | .deleteValue e, h | .chain e _, h | .member e _ _, h =>
    e.fits_of_not_suspends h
  | .delete place, h => place.fits_of_not_suspends h
  | .await _, h => nomatch h
  | .binary _ l r, h | .logical _ l r, h | .index l r _, h => by
    simp only [Expr.suspends, Bool.or_eq_false_iff] at h
    exact ⟨l.fits_of_not_suspends h.1, r.fits_of_not_suspends h.2⟩
  | .conditional t c a, h => by
    simp only [Expr.suspends, Bool.or_eq_false_iff] at h
    exact ⟨t.fits_of_not_suspends h.1.1, c.fits_of_not_suspends h.1.2, a.fits_of_not_suspends h.2⟩
  | .assign _ place value, h => by
    simp only [Expr.suspends, Bool.or_eq_false_iff] at h
    exact ⟨place.fits_of_not_suspends h.1, value.fits_of_not_suspends h.2⟩
  | .sequence parts, h => fitsAll_of_not_suspends parts h
  | .call callee arguments _, h => by
    simp only [Expr.suspends, Bool.or_eq_false_iff] at h
    exact ⟨callee.fits_of_not_suspends h.1, fitsItems_of_not_suspends arguments h.2⟩
  | .arrow _ _, h => h

theorem Place.fits_of_not_suspends {waiting : Waiting} :
    ∀ place : Place, place.suspends = false → place.Fits waiting
  | .name _, _ => trivial
  | .member object _, h => object.fits_of_not_suspends h
  | .index object key, h => by
    simp only [Place.suspends, Bool.or_eq_false_iff] at h
    exact ⟨object.fits_of_not_suspends h.1, key.fits_of_not_suspends h.2⟩

theorem fitsAll_of_not_suspends {waiting : Waiting} :
    ∀ es : List Expr, suspendsAny es = false → fitsAll waiting es
  | [], _ => trivial
  | e :: es, h => by
    simp only [suspendsAny, Bool.or_eq_false_iff] at h
    exact ⟨e.fits_of_not_suspends h.1, fitsAll_of_not_suspends es h.2⟩

theorem fitsItems_of_not_suspends {waiting : Waiting} :
    ∀ items : List Item, suspendsItems items = false → fitsItems waiting items
  | [], _ => trivial
  | .single e :: items, h | .spread e :: items, h => by
    simp only [suspendsItems, Bool.or_eq_false_iff] at h
    exact ⟨e.fits_of_not_suspends h.1, fitsItems_of_not_suspends items h.2⟩

theorem fitsEntries_of_not_suspends {waiting : Waiting} :
    ∀ entries : List Entry, suspendsEntries entries = false → fitsEntries waiting entries
  | [], _ => trivial
  | .named _ e :: entries, h | .spread e :: entries, h => by
    simp only [suspendsEntries, Bool.or_eq_false_iff] at h
    exact ⟨e.fits_of_not_suspends h.1, fitsEntries_of_not_suspends entries h.2⟩
  | .computed k e :: entries, h => by
    simp only [suspendsEntries, Bool.or_eq_false_iff] at h
    exact ⟨k.fits_of_not_suspends h.1.1, e.fits_of_not_suspends h.1.2,
      fitsEntries_of_not_suspends entries h.2⟩

end

/-! ## Built expressions -/

section

variable {waiting : Waiting}

theorem Place.fits_of_place? {e : Expr} {place : Place} (he : e.Fits waiting)
    (h : e.place? = some place) : place.Fits waiting := by
  unfold Expr.place? at h
  split at h <;> cases h
  · trivial
  · exact he
  · exact he

theorem Expr.fits_remove {e : Expr} (he : e.Fits waiting) : e.remove.Fits waiting := by
  unfold Expr.remove
  split
  · rename_i place hplace
    exact Place.fits_of_place? he hplace
  · exact he

theorem fitsAll_append {es fs : List Expr} (hes : fitsAll waiting es) (hfs : fitsAll waiting fs) :
    fitsAll waiting (es ++ fs) := by
  induction es with
  | nil => exact hfs
  | cons e es ih => exact ⟨hes.1, ih hes.2⟩

theorem Expr.fits_followedBy {e f : Expr} (he : e.Fits waiting) (hf : f.Fits waiting) :
    (e.followedBy f).Fits waiting := by
  unfold Expr.followedBy
  split
  · exact fitsAll_append he ⟨hf, trivial⟩
  · exact ⟨he, hf, trivial⟩

theorem Expr.fits_parenthesized {e : Expr} (he : e.Fits waiting) :
    e.parenthesized.Fits waiting := by
  unfold Expr.parenthesized
  split <;> exact he

theorem Build.fits_access {optional : Bool} {object : Expr} {make : Expr → Expr}
    (hobject : object.Fits waiting) (hmake : ∀ e : Expr, e.Fits waiting → (make e).Fits waiting) :
    (Build.access optional object make).Fits waiting := by
  unfold Build.access Expr.extendOptional Expr.extend
  split
  · split
    · exact hmake _ hobject
    · exact hmake _ hobject
  · split
    · exact hmake _ hobject
    · exact hmake _ hobject

end

mutual

/-- What a tree is built as fits where waiting is allowed: its functions do not wait. -/
theorem Tree.BuiltAs.fits : ∀ {t : Tree} {e : Expr}, t.BuiltAs e → e.Fits .allowed
  | _, _, .number _ | _, _, .string _ | _, _, .constant | _, _, .name => trivial
  | _, _, .array hitems => hitems.fits
  | _, _, .object hentries => hentries.fits
  | _, _, .paren h => Expr.fits_parenthesized h.fits
  | _, _, .member h => Build.fits_access h.fits fun _ he => he
  | _, _, .index h hkey => Build.fits_access h.fits fun _ he => ⟨he, hkey.fits⟩
  | _, _, .call h hitems => Build.fits_access h.fits fun _ he => ⟨he, hitems.fits⟩
  | _, _, .unary h => h.fits
  | _, _, .delete h => Expr.fits_remove h.fits
  | _, _, .await h => ⟨rfl, h.fits⟩
  | _, _, .binary hleft hright | _, _, .logical hleft hright => ⟨hleft.fits, hright.fits⟩
  | _, _, .conditional htest hconsequent halternate =>
    ⟨htest.fits, hconsequent.fits, halternate.fits⟩
  | _, _, .assign htarget hplace hvalue =>
    ⟨Place.fits_of_place? htarget.fits hplace, hvalue.fits⟩
  | _, _, .arrow _ hbody => hbody
  | _, _, .sequence hleft hright => Expr.fits_followedBy hleft.fits hright.fits

theorem BuiltItems.fits : ∀ {items : List TreeItem} {es : List Item}, BuiltItems items es →
    fitsItems .allowed es
  | _, _, .nil => trivial
  | _, _, .single h hrest | _, _, .spread h hrest => ⟨h.fits, hrest.fits⟩

theorem BuiltEntries.fits : ∀ {entries : List TreeEntry} {es : List Entry},
    BuiltEntries entries es → fitsEntries .allowed es
  | _, _, .nil => trivial
  | _, _, .named h hrest | _, _, .spread h hrest | _, _, .string _ h hrest
  | _, _, .number _ h hrest => ⟨h.fits, hrest.fits⟩
  | _, _, .computed hkey h hrest => ⟨hkey.fits, h.fits, hrest.fits⟩
  | _, _, .shorthand hrest => ⟨trivial, hrest.fits⟩

end

/-- An expression that was built fits where waiting is allowed. -/
theorem Tree.fits_of_build (t : Tree) {e : Expr} (h : t.build = .ok e) : e.Fits .allowed :=
  (t.builtAs h).fits

end GuardedText
