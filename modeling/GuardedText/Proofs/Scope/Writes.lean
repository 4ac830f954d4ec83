import GuardedText.Proofs.Eval.Policy

/-
  Expressions that leave properties alone. Whether an expression writes or removes a property, in
  its functions too, can be told from its text (`Expr.writes`); one that does not keeps to the
  policy `Policy.sparing`, whatever names it assigns and whatever it reads and calls.
-/

namespace GuardedText

mutual

/-- Whether an expression writes or removes a property, inside its functions too. -/
def Expr.writes : Expr → Bool
  | .literal _ | .name _ => false
  | .array items => writesItems items
  | .object entries => writesEntries entries
  | .unary _ e | .deleteValue e | .await e | .arrow _ e | .chain e _ | .member e _ _ => e.writes
  | .delete place => place.writes
  | .binary _ l r | .logical _ l r | .index l r _ => l.writes || r.writes
  | .conditional t c a => t.writes || c.writes || a.writes
  | .assign _ place value => place.writes || value.writes
  | .sequence parts => writesAny parts
  | .call callee arguments _ => callee.writes || writesItems arguments

/-- Whether a place that is written or removed is a property. -/
def Place.writes : Place → Bool
  | .name _ => false
  | .member _ _ | .index _ _ => true

/-- Whether one of some expressions writes or removes a property. -/
def writesAny : List Expr → Bool
  | [] => false
  | e :: es => e.writes || writesAny es

/-- Whether one of some items writes or removes a property. -/
def writesItems : List Item → Bool
  | [] => false
  | .single e :: items | .spread e :: items => e.writes || writesItems items

/-- Whether one of some entries writes or removes a property. -/
def writesEntries : List Entry → Bool
  | [] => false
  | .named _ e :: entries | .spread e :: entries => e.writes || writesEntries entries
  | .computed k e :: entries => k.writes || e.writes || writesEntries entries

end

/-- The policy of an expression that leaves properties alone. -/
def Policy.sparing : Policy where
  waits := True
  loose := True
  writes := False
  body e := e.writes = false

mutual

/-- An expression that leaves properties alone keeps to the policy. -/
theorem Expr.within_sparing : ∀ e : Expr, e.writes = false → e.Within .sparing True
  | .literal _, _ | .name _, _ => trivial
  | .array items, h => withinItems_sparing items h
  | .object entries, h => withinEntries_sparing entries h
  | .unary _ e, h | .deleteValue e, h | .chain e _, h => e.within_sparing h
  | .await e, h => ⟨trivial, e.within_sparing h⟩
  | .member e _ _, h => ⟨fun _ => trivial, e.within_sparing h⟩
  | .delete place, h => place.within_sparing h
  | .binary _ l r, h | .logical _ l r, h =>
    have h := Bool.or_eq_false_iff.1 h
    ⟨l.within_sparing h.1, r.within_sparing h.2⟩
  | .index l r _, h =>
    have h := Bool.or_eq_false_iff.1 h
    ⟨fun _ => trivial, l.within_sparing h.1, r.within_sparing h.2⟩
  | .conditional t c a, h =>
    have h := Bool.or_eq_false_iff.1 h
    have htest := Bool.or_eq_false_iff.1 h.1
    ⟨t.within_sparing htest.1, c.within_sparing htest.2, a.within_sparing h.2⟩
  | .assign _ place value, h =>
    have h := Bool.or_eq_false_iff.1 h
    ⟨place.within_sparing h.1, value.within_sparing h.2⟩
  | .sequence parts, h => withinAll_sparing parts h
  | .call callee arguments _, h =>
    have h := Bool.or_eq_false_iff.1 h
    ⟨fun _ => trivial, callee.within_sparing h.1, withinItems_sparing arguments h.2⟩
  | .arrow _ _, h => h

theorem Place.within_sparing : ∀ place : Place, place.writes = false → place.Within .sparing
  | .name _, _ => trivial
  | .member _ _, h | .index _ _, h => nomatch h

theorem withinAll_sparing : ∀ es : List Expr, writesAny es = false → withinAll .sparing es
  | [], _ => trivial
  | e :: es, h =>
    have h := Bool.or_eq_false_iff.1 h
    ⟨e.within_sparing h.1, withinAll_sparing es h.2⟩

theorem withinItems_sparing :
    ∀ items : List Item, writesItems items = false → withinItems .sparing items
  | [], _ => trivial
  | .single e :: items, h | .spread e :: items, h =>
    have h := Bool.or_eq_false_iff.1 h
    ⟨e.within_sparing h.1, withinItems_sparing items h.2⟩

theorem withinEntries_sparing :
    ∀ entries : List Entry, writesEntries entries = false → withinEntries .sparing entries
  | [], _ => trivial
  | .named _ e :: entries, h | .spread e :: entries, h =>
    have h := Bool.or_eq_false_iff.1 h
    ⟨e.within_sparing h.1, withinEntries_sparing entries h.2⟩
  | .computed k e :: entries, h =>
    have h := Bool.or_eq_false_iff.1 h
    have hkey := Bool.or_eq_false_iff.1 h.1
    ⟨k.within_sparing hkey.1, e.within_sparing hkey.2, withinEntries_sparing entries h.2⟩

end

end GuardedText
