import GuardedText.Proofs.Guard.Built
import GuardedText.Proofs.Guard.Literal

/-
  Which trees are expressions. A tree is built unless an assignment in it has no place on its left
  side, a function in it holds an `await`, or a string in it names no code point
  (`Tree.build_isOk_iff`); for numerals see `number?_value_iff`. An expression can wait just when its
  tree holds an `await` (`Tree.suspends_of_build`).
-/

namespace GuardedText

/-! ## The parts of a tree -/

mutual

/-- A tree and all trees in it. A key that is spelled as a literal counts as that literal. -/
def Tree.nodes : Tree → List Tree
  | .number k => [.number k]
  | .string k => [.string k]
  | .constant value => [.constant value]
  | .name n => [.name n]
  | .array items => .array items :: nodesItems items
  | .object entries => .object entries :: nodesEntries entries
  | .paren inner => .paren inner :: inner.nodes
  | .member object n optional => .member object n optional :: object.nodes
  | .index object key optional => .index object key optional :: (object.nodes ++ key.nodes)
  | .call callee arguments optional =>
    .call callee arguments optional :: (callee.nodes ++ nodesItems arguments)
  | .unary op operand => .unary op operand :: operand.nodes
  | .delete operand => .delete operand :: operand.nodes
  | .await operand => .await operand :: operand.nodes
  | .binary op left right => .binary op left right :: (left.nodes ++ right.nodes)
  | .logical op left right => .logical op left right :: (left.nodes ++ right.nodes)
  | .conditional test consequent alternate =>
    .conditional test consequent alternate :: (test.nodes ++ (consequent.nodes ++ alternate.nodes))
  | .assign op target value => .assign op target value :: (target.nodes ++ value.nodes)
  | .arrow params body => .arrow params body :: body.nodes
  | .sequence left right => .sequence left right :: (left.nodes ++ right.nodes)

/-- All trees in some elements or arguments. -/
def nodesItems : List TreeItem → List Tree
  | [] => []
  | .single t :: items => t.nodes ++ nodesItems items
  | .spread t :: items => t.nodes ++ nodesItems items

/-- All trees in some entries. -/
def nodesEntries : List TreeEntry → List Tree
  | [] => []
  | .named _ t :: entries => t.nodes ++ nodesEntries entries
  | .string k t :: entries => .string k :: (t.nodes ++ nodesEntries entries)
  | .number k t :: entries => .number k :: (t.nodes ++ nodesEntries entries)
  | .computed k t :: entries => k.nodes ++ (t.nodes ++ nodesEntries entries)
  | .shorthand n :: entries => .name n :: nodesEntries entries
  | .spread t :: entries => t.nodes ++ nodesEntries entries

end

/-- Whether a tree is an `await`. -/
def Tree.isAwait : Tree → Bool
  | .await _ => true
  | _ => false

/-- Whether a tree holds an `await`. -/
def Tree.waits (t : Tree) : Bool := t.nodes.any Tree.isAwait

/-! ## What an expression keeps -/

namespace Expr

theorem suspends_place {e : Expr} {place : Place} (h : e.place? = some place) :
    place.suspends = e.suspends := by
  unfold place? at h
  split at h <;> cases h <;> rfl

theorem suspends_remove (e : Expr) : e.remove.suspends = e.suspends := by
  unfold remove
  split
  · rename_i place hplace
    rw [suspends]
    exact suspends_place hplace
  · rw [suspends]

theorem suspendsAny_append (xs ys : List Expr) :
    suspendsAny (xs ++ ys) = (suspendsAny xs || suspendsAny ys) := by
  induction xs with
  | nil => rfl
  | cons x xs ih => rw [List.cons_append, suspendsAny, suspendsAny, ih, Bool.or_assoc]

theorem suspends_followedBy (e f : Expr) :
    (e.followedBy f).suspends = (e.suspends || f.suspends) := by
  unfold followedBy
  split
  · simp [suspends, suspendsAny_append, suspendsAny]
  · simp [suspends, suspendsAny]

theorem suspends_parenthesized (e : Expr) : e.parenthesized.suspends = e.suspends := by
  unfold parenthesized
  split <;> rfl

/-- An access waits if its object waits, or its other parts do. -/
theorem suspends_access {optional p : Bool} {object : Expr} {make : Expr → Expr}
    (h : ∀ e, (make e).suspends = (e.suspends || p)) :
    (Build.access optional object make).suspends = (object.suspends || p) := by
  unfold Build.access extendOptional extend
  split_ifs <;> split <;> simp [suspends, h]

end Expr

/-! ## Building -/

/-- Whether one of some elements or arguments holds an `await`. -/
def waitsItems (items : List TreeItem) : Bool := (nodesItems items).any Tree.isAwait

/-- Whether one of some entries holds an `await`. -/
def waitsEntries (entries : List TreeEntry) : Bool := (nodesEntries entries).any Tree.isAwait

mutual

/-- What a tree is built as can wait just when the tree holds an `await`. -/
theorem Tree.BuiltAs.suspends : ∀ {t : Tree} {e : Expr}, t.BuiltAs e → e.suspends = t.waits
  | _, _, .number _ | _, _, .string _ | _, _, .constant | _, _, .name => rfl
  | _, _, .array hitems => hitems.suspends
  | _, _, .object hentries => hentries.suspends
  | _, _, .paren h => (Expr.suspends_parenthesized _).trans h.suspends
  | _, _, .member h => by
    rw [Expr.suspends_access (p := false) fun f => by simp [Expr.suspends], h.suspends,
      Bool.or_false]
    rfl
  | _, _, .index h hkey => by
    rw [Expr.suspends_access fun _ => rfl, h.suspends, hkey.suspends]
    simp [Tree.waits, Tree.nodes, Tree.isAwait]
  | _, _, .call h hitems => by
    rw [Expr.suspends_access fun _ => rfl, h.suspends, hitems.suspends]
    simp [Tree.waits, waitsItems, Tree.nodes, Tree.isAwait]
  | _, _, .unary h => h.suspends
  | _, _, .delete h => (Expr.suspends_remove _).trans h.suspends
  | _, _, .await _ => rfl
  | _, _, .binary hleft hright | _, _, .logical hleft hright => by
    rw [Expr.suspends, hleft.suspends, hright.suspends]
    simp [Tree.waits, Tree.nodes, Tree.isAwait]
  | _, _, .conditional htest hconsequent halternate => by
    rw [Expr.suspends, htest.suspends, hconsequent.suspends, halternate.suspends]
    simp [Tree.waits, Tree.nodes, Tree.isAwait, Bool.or_assoc]
  | _, _, .assign htarget hplace hvalue => by
    rw [Expr.suspends, Expr.suspends_place hplace, htarget.suspends, hvalue.suspends]
    simp [Tree.waits, Tree.nodes, Tree.isAwait]
  | _, _, .arrow hbody _ => hbody.suspends
  | _, _, .sequence hleft hright => by
    rw [Expr.suspends_followedBy, hleft.suspends, hright.suspends]
    simp [Tree.waits, Tree.nodes, Tree.isAwait]

theorem BuiltItems.suspends : ∀ {items : List TreeItem} {es : List Item}, BuiltItems items es →
    suspendsItems es = waitsItems items
  | _, _, .nil => rfl
  | _, _, .single h hrest | _, _, .spread h hrest => by
    rw [suspendsItems, h.suspends, hrest.suspends]
    simp [Tree.waits, waitsItems, nodesItems]

theorem BuiltEntries.suspends : ∀ {entries : List TreeEntry} {es : List Entry},
    BuiltEntries entries es → suspendsEntries es = waitsEntries entries
  | _, _, .nil => rfl
  | _, _, .named h hrest | _, _, .spread h hrest => by
    rw [suspendsEntries, h.suspends, hrest.suspends]
    simp [Tree.waits, waitsEntries, nodesEntries]
  | _, _, .string _ h hrest | _, _, .number _ h hrest => by
    rw [suspendsEntries, h.suspends, hrest.suspends]
    simp [Tree.waits, waitsEntries, nodesEntries, Tree.isAwait]
  | _, _, .computed hkey h hrest => by
    rw [suspendsEntries, hkey.suspends, h.suspends, hrest.suspends]
    simp [Tree.waits, waitsEntries, nodesEntries, Bool.or_assoc]
  | _, _, .shorthand hrest => by
    rw [suspendsEntries, hrest.suspends]
    simp [Expr.suspends, waitsEntries, nodesEntries, Tree.isAwait]

end

/-- The expression of a tree can wait just when the tree holds an `await`. -/
theorem Tree.suspends_of_build (t : Tree) {e : Expr} (h : t.build = .ok e) :
    e.suspends = t.waits :=
  (t.builtAs h).suspends

/-! ## Which trees are built -/

/-- The numeral of an entry's key has a value that is too large to be written out as a name. -/
def TreeEntry.Unwritten : TreeEntry → Prop
  | .number k _ => ∃ n, Spelling.number k = .ok n ∧ n.isWritable = false
  | _ => False

/-- What may be wrong with the literals of a tree: a number in braces in a string is beyond the code
points, a numeral is an integer of too many digits, or a numeral that is a key is not written out. -/
def Tree.Misspelled : Tree → Prop
  | .string k => ∃ n, Spelling.Braced (k.drop 1).dropLast n ∧ 0x110000 ≤ n
  | .number k => Spelling.Long k
  | .object entries => ∃ entry ∈ entries, entry.Unwritten
  | _ => False

/-- What the grammar leaves to be checked at a tree: the left side of an assignment is a place, a
function does not wait, and no literal is misspelled. -/
def Tree.Allowed : Tree → Prop
  | .assign _ target _ => ∃ e, target.build = .ok e ∧ e.place?.isSome = true
  | .arrow _ body => body.waits = false
  | t => ¬ t.Misspelled

/-- A tree in which everything is allowed. -/
def Tree.Legal (t : Tree) : Prop := ∀ n ∈ t.nodes, n.Allowed

/-- What a tree itself needs to be built: it is allowed and, if a numeral, has a value. -/
def Tree.Sound : Tree → Prop
  | .number k => ∃ value, Spelling.number k = .ok value
  | t => t.Allowed

theorem Build.number_isOk_iff {k : Text} :
    (∃ value, Build.number k = .ok value) ↔ ∃ value, Spelling.number k = .ok value := by
  unfold Build.number
  cases Spelling.number k <;> simp [Except.mapError]

theorem Build.string_isOk_iff {k : Text} :
    (∃ value, Build.string k = .ok value) ↔ (Tree.string k).Sound := by
  have hvalue : (∃ value, Build.string k = .ok value) ↔ ∃ value, Spelling.string k = .ok value := by
    unfold Build.string
    cases Spelling.string k <;> simp [Except.mapError]
  rw [hvalue, Spelling.string_isOk_iff]
  simp only [Tree.Sound, Tree.Allowed, Tree.Misspelled, not_exists, not_and, Nat.not_le]

theorem Build.key_isOk_iff {k : Text} {t : Tree} :
    (∃ name, Build.key k = .ok name) ↔
      (Tree.number k).Sound ∧ ¬ (TreeEntry.number k t).Unwritten := by
  unfold Build.key Build.number
  simp only [Tree.Sound, TreeEntry.Unwritten]
  cases Spelling.number k with
  | error => simp [Except.mapError, bind, Except.bind]
  | ok n =>
    by_cases hn : n.isWritable = true
    · simp [Except.mapError, bind, Except.bind, Num.write_of_isWritable hn, hn]
    · simp [Except.mapError, bind, Except.bind, Num.write_of_not hn, hn]

theorem Build.assign_isOk_iff {op : AssignOp} {target value : Expr} :
    (∃ e, Build.assign op target value = .ok e) ↔ target.place?.isSome = true := by
  unfold Build.assign
  cases target.place? <;> simp

theorem Build.arrow_isOk_iff {params : List Text} {body : Expr} :
    (∃ e, Build.arrow params body = .ok e) ↔ body.suspends = false := by
  simp only [Build.arrow_eq_ok, exists_and_left, exists_eq', and_true]

/-- A tree of which nothing is to be checked depends on its parts alone. -/
theorem Tree.sound_cons {t : Tree} {ns : List Tree} {P : Prop} (ht : t.Sound)
    (hns : P ↔ ∀ n ∈ ns, n.Sound) : P ↔ ∀ n ∈ t :: ns, n.Sound := by
  rw [List.forall_mem_cons, ← hns]
  exact (and_iff_right ht).symm

mutual

/-- A tree is built just when every tree in it is sound. -/
theorem Tree.build_isOk_iff_sound : ∀ t : Tree, (∃ e, t.build = .ok e) ↔ ∀ n ∈ t.nodes, n.Sound
  | .number k => by
    simp only [Tree.build, Except.exists_bind_ok, Except.exists_pure_ok, and_true,
      Build.number_isOk_iff, Tree.nodes, List.forall_mem_singleton, Tree.Sound]
  | .string k => by
    simp only [Tree.build, Except.exists_bind_ok, Except.exists_pure_ok, and_true,
      Build.string_isOk_iff, Tree.nodes, List.forall_mem_singleton]
  | .constant value | .name n => by
    rw [Tree.nodes]
    refine Tree.sound_cons id ?_
    simp only [Tree.build, Except.exists_pure_ok, List.not_mem_nil, false_implies, implies_true]
  | .array items => by
    rw [Tree.nodes]
    refine Tree.sound_cons id ?_
    simp only [Tree.build, Except.exists_bind_ok, Except.exists_pure_ok, and_true,
      buildItems_isOk_iff items]
  | .object entries => by
    rw [Tree.nodes, List.forall_mem_cons]
    simp only [Tree.build, Except.exists_bind_ok, Except.exists_pure_ok, and_true,
      buildEntries_isOk_iff entries, Tree.Sound, Tree.Allowed, Tree.Misspelled, not_exists, not_and]
    exact and_comm
  | .paren operand | .member operand _ _ | .unary _ operand | .delete operand | .await operand => by
    rw [Tree.nodes]
    refine Tree.sound_cons id ?_
    simp only [Tree.build, Except.exists_bind_ok, Except.exists_pure_ok, and_true,
      operand.build_isOk_iff_sound]
  | .index left right _ | .binary _ left right | .logical _ left right | .sequence left right => by
    rw [Tree.nodes]
    refine Tree.sound_cons id ?_
    simp only [Tree.build, Except.exists_bind_ok, Except.exists_pure_ok, and_true,
      exists_and_right, left.build_isOk_iff_sound, right.build_isOk_iff_sound,
      List.forall_mem_append]
  | .call callee arguments _ => by
    rw [Tree.nodes]
    refine Tree.sound_cons id ?_
    simp only [Tree.build, Except.exists_bind_ok, Except.exists_pure_ok, and_true,
      exists_and_right, callee.build_isOk_iff_sound, buildItems_isOk_iff arguments,
      List.forall_mem_append]
  | .conditional test consequent alternate => by
    rw [Tree.nodes]
    refine Tree.sound_cons id ?_
    simp only [Tree.build, Except.exists_bind_ok, Except.exists_pure_ok, and_true,
      exists_and_right, test.build_isOk_iff_sound, consequent.build_isOk_iff_sound,
      alternate.build_isOk_iff_sound, List.forall_mem_append]
  | .assign op target value => by
    rw [Tree.nodes, List.forall_mem_cons, List.forall_mem_append, ← target.build_isOk_iff_sound,
      ← value.build_isOk_iff_sound]
    simp only [Tree.build, Except.exists_bind_ok, Build.assign_isOk_iff, exists_and_right]
    constructor
    · rintro ⟨e, he, hvalue, hplace⟩
      exact ⟨⟨e, he, hplace⟩, ⟨e, he⟩, hvalue⟩
    · rintro ⟨⟨e, he, hplace⟩, -, hvalue⟩
      exact ⟨e, he, hvalue, hplace⟩
  | .arrow params body => by
    rw [Tree.nodes, List.forall_mem_cons, ← body.build_isOk_iff_sound]
    simp only [Tree.build, Except.exists_bind_ok, Build.arrow_isOk_iff]
    constructor
    · rintro ⟨e, he, hbody⟩
      exact ⟨(body.suspends_of_build he).symm.trans hbody, e, he⟩
    · rintro ⟨hbody, e, he⟩
      exact ⟨e, he, (body.suspends_of_build he).trans hbody⟩

theorem buildItems_isOk_iff : ∀ items : List TreeItem,
    (∃ es, buildItems items = .ok es) ↔ ∀ n ∈ nodesItems items, n.Sound
  | [] => by
    simp only [buildItems, Except.exists_pure_ok, nodesItems, List.not_mem_nil,
      false_implies, implies_true]
  | .single t :: items | .spread t :: items => by
    simp only [buildItems, Except.exists_bind_ok, Except.exists_pure_ok, and_true,
      exists_and_right, t.build_isOk_iff_sound, buildItems_isOk_iff items, nodesItems,
      List.forall_mem_append]

theorem buildEntries_isOk_iff : ∀ entries : List TreeEntry,
    (∃ es, buildEntries entries = .ok es) ↔
      (∀ n ∈ nodesEntries entries, n.Sound) ∧ ∀ entry ∈ entries, ¬ entry.Unwritten
  | [] => by
    simp only [buildEntries, Except.exists_pure_ok, nodesEntries, List.not_mem_nil,
      false_implies, implies_true, and_true]
  | .named _ t :: entries | .spread t :: entries => by
    simp only [buildEntries, Except.exists_bind_ok, Except.exists_pure_ok, and_true,
      exists_and_right, t.build_isOk_iff_sound, buildEntries_isOk_iff entries, nodesEntries,
      List.forall_mem_append, List.forall_mem_cons, TreeEntry.Unwritten, not_false_eq_true,
      true_and, and_assoc]
  | .string k t :: entries => by
    simp only [buildEntries, Except.exists_bind_ok, Except.exists_pure_ok, and_true,
      exists_and_right, Build.string_isOk_iff, t.build_isOk_iff_sound,
      buildEntries_isOk_iff entries, nodesEntries, List.forall_mem_cons, List.forall_mem_append,
      TreeEntry.Unwritten, not_false_eq_true, true_and, and_assoc]
    exact and_left_comm
  | .number k t :: entries => by
    simp only [buildEntries, Except.exists_bind_ok, Except.exists_pure_ok, and_true,
      exists_and_right, Build.key_isOk_iff (t := t), t.build_isOk_iff_sound,
      buildEntries_isOk_iff entries, nodesEntries, List.forall_mem_cons, List.forall_mem_append]
    tauto
  | .computed k t :: entries => by
    simp only [buildEntries, Except.exists_bind_ok, Except.exists_pure_ok, and_true,
      exists_and_right, k.build_isOk_iff_sound, t.build_isOk_iff_sound,
      buildEntries_isOk_iff entries, nodesEntries, List.forall_mem_append, List.forall_mem_cons,
      TreeEntry.Unwritten, not_false_eq_true, true_and, and_assoc]
  | .shorthand n :: entries => by
    rw [nodesEntries, List.forall_mem_cons, List.forall_mem_cons]
    simp only [buildEntries, Except.exists_bind_ok, Except.exists_pure_ok, and_true,
      buildEntries_isOk_iff entries, Tree.Sound, Tree.Allowed, Tree.Misspelled,
      TreeEntry.Unwritten, not_false_eq_true, true_and]

end

/-- Where numerals have values unless they are too long, a tree is built just when everything in it
is allowed. -/
theorem Tree.build_isOk_iff {t : Tree} (hvalues : ∀ k, .number k ∈ t.nodes →
      ((∃ value, Spelling.number k = .ok value) ↔ ¬ Spelling.Long k)) :
    (∃ e, t.build = .ok e) ↔ t.Legal := by
  rw [t.build_isOk_iff_sound]
  refine forall₂_congr fun n hn => ?_
  cases n with
  | number k => exact hvalues k hn
  | _ => exact Iff.rfl

/-! ## Literals without a value -/

/-- A tree is a literal without a value, or an object with a key that is not written out. -/
def Tree.Valueless : Tree → Prop
  | .number k => ∀ value, Spelling.number k ≠ .ok value
  | t => t.Misspelled

/-- A literal or key without a value is among some trees. -/
def HasValueless (ns : List Tree) : Prop := ∃ n ∈ ns, n.Valueless

/-- A step of building that is refused for a literal has one without a value among the trees that it
builds. -/
def Blames {α : Type} (x : Except Rejection α) (ns : List Tree) : Prop :=
  x = .error .badLiteral → HasValueless ns

namespace Blames

variable {α β : Type} {x : Except Rejection α} {ns ms : List Tree}

theorem mono (h : Blames x ns) (hsub : ns ⊆ ms) : Blames x ms := fun hx =>
  let ⟨n, hn, hvalueless⟩ := h hx
  ⟨n, hsub hn, hvalueless⟩

theorem cons (h : Blames x ns) (t : Tree) : Blames x (t :: ns) :=
  h.mono (List.subset_cons_self ..)

theorem of_ne (h : x ≠ .error .badLiteral) (ns : List Tree) : Blames x ns := fun hx => (h hx).elim

/-- One step, then another one. -/
theorem bind {f : α → Except Rejection β} (h : Blames x ns) (hf : ∀ a, Blames (f a) ms) :
    Blames (x >>= f) (ns ++ ms) := fun hx => by
  obtain hx | ⟨a, -, hfa⟩ := Except.bind_eq_error.1 hx
  · exact h.mono (List.subset_append_left ..) hx
  · exact (hf a).mono (List.subset_append_right ..) hfa

/-- One step, then one that is not refused for a literal. -/
theorem last {f : α → Except Rejection β} (h : Blames x ns)
    (hf : ∀ a, f a ≠ .error .badLiteral) : Blames (x >>= f) ns := by
  simpa using h.bind fun a => of_ne (hf a) []

/-- The last step. -/
theorem done {f : α → β} (h : Blames x ns) : Blames (x >>= fun a => pure (f a)) ns :=
  h.last fun _ => Except.pure_ne_error

end Blames

theorem blames_number (k : Text) : Blames (Build.number k) [.number k] := fun h => by
  refine ⟨_, List.mem_singleton_self _, fun value hvalue => ?_⟩
  obtain ⟨number, hnumber⟩ := Build.number_isOk_iff.2 ⟨value, hvalue⟩
  rw [hnumber] at h
  cases h

theorem blames_string (k : Text) : Blames (Build.string k) [.string k] := fun h => by
  refine ⟨_, List.mem_singleton_self _, ?_⟩
  by_contra hspelled
  obtain ⟨value, hvalue⟩ := Build.string_isOk_iff.2 hspelled
  rw [hvalue] at h
  cases h

theorem blames_key {k : Text} {t : Tree} {entries : List TreeEntry} (hk : .number k t ∈ entries) :
    Blames (Build.key k) [.object entries, .number k] := fun h => by
  by_contra hnone
  have hkey : (Tree.number k).Sound ∧ ¬ (TreeEntry.number k t).Unwritten := by
    refine ⟨?_, fun hunwritten => hnone ⟨_, List.mem_cons_self, _, hk, hunwritten⟩⟩
    by_contra hvalue
    exact hnone ⟨.number k, by simp, fun value heq => hvalue ⟨value, heq⟩⟩
  obtain ⟨name, hname⟩ := Build.key_isOk_iff.2 hkey
  rw [hname] at h
  cases h

theorem Build.assign_ne_badLiteral {op : AssignOp} {target value : Expr} :
    Build.assign op target value ≠ .error .badLiteral := by
  unfold Build.assign
  cases target.place? <;> simp

theorem Build.arrow_ne_badLiteral {params : List Text} {body : Expr} :
    Build.arrow params body ≠ .error .badLiteral := by
  unfold Build.arrow
  split <;> simp

mutual

/-- Building a tree is refused for a literal only if the tree has one without a value. -/
theorem Tree.blames : ∀ t : Tree, Blames t.build t.nodes
  | .number k => (blames_number k).done
  | .string k => (blames_string k).done
  | .constant _ | .name _ => .of_ne Except.pure_ne_error _
  | .array items => (blames_items items).done.cons _
  | .object entries => (blames_entries entries entries (List.Subset.refl _)).done
  | .paren operand | .member operand _ _ | .unary _ operand | .delete operand | .await operand =>
    operand.blames.done.cons _
  | .index left right _ | .binary _ left right | .logical _ left right | .sequence left right =>
    (left.blames.bind fun _ => right.blames.done).cons _
  | .call callee arguments _ => (callee.blames.bind fun _ => (blames_items arguments).done).cons _
  | .conditional test consequent alternate =>
    (test.blames.bind fun _ => consequent.blames.bind fun _ => alternate.blames.done).cons _
  | .assign _ target value =>
    (target.blames.bind fun _ => value.blames.last fun _ => Build.assign_ne_badLiteral).cons _
  | .arrow _ body => (body.blames.last fun _ => Build.arrow_ne_badLiteral).cons _

theorem blames_items : ∀ items : List TreeItem, Blames (buildItems items) (nodesItems items)
  | [] => .of_ne Except.pure_ne_error _
  | .single t :: items | .spread t :: items => t.blames.bind fun _ => (blames_items items).done

/-- The entries are some of those of an object. -/
theorem blames_entries (all : List TreeEntry) : ∀ entries : List TreeEntry, entries ⊆ all →
    Blames (buildEntries entries) (.object all :: nodesEntries entries)
  | [], _ => .of_ne Except.pure_ne_error _
  | .named _ t :: entries, h | .spread t :: entries, h =>
    (t.blames.bind fun _ => (blames_entries all entries (List.subset_of_cons_subset h)).done).mono
      List.perm_middle.subset
  -- The key stands before its value but is decoded after it.
  | .string k t :: entries, h =>
    (t.blames.bind fun _ => (blames_string k).bind fun _ =>
      (blames_entries all entries (List.subset_of_cons_subset h)).done).mono (by
        simp only [nodesEntries]
        grind)
  | .number k t :: entries, h =>
    (t.blames.bind fun _ => (blames_key (h List.mem_cons_self)).bind fun _ =>
      (blames_entries all entries (List.subset_of_cons_subset h)).done).mono (by
        simp only [nodesEntries]
        grind)
  | .computed k t :: entries, h =>
    (k.blames.bind fun _ => t.blames.bind fun _ =>
      (blames_entries all entries (List.subset_of_cons_subset h)).done).mono (by
        simp only [nodesEntries]
        grind)
  | .shorthand _ :: entries, h =>
    ((blames_entries all entries (List.subset_of_cons_subset h)).done).mono (by
        simp only [nodesEntries]
        grind)

end

/-- A tree that is refused for a literal has one without a value. -/
theorem Tree.hasValueless_of_build (t : Tree) (h : t.build = .error .badLiteral) :
    HasValueless t.nodes :=
  t.blames h

end GuardedText
