import GuardedText.Guard.Tree
import GuardedText.Proofs.Result

/-
  What a tree is built as. Building either fails or follows the shape of the tree, and then it says
  for each part what that part is built as (`Tree.builtAs`). A property of built expressions is
  proved by induction on this.
-/

namespace GuardedText

mutual

/-- What a tree that can be built is built as, by its shape. -/
inductive Tree.BuiltAs : Tree → Expr → Prop
  | number {k value} : Build.number k = .ok value →
      Tree.BuiltAs (.number k) (.literal (.number value))
  | string {k value} : Build.string k = .ok value →
      Tree.BuiltAs (.string k) (.literal (.text value))
  | constant {value} : Tree.BuiltAs (.constant value) (.literal value)
  | name {n} : Tree.BuiltAs (.name n) (.name n)
  | array {items es} : BuiltItems items es → Tree.BuiltAs (.array items) (.array es)
  | object {entries es} : BuiltEntries entries es → Tree.BuiltAs (.object entries) (.object es)
  | paren {t e} : Tree.BuiltAs t e → Tree.BuiltAs (.paren t) e.parenthesized
  | member {t e n optional} : Tree.BuiltAs t e →
      Tree.BuiltAs (.member t n optional) (Build.access optional e (.member · n optional))
  | index {t k e f optional} : Tree.BuiltAs t e → Tree.BuiltAs k f →
      Tree.BuiltAs (.index t k optional) (Build.access optional e (.index · f optional))
  | call {t items e es optional} : Tree.BuiltAs t e → BuiltItems items es →
      Tree.BuiltAs (.call t items optional) (Build.access optional e (.call · es optional))
  | unary {op t e} : Tree.BuiltAs t e → Tree.BuiltAs (.unary op t) (.unary op e)
  | delete {t e} : Tree.BuiltAs t e → Tree.BuiltAs (.delete t) e.remove
  | await {t e} : Tree.BuiltAs t e → Tree.BuiltAs (.await t) (.await e)
  | binary {op l r e f} : Tree.BuiltAs l e → Tree.BuiltAs r f →
      Tree.BuiltAs (.binary op l r) (.binary op e f)
  | logical {op l r e f} : Tree.BuiltAs l e → Tree.BuiltAs r f →
      Tree.BuiltAs (.logical op l r) (.logical op e f)
  | conditional {t c a e f g} : Tree.BuiltAs t e → Tree.BuiltAs c f → Tree.BuiltAs a g →
      Tree.BuiltAs (.conditional t c a) (.conditional e f g)
  | assign {op target value e f place} : Tree.BuiltAs target e → e.place? = some place →
      Tree.BuiltAs value f → Tree.BuiltAs (.assign op target value) (.assign op place f)
  | arrow {params body e} : Tree.BuiltAs body e → e.suspends = false →
      Tree.BuiltAs (.arrow params body) (.arrow params e)
  | sequence {l r e f} : Tree.BuiltAs l e → Tree.BuiltAs r f →
      Tree.BuiltAs (.sequence l r) (e.followedBy f)

/-- What elements or arguments are built as. -/
inductive BuiltItems : List TreeItem → List Item → Prop
  | nil : BuiltItems [] []
  | single {t e items es} : Tree.BuiltAs t e → BuiltItems items es →
      BuiltItems (.single t :: items) (.single e :: es)
  | spread {t e items es} : Tree.BuiltAs t e → BuiltItems items es →
      BuiltItems (.spread t :: items) (.spread e :: es)

/-- What entries are built as. -/
inductive BuiltEntries : List TreeEntry → List Entry → Prop
  | nil : BuiltEntries [] []
  | named {k t e entries es} : Tree.BuiltAs t e → BuiltEntries entries es →
      BuiltEntries (.named k t :: entries) (.named k e :: es)
  | string {k key t e entries es} : Build.string k = .ok key → Tree.BuiltAs t e →
      BuiltEntries entries es → BuiltEntries (.string k t :: entries) (.named key e :: es)
  | number {k key t e entries es} : Build.key k = .ok key → Tree.BuiltAs t e →
      BuiltEntries entries es → BuiltEntries (.number k t :: entries) (.named key e :: es)
  | computed {k t e f entries es} : Tree.BuiltAs k f → Tree.BuiltAs t e →
      BuiltEntries entries es → BuiltEntries (.computed k t :: entries) (.computed f e :: es)
  | shorthand {n entries es} : BuiltEntries entries es →
      BuiltEntries (.shorthand n :: entries) (.named n (.name n) :: es)
  | spread {t e entries es} : Tree.BuiltAs t e → BuiltEntries entries es →
      BuiltEntries (.spread t :: entries) (.spread e :: es)

end

theorem Build.assign_eq_ok {op : AssignOp} {target value e : Expr} :
    assign op target value = .ok e ↔
      ∃ place, target.place? = some place ∧ .assign op place value = e := by
  unfold assign
  cases target.place? <;> simp

theorem Build.arrow_eq_ok {params : List Text} {body e : Expr} :
    arrow params body = .ok e ↔ body.suspends = false ∧ .arrow params body = e := by
  unfold arrow
  cases body.suspends <;> simp

mutual

/-- The expression of a tree is what the tree is built as. -/
theorem Tree.builtAs : ∀ (t : Tree) {e : Expr}, t.build = .ok e → t.BuiltAs e
  | .number k, e, h => by
    simp only [Tree.build, Except.bind_eq_ok, Except.pure_eq_ok] at h
    obtain ⟨value, hvalue, rfl⟩ := h
    exact .number hvalue
  | .string k, e, h => by
    simp only [Tree.build, Except.bind_eq_ok, Except.pure_eq_ok] at h
    obtain ⟨value, hvalue, rfl⟩ := h
    exact .string hvalue
  | .constant value, e, h => by
    simp only [Tree.build, Except.pure_eq_ok] at h
    exact h ▸ .constant
  | .name n, e, h => by
    simp only [Tree.build, Except.pure_eq_ok] at h
    exact h ▸ .name
  | .array items, e, h => by
    simp only [Tree.build, Except.bind_eq_ok, Except.pure_eq_ok] at h
    obtain ⟨es, hes, rfl⟩ := h
    exact .array (builtItems items hes)
  | .object entries, e, h => by
    simp only [Tree.build, Except.bind_eq_ok, Except.pure_eq_ok] at h
    obtain ⟨es, hes, rfl⟩ := h
    exact .object (builtEntries entries hes)
  | .paren inner, e, h => by
    simp only [Tree.build, Except.bind_eq_ok, Except.pure_eq_ok] at h
    obtain ⟨f, hf, rfl⟩ := h
    exact .paren (inner.builtAs hf)
  | .member object n optional, e, h => by
    simp only [Tree.build, Except.bind_eq_ok, Except.pure_eq_ok] at h
    obtain ⟨f, hf, rfl⟩ := h
    exact .member (object.builtAs hf)
  | .index object key optional, e, h => by
    simp only [Tree.build, Except.bind_eq_ok, Except.pure_eq_ok] at h
    obtain ⟨f, hf, g, hg, rfl⟩ := h
    exact .index (object.builtAs hf) (key.builtAs hg)
  | .call callee arguments optional, e, h => by
    simp only [Tree.build, Except.bind_eq_ok, Except.pure_eq_ok] at h
    obtain ⟨f, hf, es, hes, rfl⟩ := h
    exact .call (callee.builtAs hf) (builtItems arguments hes)
  | .unary op operand, e, h => by
    simp only [Tree.build, Except.bind_eq_ok, Except.pure_eq_ok] at h
    obtain ⟨f, hf, rfl⟩ := h
    exact .unary (operand.builtAs hf)
  | .delete operand, e, h => by
    simp only [Tree.build, Except.bind_eq_ok, Except.pure_eq_ok] at h
    obtain ⟨f, hf, rfl⟩ := h
    exact .delete (operand.builtAs hf)
  | .await operand, e, h => by
    simp only [Tree.build, Except.bind_eq_ok, Except.pure_eq_ok] at h
    obtain ⟨f, hf, rfl⟩ := h
    exact .await (operand.builtAs hf)
  | .binary op left right, e, h => by
    simp only [Tree.build, Except.bind_eq_ok, Except.pure_eq_ok] at h
    obtain ⟨f, hf, g, hg, rfl⟩ := h
    exact .binary (left.builtAs hf) (right.builtAs hg)
  | .logical op left right, e, h => by
    simp only [Tree.build, Except.bind_eq_ok, Except.pure_eq_ok] at h
    obtain ⟨f, hf, g, hg, rfl⟩ := h
    exact .logical (left.builtAs hf) (right.builtAs hg)
  | .conditional test consequent alternate, e, h => by
    simp only [Tree.build, Except.bind_eq_ok, Except.pure_eq_ok] at h
    obtain ⟨f, hf, g, hg, k, hk, rfl⟩ := h
    exact .conditional (test.builtAs hf) (consequent.builtAs hg) (alternate.builtAs hk)
  | .assign op target value, e, h => by
    simp only [Tree.build, Except.bind_eq_ok, Build.assign_eq_ok] at h
    obtain ⟨f, hf, g, hg, place, hplace, rfl⟩ := h
    exact .assign (target.builtAs hf) hplace (value.builtAs hg)
  | .arrow params body, e, h => by
    simp only [Tree.build, Except.bind_eq_ok, Build.arrow_eq_ok] at h
    obtain ⟨f, hf, hbody, rfl⟩ := h
    exact .arrow (body.builtAs hf) hbody
  | .sequence left right, e, h => by
    simp only [Tree.build, Except.bind_eq_ok, Except.pure_eq_ok] at h
    obtain ⟨f, hf, g, hg, rfl⟩ := h
    exact .sequence (left.builtAs hf) (right.builtAs hg)

theorem builtItems : ∀ (items : List TreeItem) {es : List Item},
    buildItems items = .ok es → BuiltItems items es
  | [], es, h => by
    simp only [buildItems, Except.pure_eq_ok] at h
    exact h ▸ .nil
  | .single t :: items, es, h => by
    simp only [buildItems, Except.bind_eq_ok, Except.pure_eq_ok] at h
    obtain ⟨f, hf, fs, hfs, rfl⟩ := h
    exact .single (t.builtAs hf) (builtItems items hfs)
  | .spread t :: items, es, h => by
    simp only [buildItems, Except.bind_eq_ok, Except.pure_eq_ok] at h
    obtain ⟨f, hf, fs, hfs, rfl⟩ := h
    exact .spread (t.builtAs hf) (builtItems items hfs)

theorem builtEntries : ∀ (entries : List TreeEntry) {es : List Entry},
    buildEntries entries = .ok es → BuiltEntries entries es
  | [], es, h => by
    simp only [buildEntries, Except.pure_eq_ok] at h
    exact h ▸ .nil
  | .named k t :: entries, es, h => by
    simp only [buildEntries, Except.bind_eq_ok, Except.pure_eq_ok] at h
    obtain ⟨f, hf, fs, hfs, rfl⟩ := h
    exact .named (t.builtAs hf) (builtEntries entries hfs)
  | .string k t :: entries, es, h => by
    simp only [buildEntries, Except.bind_eq_ok, Except.pure_eq_ok] at h
    obtain ⟨f, hf, key, hkey, fs, hfs, rfl⟩ := h
    exact .string hkey (t.builtAs hf) (builtEntries entries hfs)
  | .number k t :: entries, es, h => by
    simp only [buildEntries, Except.bind_eq_ok, Except.pure_eq_ok] at h
    obtain ⟨f, hf, key, hkey, fs, hfs, rfl⟩ := h
    exact .number hkey (t.builtAs hf) (builtEntries entries hfs)
  | .computed k t :: entries, es, h => by
    simp only [buildEntries, Except.bind_eq_ok, Except.pure_eq_ok] at h
    obtain ⟨g, hg, f, hf, fs, hfs, rfl⟩ := h
    exact .computed (k.builtAs hg) (t.builtAs hf) (builtEntries entries hfs)
  | .shorthand n :: entries, es, h => by
    simp only [buildEntries, Except.bind_eq_ok, Except.pure_eq_ok] at h
    obtain ⟨fs, hfs, rfl⟩ := h
    exact .shorthand (builtEntries entries hfs)
  | .spread t :: entries, es, h => by
    simp only [buildEntries, Except.bind_eq_ok, Except.pure_eq_ok] at h
    obtain ⟨f, hf, fs, hfs, rfl⟩ := h
    exact .spread (t.builtAs hf) (builtEntries entries hfs)

end

end GuardedText
