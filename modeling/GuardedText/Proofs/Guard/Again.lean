import Mathlib.Data.List.DropRight
import GuardedText.Proofs.Guard.Carry
import GuardedText.Proofs.Guard.Compile

/-
  Guards compiled from their own code. The code of a guard is its text without the white space and
  the comments around the expression and without a final semicolon, and it spells the same
  expression (`Guard.Bare`). It compiles to the same guard unless it starts like a statement
  (`Guard.compile_code`). A text can compile although its code starts so, for only white space is
  left out before a statement is looked for: comments and byte order marks hide what follows them
  (`Guard.compile_hidden`).
-/

namespace GuardedText

open Token

/-- An operand alone is an assignment. -/
theorem Derives.of_primary {s u : Text} {e : Tree} (h : Derives false .primary s e u) :
    Derives false .assignment s e u := by
  have operand : Derives false (.level BinaryOp.tightest) s e u := .base (.bare (.primary h))
  exact (operand.loosen (j := 1) (by decide) (Nat.le_refl _)).of_operand

namespace Guard

/-- A text is an expression up to its last code point. -/
def Bare (c : Text) (e : Expr) : Prop := ∃ t, Derives false .expression c t [] ∧ t.build = .ok e

/-- What can follow an expression: white space and comments, with a semicolon among them or not. -/
def Tail (t : Text) : Prop :=
  At false t [] ∨ ∃ u, Reads false (symbol? ";") t u ∧ At false u []

theorem ends_of_afterGap? {s u : Text} (h : afterGap? s = some u) : Fence s := by
  cases s with
  | nil => exact fence_nil
  | cons c r =>
    refine fence_cons (Bool.or_eq_true_iff.2 ((head_of_afterGap? h).imp_right fun hc => ?_))
    exact of_oneOf hc (oneOf "/;") (by decide)

theorem Tail.fence {t : Text} (h : Tail t) : Fence t := by
  have gap {s u : Text} (h : Gap s u) : s = u ∨ Fence s := by
    obtain h | ⟨r, hr, -⟩ := h.cases_head
    · exact Or.inl h
    · exact Or.inr (ends_of_afterGap? hr)
  rcases h with h | ⟨u, ⟨m, hat, hm⟩, -⟩
  · exact (gap h.1).elim (fun h => h ▸ fence_nil) id
  · refine (gap hat.1).elim (fun h => ?_) id
    rw [h, symbol?_eq_some.1 hm]
    exact fence_cons (by decide)

/-! ## The code of a statement -/

theorem skip_skip (s : Text) : skip (skip s) = skip s :=
  (Gap.eq_skip .refl (afterGap?_skip s)).symm

theorem code_of_statement {s t : Text} {found : Statement}
    (h : (some found, t) ∈ (statement s).readings) :
    Derives false .expression s found.tree t ∧ skip s = found.code ++ t := by
  simp only [statement, Attempt.mem_also, Attempt.mem_bind, Attempt.mem_pure, Prod.exists,
    Prod.mk.injEq] at h
  obtain ⟨tree, t, htree, hfound, rfl⟩ | ⟨hfound, -⟩ := h
  · cases hfound
    have hderives : Derives false .expression s tree t :=
      (Form.read_exact (Nat.lt_succ_self _) tree t).1 htree
    obtain ⟨code, hcode⟩ := (hderives.of_skip_eq (skip_skip s).symm).rest.suffix
    refine ⟨hderives, ?_⟩
    simp [← hcode]
  · cases hfound

theorem mem_statements {count : Nat} {s : Text} {first : Option Statement}
    {others : List (Option Statement)} :
    first :: others ∈ (statements (count + 1) s).readings ↔
      ∃ t, (first, t) ∈ (statement s).readings ∧
        (others = [] ∧ At false t [] ∨
          ∃ u, Reads false (symbol? ";") t u ∧ others ∈ (statements count u).readings) := by
  simp only [statements, Attempt.mem_bind, Attempt.mem_also, Attempt.mem_symbol_iff,
    Attempt.mem_ended_iff, Attempt.mem_pure, Prod.exists, List.cons.injEq]
  constructor
  · rintro ⟨x, t, hx, ⟨-, hend, rfl, rfl⟩ | ⟨u, hu, ys, hys, rfl, rfl⟩⟩
    · exact ⟨t, hx, Or.inl ⟨rfl, hend⟩⟩
    · exact ⟨t, hx, Or.inr ⟨u, hu, hys⟩⟩
  · rintro ⟨t, hx, ⟨rfl, hend⟩ | ⟨u, hu, hothers⟩⟩
    · exact ⟨first, t, hx, Or.inl ⟨(), hend, rfl, rfl⟩⟩
    · exact ⟨first, t, hx, Or.inr ⟨u, hu, others, hothers, rfl, rfl⟩⟩

theorem nil_not_mem_statements {count : Nat} {s : Text} :
    [] ∉ (statements count s).readings := by
  cases count with
  | zero => exact Attempt.not_mem_nothing
  | succ count => simp [statements]

/-- What follows the one expression of a text. -/
theorem tail_of_single {count : Nat} {s : Text} {found : List (Option Statement)}
    {only : Statement} (h : found ∈ (statements count s).readings)
    (hone : single found = .ok only) :
    ∃ t, Tail t ∧ Derives false .expression s only.tree t ∧ skip s = only.code ++ t := by
  cases count with
  | zero => exact absurd h Attempt.not_mem_nothing
  | succ count =>
    rcases single_eq_ok.1 hone with rfl | rfl
    · obtain ⟨t, hfirst, ⟨-, hend⟩ | ⟨u, -, hothers⟩⟩ := mem_statements.1 h
      · exact ⟨t, Or.inl hend, code_of_statement hfirst⟩
      · exact absurd hothers nil_not_mem_statements
    · obtain ⟨t, hfirst, ⟨hnil, -⟩ | ⟨u, hu, hothers⟩⟩ := mem_statements.1 h
      · cases hnil
      · refine ⟨t, Or.inr ⟨u, hu, ?_⟩, code_of_statement hfirst⟩
        cases count with
        | zero => exact absurd hothers Attempt.not_mem_nothing
        | succ count =>
          obtain ⟨v, hempty, ⟨-, hend⟩ | ⟨w, -, hothers⟩⟩ := mem_statements.1 hothers
          · cases statement_exact.1 ⟨none, hempty, rfl⟩
            exact hend
          · exact absurd hothers nil_not_mem_statements

theorem mem_of_parse {s : Text} {found : List (Option Statement)} (h : parse s = .ok found) :
    found ∈ (statements (s.length + 1) s).readings := by
  unfold parse at h
  dsimp only at h
  split at h
  · rename_i first others hreadings
    cases h
    exact hreadings ▸ List.mem_cons_self
  · cases h

/-- The code of a guard spells its expression, and nothing that matters is around it. -/
theorem tail_of_compile {s : Text} {g : Guard} (h : compile s = .ok g) :
    ∃ tree t, Tail t ∧ Derives false .expression s tree t ∧ tree.build = .ok g.expr ∧
      skip s = g.code ++ t := by
  obtain ⟨-, found, hfound, only, hone, hcode, hbuild⟩ := compile_eq_ok.1 h
  obtain ⟨t, ht, hderives, hskip⟩ := tail_of_single (mem_of_parse hfound) hone
  exact ⟨only.tree, t, ht, hderives, hbuild, hcode ▸ hskip⟩

/-! ## Code in other texts -/

theorem bare_of_derives {s c t : Text} {tree : Tree} {e : Expr} (ht : Tail t)
    (hskip : skip s = c ++ t) (h : Derives false .expression s tree t)
    (hbuild : tree.build = .ok e) : Bare c e := by
  refine ⟨tree, (derives_append_iff ht.fence (u := [])).1 ?_, hbuild⟩
  rw [← hskip]
  exact h.of_skip_eq (skip_skip s).symm

theorem derives_of_bare {s c t : Text} {e : Expr} (ht : Tail t) (hskip : skip s = c ++ t)
    (h : Bare c e) : ∃ tree, Derives false .expression s tree t ∧ tree.build = .ok e := by
  obtain ⟨tree, hderives, hbuild⟩ := h
  refine ⟨tree, Derives.of_skip_eq ?_ (skip_skip s), hbuild⟩
  rw [hskip]
  exact (derives_append_iff ht.fence).2 hderives

theorem spelled_of_tail {s t : Text} {tree : Tree} (ht : Tail t)
    (h : Derives false .expression s tree t) : Spelled s tree := by
  rcases ht with hend | ⟨u, hu, hend⟩
  · exact Or.inl (.last (.expression h) hend)
  · exact Or.inr (.more (.expression h) hu (.last .empty hend))

theorem Tail.full {t : Text} (h : Tail t) :
    At true t [] ∨ ∃ u, Reads true (symbol? ";") t u := by
  rcases h with hend | ⟨u, hu, -⟩
  · exact Or.inl ⟨hend.1, fun _ => rfl⟩
  · exact Or.inr ⟨u, hu.full_symbol (by decide)⟩

/-- In a clean text there is one expression with what can follow it. -/
theorem tail_unique {s t t' : Text} (hs : Clean s) {tree tree' : Tree} (ht : Tail t) (ht' : Tail t')
    (h : Derives false .expression s tree t) (h' : Derives false .expression s tree' t') :
    tree = tree' ∧ t = t' := by
  have heq := (Stated.expression (h.full hs)).unique (.expression (h'.full hs)) ht.full ht'.full
  exact ⟨Option.some.inj heq.1, heq.2⟩

theorem compile_iff_of_clean {s : Text} (hs : Clean s) (g : Guard) :
    compile s = .ok g ↔ statementKind? s = none ∧ Bare g.code g.expr ∧
      ∃ t, Tail t ∧ skip s = g.code ++ t := by
  constructor
  · intro h
    obtain ⟨tree, t, ht, hderives, hbuild, hskip⟩ := tail_of_compile h
    exact ⟨(compile_eq_ok.1 h).1, bare_of_derives ht hskip hderives hbuild, t, ht, hskip⟩
  · rintro ⟨hkind, hbare, t, ht, hskip⟩
    obtain ⟨tree, hderives, hbuild⟩ := derives_of_bare ht hskip hbare
    have hspelled := spelled_of_tail ht hderives
    obtain ⟨g', hg'⟩ :=
      compile_of_spelled hs.clear hkind hspelled (hspelled.build_isOk_iff.1 ⟨_, hbuild⟩)
    obtain ⟨tree', t', ht', hderives', hbuild', hskip'⟩ := tail_of_compile hg'
    obtain ⟨rfl, rfl⟩ := tail_unique hs ht ht' hderives hderives'
    have hcode : g'.code = g.code := List.append_cancel_right (hskip'.symm.trans hskip)
    have hexpr : g'.expr = g.expr := Except.ok.inj (hbuild'.symm.trans hbuild)
    obtain ⟨code, expr⟩ := g
    obtain ⟨code', expr'⟩ := g'
    cases hcode
    cases hexpr
    exact hg'

theorem compile_iff {s : Text} (hs : Plain s) (g : Guard) :
    compile s = .ok g ↔ statementKind? s = none ∧ Bare g.code g.expr ∧
      ∃ t, Tail t ∧ skip s = g.code ++ t :=
  compile_iff_of_clean hs.clean g

/-! ## Texts that start like statements -/

theorem statementKind?_eq_none {s : Text} :
    statementKind? s = none ↔
      (∀ p ∈ statementWords, word? p.1 (s.dropWhile CodePoint.isBlank) = none) ∧
        startsDeclaration (s.dropWhile CodePoint.isBlank) = false ∧
        nextIs (oneOf "\x7b") (s.dropWhile CodePoint.isBlank) = false ∧
        nextIs (oneOf ";") (s.dropWhile CodePoint.isBlank) = false := by
  unfold statementKind?
  dsimp only
  split
  · rename_i hfound
    have hword := List.find?_some hfound
    have hmem := List.mem_of_find?_eq_some hfound
    refine iff_of_false nofun fun h => ?_
    rw [h.1 _ hmem] at hword
    cases hword
  · rename_i hnone
    have hwords : ∀ p ∈ statementWords, word? p.1 (s.dropWhile CodePoint.isBlank) = none := by
      simpa using hnone
    rw [and_iff_right hwords]
    split_ifs with hdeclares hblock hempty
    · simp [hdeclares]
    · simp [hblock]
    · simp [hempty]
    · simp [hdeclares, hblock, hempty]

/-- A code point that can stand at the start of a statement that is no expression, or before it. -/
def startsStatement (c : CodePoint) : Bool :=
  c.isBlank || oneOf "\x7b;" c || CodePoint.between 'a' 'z' c

theorem statementKind?_of_head {c : CodePoint} (h : startsStatement c = false) (s : Text) :
    statementKind? (c :: s) = none := by
  simp only [startsStatement, Bool.or_eq_false_iff] at h
  obtain ⟨⟨hblank, hmark⟩, hsmall⟩ := h
  have hwords : ∀ p ∈ statementWords,
      (Text.ofString p.1).head?.any (CodePoint.between 'a' 'z') = true := by
    decide +kernel
  rw [statementKind?_eq_none, List.dropWhile_cons_of_neg (Bool.eq_false_iff.1 hblank)]
  refine ⟨fun p hp => ?_, ?_, oneOf_eq_false (p := oneOf "\x7b;") (by decide) hmark,
    oneOf_eq_false (p := oneOf "\x7b;") (by decide) hmark⟩
  · rw [word?, symbolNot?, symbol?_eq_none (hwords p hp) hsmall]
    rfl
  · rw [startsDeclaration, symbol?_eq_none (p := CodePoint.between 'a' 'z') (by decide) hsmall]

theorem nextIs_append {p : CodePoint → Bool} {x t : Text} (h : nextIs p x = true) :
    nextIs p (x ++ t) = true := by
  cases x with
  | nil => cases h
  | cons c r => exact h

theorem startsDeclaration_append {x t : Text} (h : startsDeclaration x = true) :
    startsDeclaration (x ++ t) = true := by
  unfold startsDeclaration at h ⊢
  split at h
  · cases h
  · rename_i y hy
    rw [Bool.and_eq_true] at h
    have hne : y.dropWhile CodePoint.isBlank ≠ [] := by
      intro hnil
      rw [hnil] at h
      cases h.2
    simp only [symbol?_append_iff.2 hy, dropWhile_append_of_ne hne, nextIs_append h.1,
      nextIs_append h.2, Bool.and_self]

/-- A text that starts no statement starts none without what follows its first expression. -/
theorem statementKind?_of_append {c t : Text} (ht : Fence t) (hstuck : afterGap? (c ++ t) = none)
    (hc : c ≠ []) (h : statementKind? (c ++ t) = none) : statementKind? c = none := by
  obtain ⟨d, r, rfl⟩ := List.exists_cons_of_ne_nil hc
  have hblank : d.isBlank = false := by
    rw [Bool.eq_false_iff]
    intro hblank
    have hspace : isSpace d = true := Bool.or_eq_true_iff.2 (Or.inl hblank)
    simp [afterGap?, hspace] at hstuck
  have hstart (u : Text) : (d :: u).dropWhile CodePoint.isBlank = d :: u :=
    List.dropWhile_cons_of_neg (Bool.eq_false_iff.1 hblank)
  rw [statementKind?_eq_none, List.cons_append, hstart, ← List.cons_append] at h
  rw [statementKind?_eq_none, hstart]
  obtain ⟨hwords, hdeclares, hmarks⟩ := h
  refine ⟨fun p hp => ?_, ?_, hmarks⟩
  · have hsolid : ∀ p ∈ statementWords, solid p.1 = true := by decide +kernel
    have hword := hwords p hp
    rwa [word?_append ht (hsolid p hp) hc, Option.map_eq_none_iff] at hword
  · rw [Bool.eq_false_iff]
    intro hdeclares'
    rw [startsDeclaration_append hdeclares'] at hdeclares
    cases hdeclares

theorem Bare.ne_nil {c : Text} {e : Expr} (h : Bare c e) : c ≠ [] := by
  obtain ⟨tree, hderives, -⟩ := h
  rintro rfl
  exact absurd hderives.rest.shorter (Nat.not_lt_zero _)

/-- Compiling a text and then its code. The code spells the same expression, and around it the text
has white space, comments and perhaps a semicolon, which say nothing else; a plain text that
consists of such parts compiles unless it starts like a statement. So the code compiles to the same
guard unless it starts like a statement, and that it does not if only white space stands before it
in the text. -/
theorem compile_code (s : Text) :
    (∀ g, compile s = .ok g → Bare g.code g.expr ∧ ∃ t, Tail t ∧ skip s = g.code ++ t) ∧
    (Plain s → ∀ g, statementKind? s = none → Bare g.code g.expr →
      (∃ t, Tail t ∧ skip s = g.code ++ t) → compile s = .ok g) ∧
    (∀ g, compile s = .ok g → Plain g.code →
      (compile g.code = .ok g ↔ statementKind? g.code = none)) ∧
    (∀ g, compile s = .ok g → s.dropWhile CodePoint.isBlank = skip s →
      statementKind? g.code = none) := by
  have parts {g : Guard} (h : compile s = .ok g) :
      Bare g.code g.expr ∧ ∃ t, Tail t ∧ skip s = g.code ++ t := by
    obtain ⟨tree, t, ht, hderives, hbuild, hskip⟩ := tail_of_compile h
    exact ⟨bare_of_derives ht hskip hderives hbuild, t, ht, hskip⟩
  have stuck {t : Text} {g : Guard} (hskip : skip s = g.code ++ t) :
      afterGap? (g.code ++ t) = none :=
    hskip ▸ afterGap?_skip s
  refine ⟨fun g => parts,
    fun hs g hkind hbare hparts => (compile_iff hs g).2 ⟨hkind, hbare, hparts⟩,
    fun g h hplain => ?_, fun g h hblank => ?_⟩
  · obtain ⟨hbare, t, -, hskip⟩ := parts h
    have hcode : skip g.code = g.code ++ [] := by
      rw [List.append_nil]
      exact (Gap.eq_skip .refl (stuck_of_append_stuck (stuck hskip))).symm
    rw [compile_iff hplain]
    exact and_iff_left ⟨hbare, [], Or.inl (.here []), hcode⟩
  · obtain ⟨hbare, t, ht, hskip⟩ := parts h
    refine statementKind?_of_append ht.fence (stuck hskip) hbare.ne_nil ?_
    have hkind := (compile_eq_ok.1 h).1
    rw [← hskip, ← hblank]
    rw [statementKind?_eq_none] at hkind ⊢
    rwa [List.dropWhile_idempotent]

theorem compile_code_spaced :
    Plain " b;" ∧ compile " b;" = .ok ⟨"b", .name "b"⟩ ∧
      (Text.ofString " b;").dropWhile CodePoint.isBlank = skip " b;" ∧ Plain "b" ∧
      Bare "b" (.name "b") ∧ statementKind? " b;" = none ∧ statementKind? "b" = none ∧
      compile "b" = .ok ⟨"b", .name "b"⟩ := by
  obtain ⟨hparts, hback, hagain, hblank⟩ := compile_code " b;"
  have hs : Plain " b;" := by decide +kernel
  have hcode : Plain "b" := by decide +kernel
  have hspace : (Text.ofString " b;").dropWhile CodePoint.isBlank = skip " b;" := by decide +kernel
  have hkind : statementKind? " b;" = none := by decide +kernel
  have hcompile : compile " b;" = .ok ⟨"b", .name "b"⟩ := rfl
  obtain ⟨hbare, hcut⟩ := hparts _ hcompile
  have hkind' := hblank _ hcompile hspace
  exact ⟨hs, hback hs _ hkind hbare hcut, hspace, hcode, hbare, hkind, hkind',
    (hagain _ hcompile hcode).2 hkind'⟩

/-- A comment hides an object from the search for statements, but the code of the guard is the
object alone. And where a division sign is read at the start of a comment, the code without what
follows it has another reading. -/
theorem compile_hidden :
    (compile "/**/\x7ba:1\x7d" = .ok
        ⟨"\x7ba:1\x7d", .object [.named "a" (.literal (.number (.int 1)))]⟩ ∧
      compile "\x7ba:1\x7d" = .error (.statement "BlockStatement")) ∧
    compile "a //*c*/ b /*\n*/" = .ok ⟨"a //*c*/ b", .binary .div (.name "a") (.name "b")⟩ ∧
    compile "a //*c*/ b" = .ok ⟨"a", .name "a"⟩ :=
  ⟨⟨rfl, rfl⟩, rfl, rfl⟩

end Guard

end GuardedText
