import GuardedText.Proofs.Guard.Grammar

/-
  The reader of guards finds exactly what the grammar derives. Each function of the reader is exact
  at a text when the reader it is given is exact at all that is left of the text; so by induction on
  the steps that may be nested, reading is exact (`Form.read_exact`) and the statements found in a
  text are those that the grammar gives it (`statements_exact`).
-/

namespace GuardedText

open Token Attempt

/-! ## Tokens -/

theorem Token.at_false {s t : Text} : At false s t ↔ Gap s t := by
  simp [At]

theorem Attempt.mem_token_iff {α : Type} {find : Text → Option α} {s : Text} {a : α} :
    a ∈ (token find s).readings ↔ Reads false find s a := by
  simp only [mem_token, mem_stops, Reads, at_false]

theorem Attempt.mem_symbol_iff {w : String} {s u : Text} :
    u ∈ (symbol w s).readings ↔ Reads false (symbol? w) s u := mem_token_iff

theorem Attempt.mem_ended_iff {s : Text} {a : Unit} :
    a ∈ (ended s).readings ↔ At false s [] := by
  simp [ended, mem_token_iff, Reads]

/-! ## What forms mean -/

/-- What the grammar says of a form: how it is read, and what follows. -/
def Form.Means : (f : Form) → Text → f.Out → Text → Prop
  | .expression => Derives false .expression
  | .assignment => Derives false .assignment
  | .operand level => Derives false (.level (min level BinaryOp.tightest))
  | .unary => fun s a u => if a.2 then Derives false .accessed s a.1 u else Signed false s a.1 u
  | .names => Derives false .names
  | .items bracket => Derives false (.items bracket)
  | .entries => Derives false .entries
  | .more series e => fun s a u => Chain false series (e, s) (a, u)

/-- `read` finds for a form, at the start of a text, just what the form means there. -/
def Reader.Exact (read : Reader) (f : Form) (s : Text) : Prop :=
  ∀ a u, (a, u) ∈ (read f s).readings ↔ f.Means s a u

theorem exists_unary {s u : Text} {e : Tree} :
    (∃ bare, Form.Means .unary s (e, bare) u) ↔ Derives false .unary s e u := by
  simp [Form.Means, derives_unary, or_comm]

namespace Reader

section

variable {read : Reader} {s : Text} (inner : ∀ f t, Rest s t → read.Exact f t)

include inner

/-! ## Accesses and operands -/

theorem access_exact {e a : Tree} {u : Text} :
    (a, u) ∈ (read.access e s).readings ↔ Next false .accesses (e, s) (a, u) := by
  simp only [access, mem_anyOf_cons, not_mem_anyOf_nil, or_false, mem_bind, mem_symbol_iff,
    mem_token_iff, mem_pure, Prod.exists, Prod.mk.injEq]
  refine ⟨?_, fun h => ?_⟩
  · rintro (⟨t, hw, n, v, hn, rfl, rfl⟩ | ⟨t, hw, k, v, hk, w, hx, rfl, rfl⟩ |
      ⟨t, hw, as, v, has, rfl, rfl⟩ | ⟨t, hw, n, v, hn, rfl, rfl⟩ |
      ⟨q, hq, t, hw, k, v, hk, w, hx, rfl, rfl⟩ | ⟨q, hq, t, hw, as, v, has, rfl, rfl⟩)
    · exact .member hw hn
    · exact .index hw ((inner .expression t (hw.symbol_rest (by decide)) k v).1 hk) hx
    · exact .call hw ((inner (.items .round) t (hw.symbol_rest (by decide)) as u).1 has)
    · exact .optionalMember hw hn
    · have ht := (hq.symbol_rest (by decide)).trans (hw.symbol_rest (by decide))
      exact .optionalIndex hq hw ((inner .expression t ht k v).1 hk) hx
    · have ht := (hq.symbol_rest (by decide)).trans (hw.symbol_rest (by decide))
      exact .optionalCall hq hw ((inner (.items .round) t ht as u).1 has)
  · cases h with
    | member hw hn => exact Or.inl ⟨_, hw, _, _, hn, rfl, rfl⟩
    | index hw hk hx =>
      have hk := (inner .expression _ (hw.symbol_rest (by decide)) _ _).2 hk
      exact Or.inr (Or.inl ⟨_, hw, _, _, hk, _, hx, rfl, rfl⟩)
    | call hw has =>
      have has := (inner (.items .round) _ (hw.symbol_rest (by decide)) _ _).2 has
      exact Or.inr (Or.inr (Or.inl ⟨_, hw, _, _, has, rfl, rfl⟩))
    | optionalMember hw hn =>
      exact Or.inr (Or.inr (Or.inr (Or.inl ⟨_, hw, _, _, hn, rfl, rfl⟩)))
    | optionalIndex hq hw hk hx =>
      have ht := (hq.symbol_rest (by decide)).trans (hw.symbol_rest (by decide))
      have hk := (inner .expression _ ht _ _).2 hk
      exact Or.inr (Or.inr (Or.inr (Or.inr (Or.inl ⟨_, hq, _, hw, _, _, hk, _, hx, rfl, rfl⟩))))
    | optionalCall hq hw has =>
      have ht := (hq.symbol_rest (by decide)).trans (hw.symbol_rest (by decide))
      have has := (inner (.items .round) _ ht _ _).2 has
      exact Or.inr (Or.inr (Or.inr (Or.inr (Or.inr ⟨_, hq, _, hw, _, _, has, rfl, rfl⟩))))

theorem primary_exact {a : Tree} {u : Text} :
    (a, u) ∈ (read.primary s).readings ↔ Derives false .primary s a u := by
  simp only [primary, mem_anyOf_cons, not_mem_anyOf_nil, or_false, mem_bind, mem_symbol_iff,
    mem_token_iff, mem_pure, Prod.exists, Prod.mk.injEq]
  refine ⟨?_, fun h => ?_⟩
  · rintro (⟨k, v, hk, rfl, rfl⟩ | ⟨k, v, hk, rfl, rfl⟩ | ⟨k, v, hk, rfl, rfl⟩ |
      ⟨n, v, hn, rfl, rfl⟩ | ⟨t, hw, as, v, has, rfl, rfl⟩ | ⟨t, hw, as, v, has, rfl, rfl⟩ |
      ⟨t, hw, e, v, he, w, hx, rfl, rfl⟩)
    · exact .number hk
    · exact .string hk
    · exact .constant hk
    · exact .name hn
    · exact .array hw ((inner (.items .square) t (hw.symbol_rest (by decide)) as u).1 has)
    · exact .object hw ((inner .entries t (hw.symbol_rest (by decide)) as u).1 has)
    · exact .paren hw ((inner .expression t (hw.symbol_rest (by decide)) e v).1 he) hx
  · cases h with
    | number hk => exact Or.inl ⟨_, _, hk, rfl, rfl⟩
    | string hk => exact Or.inr (Or.inl ⟨_, _, hk, rfl, rfl⟩)
    | constant hk => exact Or.inr (Or.inr (Or.inl ⟨_, _, hk, rfl, rfl⟩))
    | name hn => exact Or.inr (Or.inr (Or.inr (Or.inl ⟨_, _, hn, rfl, rfl⟩)))
    | array hw has =>
      have has := (inner (.items .square) _ (hw.symbol_rest (by decide)) _ _).2 has
      exact Or.inr (Or.inr (Or.inr (Or.inr (Or.inl ⟨_, hw, _, _, has, rfl, rfl⟩))))
    | object hw has =>
      have has := (inner .entries _ (hw.symbol_rest (by decide)) _ _).2 has
      exact Or.inr (Or.inr (Or.inr (Or.inr (Or.inr (Or.inl ⟨_, hw, _, _, has, rfl, rfl⟩)))))
    | paren hw he hx =>
      have he := (inner .expression _ (hw.symbol_rest (by decide)) _ _).2 he
      exact Or.inr (Or.inr (Or.inr (Or.inr (Or.inr (Or.inr
        ⟨_, hw, _, _, he, _, hx, rfl, rfl⟩)))))

theorem unary_exact {a : Tree × Bool} {u : Text} :
    (a, u) ∈ (read.unary s).readings ↔ Form.Means .unary s a u := by
  simp only [unary, mem_anyOf_cons, not_mem_anyOf_nil, or_false, mem_bind, mem_token_iff,
    primary_exact inner, mem_pure, Prod.exists, Prod.mk.injEq]
  have deeper {t : Text} (ht : Rest s t) {e : Tree} {u : Text} :
      (∃ bare, ((e, bare), u) ∈ (read .unary t).readings) ↔ Derives false .unary t e u := by
    simp only [inner .unary t ht _ _, exists_unary]
  refine ⟨?_, fun h => ?_⟩
  · rintro (⟨op, t, hop, e, bare, v, he, rfl, rfl⟩ | ⟨t, hw, e, bare, v, he, rfl, rfl⟩ |
      ⟨t, hw, e, bare, v, he, rfl, rfl⟩ | ⟨e, t, he, f, v, hf, rfl, rfl⟩)
    · exact Signed.unary hop ((deeper (hop.rest rest_unary?)).1 ⟨bare, he⟩)
    · exact Signed.delete hw ((deeper (hw.word_rest (by decide))).1 ⟨bare, he⟩)
    · exact Signed.await hw ((deeper (hw.word_rest (by decide))).1 ⟨bare, he⟩)
    · have hf := (inner (.more .accesses e) t he.rest f u).1 hf
      exact derives_accessed.2 ⟨e, t, he, hf⟩
  · obtain ⟨e, bare⟩ := a
    cases bare with
    | false =>
      cases (h : Signed false s e u) with
      | unary hop he =>
        obtain ⟨bare, he⟩ := (deeper (hop.rest rest_unary?)).2 he
        exact Or.inl ⟨_, _, hop, _, bare, _, he, rfl, rfl⟩
      | delete hw he =>
        obtain ⟨bare, he⟩ := (deeper (hw.word_rest (by decide))).2 he
        exact Or.inr (Or.inl ⟨_, hw, _, bare, _, he, rfl, rfl⟩)
      | await hw he =>
        obtain ⟨bare, he⟩ := (deeper (hw.word_rest (by decide))).2 he
        exact Or.inr (Or.inr (Or.inl ⟨_, hw, _, bare, _, he, rfl, rfl⟩))
    | true =>
      obtain ⟨f, t, hf, hchain⟩ := derives_accessed.1 (h : Derives false .accessed s e u)
      have he := (inner (.more .accesses f) t hf.rest e u).2 hchain
      exact Or.inr (Or.inr (Or.inr ⟨f, t, hf, e, u, he, rfl, rfl⟩))

/-! ## Operators -/

omit inner in
theorem mem_climb_succ {loosest count : Nat} {e a : Tree} {t u : Text} :
    (a, u) ∈ (read.climb loosest (count + 1) e t).readings ↔
      ∃ f v, (f, v) ∈ (read.climb (loosest + 1) count e t).readings ∧
        (a, u) ∈ (read (.more (.operators loosest) f) v).readings := by
  induction count generalizing e t with
  | zero => simp [climb]
  | succ count ih =>
    have hlevel : loosest + (count + 1) = loosest + 1 + count := by omega
    rw [climb, mem_bind, climb, hlevel]
    simp only [Prod.exists, ih, mem_bind]
    constructor
    · rintro ⟨f, v, hf, g, w, hg, ha⟩
      exact ⟨g, w, ⟨f, v, hf, hg⟩, ha⟩
    · rintro ⟨g, w, ⟨f, v, hf, hg⟩, ha⟩
      exact ⟨f, v, hf, g, w, hg, ha⟩

variable (first : read.Exact .unary s)

include first

theorem power_exact {a : Tree} {u : Text} :
    (∃ x t, (x, t) ∈ (read .unary s).readings ∧ (a, u) ∈ (read.power x t).readings) ↔
      Derives false (.level BinaryOp.tightest) s a u := by
  have exponent {t v : Text} {e f : Tree} (he : Derives false .accessed s e t)
      (hw : Reads false (symbol? "**") t v) :=
    inner (.operand BinaryOp.tightest) v (he.rest.trans (hw.symbol_rest (by decide))) f u
  simp only [first _ _, power, mem_also, mem_pure, Prod.mk.injEq]
  refine ⟨?_, fun h => ?_⟩
  · rintro ⟨⟨e, bare⟩, t, he, ⟨rfl, rfl⟩ | hp⟩
    · exact .base (exists_unary.1 ⟨bare, he⟩)
    · cases bare with
      | false => exact absurd hp not_mem_nothing
      | true =>
        simp only [if_true, mem_bind, mem_symbol_iff, mem_pure, Prod.exists, Prod.mk.injEq] at hp
        obtain ⟨v, hw, f, w, hf, rfl, rfl⟩ := hp
        exact .power he hw ((exponent he hw).1 hf)
  · cases h with
    | tighter hk => exact absurd hk (Nat.lt_irrefl _)
    | binary hk => exact absurd hk (Nat.lt_irrefl _)
    | base he =>
      obtain ⟨bare, he⟩ := exists_unary.2 he
      exact ⟨_, u, he, Or.inl ⟨rfl, rfl⟩⟩
    | power he hw hf =>
      refine ⟨(_, true), _, he, Or.inr ?_⟩
      simp only [if_true, mem_bind, mem_symbol_iff, mem_pure, Prod.exists, Prod.mk.injEq]
      exact ⟨_, hw, _, _, (exponent he hw).2 hf, rfl, rfl⟩

theorem climb_exact {level count : Nat} (h : level + count = BinaryOp.tightest) {a : Tree}
    {u : Text} :
    (∃ x t, (x, t) ∈ (read .unary s).readings ∧ ∃ e v, (e, v) ∈ (read.power x t).readings ∧
      (a, u) ∈ (read.climb level count e v).readings) ↔ Derives false (.level level) s a u := by
  induction count generalizing level a u with
  | zero =>
    obtain rfl : level = BinaryOp.tightest := h
    rw [← power_exact inner first]
    simp [climb]
  | succ count ih =>
    have hlevel : level < BinaryOp.tightest := by omega
    simp only [mem_climb_succ]
    rw [derives_level hlevel]
    refine ⟨?_, ?_⟩
    · rintro ⟨x, t, hx, e, v, he, f, w, hf, ha⟩
      have hf := (ih (by omega)).1 ⟨x, t, hx, e, v, he, hf⟩
      exact ⟨f, w, hf, (inner (.more (.operators level) f) w hf.rest a u).1 ha⟩
    · rintro ⟨f, w, hf, ha⟩
      have ha := (inner (.more (.operators level) f) w hf.rest a u).2 ha
      obtain ⟨x, t, hx, e, v, he, hf⟩ := (ih (by omega)).2 hf
      exact ⟨x, t, hx, e, v, he, f, w, hf, ha⟩

theorem operandFrom_exact {level : Nat} {a : Tree} {u : Text} :
    (∃ x t, (x, t) ∈ (read .unary s).readings ∧ (a, u) ∈ (read.operandFrom level x t).readings) ↔
      Derives false (.level (min level BinaryOp.tightest)) s a u := by
  have hcount : min level BinaryOp.tightest + (BinaryOp.tightest - level) = BinaryOp.tightest := by
    omega
  rw [← climb_exact inner first hcount]
  simp only [operandFrom, mem_bind, Prod.exists]
  by_cases h : level ≤ BinaryOp.tightest
  · rw [min_eq_left h]
  · have hnone : BinaryOp.tightest - level = 0 := by omega
    simp only [hnone, climb]

/-! ## Short circuits, conditionals, assignments -/

omit first in
theorem shortCircuit_exact {a : Tree} {u : Text} :
    (∃ e t, Derives false (.level 1) s e t ∧ (a, u) ∈ (read.shortCircuit e t).readings) ↔
      Derives false .shortCircuit s a u := by
  simp only [shortCircuit, mem_also, mem_bind, mem_symbol_iff, Prod.exists]
  refine ⟨?_, fun h => ?_⟩
  · rintro ⟨e, t, he, ⟨f, v, hf, ha⟩ | ⟨v, hw, f, w, hf, ha⟩⟩
    · have hf := (inner (.more (.logical .and) e) t he.rest f v).1 hf
      have hf := derives_logicalAnd.2 ⟨e, t, he, hf⟩
      have ha := (inner (.more (.logical .or) f) v hf.rest a u).1 ha
      exact .either (derives_logicalOr.2 ⟨f, v, hf, ha⟩)
    · have hv := he.rest.trans (hw.symbol_rest (by decide))
      have hf := (inner (.operand 1) v hv f w).1 hf
      have ha := (inner (.more (.logical .coalesce) _) w (hv.trans hf.rest) a u).1 ha
      exact .coalesced (derives_coalesce.2 ⟨e, t, _, he, .coalesce hw hf, ha⟩)
  · cases h with
    | either h =>
      obtain ⟨f, v, hf, ha⟩ := derives_logicalOr.1 h
      have ha := (inner (.more (.logical .or) f) v hf.rest a u).2 ha
      obtain ⟨e, t, he, hf⟩ := derives_logicalAnd.1 hf
      have hf := (inner (.more (.logical .and) e) t he.rest f v).2 hf
      exact ⟨e, t, he, Or.inl ⟨f, v, hf, ha⟩⟩
    | coalesced h =>
      obtain ⟨e, t, x, he, hnext, ha⟩ := derives_coalesce.1 h
      cases hnext with
      | coalesce hw hf =>
        have hv := he.rest.trans (hw.symbol_rest (by decide))
        have ha := (inner (.more (.logical .coalesce) _) _ (hv.trans hf.rest) a u).2 ha
        have hf := (inner (.operand 1) _ hv _ _).2 hf
        exact ⟨e, t, he, Or.inr ⟨_, hw, _, _, hf, ha⟩⟩

omit first in
theorem branches_exact {a : Tree} {u : Text} :
    (∃ e t, Derives false .shortCircuit s e t ∧ (a, u) ∈ (read.branches e t).readings) ↔
      Derives false .conditional s a u := by
  simp only [branches, mem_also, mem_bind, mem_symbol_iff, mem_pure, Prod.exists, Prod.mk.injEq]
  refine ⟨?_, fun h => ?_⟩
  · rintro ⟨e, t, he, ⟨rfl, rfl⟩ | ⟨v, hw, f, w, hf, x, hx, g, y, hg, rfl, rfl⟩⟩
    · exact .test he
    · have hv := he.rest.trans (hw.symbol_rest (by decide))
      have hf := (inner .assignment v hv f w).1 hf
      have hx' := (hv.trans hf.rest).trans (hx.symbol_rest (by decide))
      exact .conditional he hw hf hx ((inner .assignment x hx' g u).1 hg)
  · cases h with
    | test he => exact ⟨a, u, he, Or.inl ⟨rfl, rfl⟩⟩
    | conditional he hw hf hx hg =>
      have hv := he.rest.trans (hw.symbol_rest (by decide))
      have hx' := (hv.trans hf.rest).trans (hx.symbol_rest (by decide))
      have hf := (inner .assignment _ hv _ _).2 hf
      have hg := (inner .assignment _ hx' _ _).2 hg
      exact ⟨_, _, he, Or.inr ⟨_, hw, _, _, hf, _, hx, _, _, hg, rfl, rfl⟩⟩

theorem conditional_exact {a : Tree} {u : Text} :
    (∃ x t, (x, t) ∈ (read .unary s).readings ∧ (a, u) ∈ (read.conditional x t).readings) ↔
      Derives false .conditional s a u := by
  have operand (e : Tree) (v : Text) := @operandFrom_exact read s inner first 1 e v
  rw [← branches_exact inner]
  simp only [conditional, mem_bind]
  refine ⟨?_, ?_⟩
  · rintro ⟨x, t, hx, ⟨e, v⟩, he, ⟨f, w⟩, hf, ha⟩
    have he := (operand e v).1 ⟨x, t, hx, he⟩
    exact ⟨f, w, (shortCircuit_exact inner).1 ⟨e, v, he, hf⟩, ha⟩
  · rintro ⟨f, w, hf, ha⟩
    obtain ⟨e, v, he, hf⟩ := (shortCircuit_exact inner).2 hf
    obtain ⟨x, t, hx, he⟩ := (operand e v).2 he
    exact ⟨x, t, hx, (e, v), he, (f, w), hf, ha⟩

theorem assigned_exact {a : Tree} {u : Text} :
    (∃ x t, (x, t) ∈ (read .unary s).readings ∧ (a, u) ∈ (read.assigned x t).readings) ↔
      ∃ e t op v f, Derives false .accessed s e t ∧ Reads false assign? t (op, v) ∧
        Derives false .assignment v f u ∧ a = .assign op e f := by
  simp only [first _ _]
  refine ⟨?_, ?_⟩
  · rintro ⟨⟨e, bare⟩, t, he, ha⟩
    cases bare with
    | false => exact absurd ha not_mem_nothing
    | true =>
      simp only [assigned, if_true, mem_bind, mem_token_iff, mem_pure, Prod.exists,
        Prod.mk.injEq] at ha
      obtain ⟨op, v, hop, f, w, hf, rfl, rfl⟩ := ha
      have hv := (Derives.rest he).trans (hop.rest rest_assign?)
      exact ⟨e, t, op, v, f, he, hop, (inner .assignment v hv f u).1 hf, rfl⟩
  · rintro ⟨e, t, op, v, f, he, hop, hf, rfl⟩
    refine ⟨(e, true), t, he, ?_⟩
    simp only [assigned, if_true, mem_bind, mem_token_iff, mem_pure, Prod.exists, Prod.mk.injEq]
    have hv := he.rest.trans (hop.rest rest_assign?)
    exact ⟨op, v, hop, f, u, (inner .assignment v hv f u).2 hf, rfl, rfl⟩

omit first in
theorem params_exact {a : List Text} {u : Text} :
    (a, u) ∈ (read.params s).readings ↔ Derives false .params s a u := by
  simp only [params, mem_also, mem_bind, mem_symbol_iff, mem_token_iff, mem_pure, Prod.exists,
    Prod.mk.injEq]
  refine ⟨?_, fun h => ?_⟩
  · rintro (⟨n, v, hn, rfl, rfl⟩ | ⟨t, hw, ha⟩)
    · exact .param hn
    · exact .params hw ((inner .names t (hw.symbol_rest (by decide)) a u).1 ha)
  · cases h with
    | param hn => exact Or.inl ⟨_, _, hn, rfl, rfl⟩
    | params hw ha => exact Or.inr ⟨_, hw, (inner .names _ (hw.symbol_rest (by decide)) a u).2 ha⟩

omit first in
theorem arrow_exact {a : Tree} {u : Text} :
    (a, u) ∈ (read.arrow s).readings ↔
      ∃ ns t v e, Derives false .params s ns t ∧ Reads false (symbol? "=>") t v ∧
        Derives false .assignment v e u ∧ a = .arrow ns e := by
  simp only [arrow, mem_bind, params_exact inner, mem_symbol_iff, mem_pure, Prod.exists,
    Prod.mk.injEq]
  refine ⟨?_, ?_⟩
  · rintro ⟨ns, t, hns, v, hw, e, w, he, rfl, rfl⟩
    have hv := hns.rest.trans (hw.symbol_rest (by decide))
    exact ⟨ns, t, v, e, hns, hw, (inner .assignment v hv e u).1 he, rfl⟩
  · rintro ⟨ns, t, v, e, hns, hw, he, rfl⟩
    have hv := hns.rest.trans (hw.symbol_rest (by decide))
    exact ⟨ns, t, hns, v, hw, e, u, (inner .assignment v hv e u).2 he, rfl, rfl⟩

theorem assignment_exact : read.step.Exact .assignment s := by
  intro a u
  have split : (a, u) ∈ (read.step .assignment s).readings ↔ (a, u) ∈ (read.arrow s).readings ∨
      (∃ x t, (x, t) ∈ (read .unary s).readings ∧ (a, u) ∈ (read.assigned x t).readings) ∨
      ∃ x t, (x, t) ∈ (read .unary s).readings ∧ (a, u) ∈ (read.conditional x t).readings := by
    simp only [step, mem_also, mem_bind, Prod.exists]
    simp only [and_or_left, exists_or]
  rw [split, arrow_exact inner, assigned_exact inner first, conditional_exact inner first]
  refine ⟨?_, fun h => ?_⟩
  · rintro (⟨ns, t, v, e, hns, hw, he, rfl⟩ | ⟨e, t, op, v, f, he, hop, hf, rfl⟩ | h)
    · exact .arrow hns hw he
    · exact .assign he hop hf
    · exact .choice h
  · cases (h : Derives false .assignment s a u) with
    | arrow hns hw he => exact Or.inl ⟨_, _, _, _, hns, hw, he, rfl⟩
    | assign he hop hf => exact Or.inr (Or.inl ⟨_, _, _, _, _, he, hop, hf, rfl⟩)
    | choice h => exact Or.inr (Or.inr h)

/-! ## Lists -/

omit inner first in
theorem item_exact (first : read.Exact .assignment s)
    (inner : ∀ f t, Rest s t → read.Exact f t) {a : TreeItem} {u : Text} :
    (a, u) ∈ (read.item s).readings ↔ Derives false .item s a u := by
  simp only [item, mem_also, mem_bind, mem_symbol_iff, mem_pure, Prod.exists, Prod.mk.injEq]
  refine ⟨?_, fun h => ?_⟩
  · rintro (⟨e, t, he, rfl, rfl⟩ | ⟨v, hw, e, t, he, rfl, rfl⟩)
    · exact .single ((first e u).1 he)
    · exact .spreadItem hw ((inner .assignment v (hw.symbol_rest (by decide)) e u).1 he)
  · cases h with
    | single he => exact Or.inl ⟨_, _, (first _ _).2 he, rfl, rfl⟩
    | spreadItem hw he =>
      have he := (inner .assignment _ (hw.symbol_rest (by decide)) _ _).2 he
      exact Or.inr ⟨_, hw, _, _, he, rfl, rfl⟩

omit first in
theorem entry_exact {a : TreeEntry} {u : Text} :
    (a, u) ∈ (read.entry s).readings ↔ Derives false .entry s a u := by
  simp only [entry, mem_anyOf_cons, not_mem_anyOf_nil, or_false, mem_bind, mem_symbol_iff,
    mem_token_iff, mem_pure, Prod.exists, Prod.mk.injEq]
  -- A key takes something of the text, so the value after it is read exactly.
  have value {t v : Text} (ht : Rest s t) (hw : Reads false (symbol? ":") t v) {e : Tree}
      {u : Text} := inner .assignment v (ht.trans (hw.symbol_rest (by decide))) e u
  refine ⟨?_, fun h => ?_⟩
  · rintro (⟨k, t, hk, v, hw, e, w, he, rfl, rfl⟩ | ⟨k, t, hk, v, hw, e, w, he, rfl, rfl⟩ |
      ⟨k, t, hk, v, hw, e, w, he, rfl, rfl⟩ |
      ⟨q, hq, k, w, hk, t, hx, v, hw, e, y, he, rfl, rfl⟩ | ⟨n, t, hn, rfl, rfl⟩ |
      ⟨v, hw, e, t, he, rfl, rfl⟩)
    · exact .named hk hw ((value (hk.rest rest_anyName?) hw).1 he)
    · exact .stringKey hk hw ((value (hk.rest rest_string?) hw).1 he)
    · exact .numberKey hk hw ((value (hk.rest rest_number?) hw).1 he)
    · have hq' := hq.symbol_rest (by decide)
      have hk := (inner .assignment q hq' k w).1 hk
      have ht := (hq'.trans hk.rest).trans (hx.symbol_rest (by decide))
      exact .computed hq hk hx hw ((value ht hw).1 he)
    · exact .shorthand hn
    · exact .spreadEntry hw ((inner .assignment v (hw.symbol_rest (by decide)) e u).1 he)
  · cases h with
    | named hk hw he =>
      exact Or.inl ⟨_, _, hk, _, hw, _, _, (value (hk.rest rest_anyName?) hw).2 he, rfl, rfl⟩
    | stringKey hk hw he =>
      have he := (value (hk.rest rest_string?) hw).2 he
      exact Or.inr (Or.inl ⟨_, _, hk, _, hw, _, _, he, rfl, rfl⟩)
    | numberKey hk hw he =>
      have he := (value (hk.rest rest_number?) hw).2 he
      exact Or.inr (Or.inr (Or.inl ⟨_, _, hk, _, hw, _, _, he, rfl, rfl⟩))
    | computed hq hk hx hw he =>
      have hq' := hq.symbol_rest (by decide)
      have ht := (hq'.trans hk.rest).trans (hx.symbol_rest (by decide))
      have he := (value ht hw).2 he
      have hk := (inner .assignment _ hq' _ _).2 hk
      exact Or.inr (Or.inr (Or.inr (Or.inl ⟨_, hq, _, _, hk, _, hx, _, hw, _, _, he, rfl, rfl⟩)))
    | shorthand hn =>
      exact Or.inr (Or.inr (Or.inr (Or.inr (Or.inl ⟨_, _, hn, rfl, rfl⟩))))
    | spreadEntry hw he =>
      have he := (inner .assignment _ (hw.symbol_rest (by decide)) _ _).2 he
      exact Or.inr (Or.inr (Or.inr (Or.inr (Or.inr ⟨_, hw, _, _, he, rfl, rfl⟩))))

omit inner first in
theorem mem_list {α : Type} {closing : String} {element : Text → Attempt (α × Text)}
    {rest : Text → Attempt (List α × Text)} {as : List α} {u : Text} :
    (as, u) ∈ (list closing element rest s).readings ↔
      Listed false closing (fun s a t => (a, t) ∈ (element s).readings)
        (fun v bs u => (bs, u) ∈ (rest v).readings) s as u := by
  simp only [list, Listed, mem_also, mem_bind, mem_symbol_iff, mem_pure, Prod.exists, Prod.mk.injEq]
  have closed {t : Text} {bs : List α} :
      (∃ v, Reads false (symbol? closing) t v ∧ as = bs ∧ u = v) ↔
        as = bs ∧ Reads false (symbol? closing) t u := by
    constructor
    · rintro ⟨_, hw, rfl, rfl⟩
      exact ⟨rfl, hw⟩
    · rintro ⟨rfl, hw⟩
      exact ⟨u, hw, rfl, rfl⟩
  refine or_congr closed (exists_congr fun a => exists_congr fun t => ?_)
  refine and_congr_right fun _ => or_congr closed ?_
  refine ⟨?_, ?_⟩
  · rintro ⟨v, hw, bs, w, hbs, rfl, rfl⟩
    exact ⟨v, bs, hw, hbs, rfl⟩
  · rintro ⟨v, bs, hw, hbs, rfl⟩
    exact ⟨v, hw, bs, u, hbs, rfl, rfl⟩

omit first in
theorem names_exact : read.step.Exact .names s := by
  intro a u
  refine mem_list.trans (Iff.trans ?_ derives_names.symm)
  exact Listed.congr (fun _ _ => mem_token_iff) (fun _ _ hn => hn.rest rest_name?)
    fun v bs hv => inner .names v hv bs u

omit inner first in
theorem items_exact (first : read.Exact .assignment s)
    (inner : ∀ f t, Rest s t → read.Exact f t) (bracket : Bracket) :
    read.step.Exact (.items bracket) s := by
  intro a u
  refine mem_list.trans (Iff.trans ?_ derives_items.symm)
  exact Listed.congr (fun _ _ => item_exact first inner) (fun _ _ hi => hi.rest)
    fun v bs hv => inner (.items bracket) v hv bs u

omit first in
theorem entries_exact : read.step.Exact .entries s := by
  intro a u
  refine mem_list.trans (Iff.trans ?_ derives_entries.symm)
  exact Listed.congr (fun _ _ => entry_exact inner) (fun _ _ hi => hi.rest)
    fun v bs hv => inner .entries v hv bs u

/-! ## All forms -/

omit first in
theorem joined_exact {series : Series} {e a : Tree} {u : Text} :
    (a, u) ∈ (read.joined e s series).readings ↔ Next false series (e, s) (a, u) := by
  cases series with
  | commas =>
    simp only [joined, mem_bind, mem_symbol_iff, mem_pure, Prod.exists, Prod.mk.injEq]
    refine ⟨?_, fun h => ?_⟩
    · rintro ⟨v, hw, f, t, hf, rfl, rfl⟩
      exact .comma hw ((inner .assignment v (hw.symbol_rest (by decide)) f u).1 hf)
    · cases h with
      | comma hw hf =>
        have hf := (inner .assignment _ (hw.symbol_rest (by decide)) _ _).2 hf
        exact ⟨_, hw, _, _, hf, rfl, rfl⟩
  | logical op =>
    cases op with
    | or =>
      simp only [joined, mem_bind, mem_symbol_iff, mem_pure, Prod.exists, Prod.mk.injEq]
      refine ⟨?_, fun h => ?_⟩
      · rintro ⟨v, hw, f, t, hf, g, y, hg, rfl, rfl⟩
        have hv := hw.symbol_rest (by decide)
        have hf := (inner (.operand 1) v hv f t).1 hf
        have hg := (inner (.more (.logical .and) f) t (hv.trans hf.rest) g u).1 hg
        exact .or hw (derives_logicalAnd.2 ⟨f, t, hf, hg⟩)
      · cases h with
        | or hw hg =>
          have hv := hw.symbol_rest (by decide)
          obtain ⟨f, t, hf, hg⟩ := derives_logicalAnd.1 hg
          have hg := (inner (.more (.logical .and) f) t (hv.trans hf.rest) _ u).2 hg
          exact ⟨_, hw, f, t, (inner (.operand 1) _ hv f t).2 hf, _, _, hg, rfl, rfl⟩
    | and =>
      simp only [joined, mem_bind, mem_symbol_iff, mem_pure, Prod.exists, Prod.mk.injEq]
      refine ⟨?_, fun h => ?_⟩
      · rintro ⟨v, hw, f, t, hf, rfl, rfl⟩
        exact .and hw ((inner (.operand 1) v (hw.symbol_rest (by decide)) f u).1 hf)
      · cases h with
        | and hw hf =>
          have hf := (inner (.operand 1) _ (hw.symbol_rest (by decide)) _ _).2 hf
          exact ⟨_, hw, _, _, hf, rfl, rfl⟩
    | coalesce =>
      simp only [joined, mem_bind, mem_symbol_iff, mem_pure, Prod.exists, Prod.mk.injEq]
      refine ⟨?_, fun h => ?_⟩
      · rintro ⟨v, hw, f, t, hf, rfl, rfl⟩
        exact .coalesce hw ((inner (.operand 1) v (hw.symbol_rest (by decide)) f u).1 hf)
      · cases h with
        | coalesce hw hf =>
          have hf := (inner (.operand 1) _ (hw.symbol_rest (by decide)) _ _).2 hf
          exact ⟨_, hw, _, _, hf, rfl, rfl⟩
  | operators level =>
    simp only [joined, mem_bind, mem_token_iff, mem_pure, Prod.exists, Prod.mk.injEq]
    have operand (hk : level < BinaryOp.tightest) {v : Text} (hv : Rest s v) {f : Tree} {u : Text} :
        (f, u) ∈ (read (.operand (level + 1)) v).readings ↔
          Derives false (.level (level + 1)) v f u := by
      rw [inner (.operand (level + 1)) v hv f u, Form.Means, min_eq_left hk]
    refine ⟨?_, fun h => ?_⟩
    · rintro ⟨op, v, hop, f, t, hf, rfl, rfl⟩
      have hk : level < BinaryOp.tightest := by
        obtain ⟨t, -, ht⟩ := hop
        obtain ⟨hbinary, rfl⟩ := operator?_eq_some.1 ht
        exact level_lt_of_binary? hbinary
      exact .operator hk hop ((operand hk (hop.rest rest_operator?)).1 hf)
    · cases h with
      | operator hk hop hf =>
        have hf := (operand hk (hop.rest rest_operator?)).2 hf
        exact ⟨_, _, hop, _, _, hf, rfl, rfl⟩
  | accesses => exact access_exact inner

omit first in
theorem more_exact (series : Series) (e : Tree) : read.step.Exact (.more series e) s := by
  intro a u
  simp only [step, mem_also, mem_pure, mem_bind, joined_exact inner, Prod.exists, Prod.mk.injEq]
  show _ ↔ Chain false series (e, s) (a, u)
  refine ⟨?_, fun h => ?_⟩
  · rintro (⟨ha, hu⟩ | ⟨f, t, hf, ha⟩)
    · rw [ha, hu]
    · exact .head hf ((inner (.more series f) t hf.rest a u).1 ha)
  · obtain h | ⟨⟨f, t⟩, hf, ha⟩ := h.cases_head
    · cases h
      exact Or.inl ⟨rfl, rfl⟩
    · exact Or.inr ⟨f, t, hf, (inner (.more series f) t hf.rest a u).2 ha⟩

end

end Reader

/-- How many steps a form may take before it takes something of the text. -/
def Form.rank : Form → Nat
  | .unary | .names | .entries | .more _ _ => 0
  | .operand _ | .assignment => 1
  | .expression | .items _ => 2

theorem Reader.step_exact {read : Reader} {f : Form} {s : Text}
    (inner : ∀ f t, Rest s t → read.Exact f t)
    (same : ∀ g : Form, g.rank < f.rank → read.Exact g s) : read.step.Exact f s := by
  cases f with
  | expression =>
    intro a u
    have first : read.Exact .assignment s := same _ (by decide)
    simp only [step, mem_bind, Prod.exists]
    show _ ↔ Derives false .expression s a u
    rw [derives_expression]
    refine exists_congr fun e => exists_congr fun t => ?_
    rw [first e t]
    exact and_congr_right fun he => inner (.more .commas e) t he.rest a u
  | assignment => exact assignment_exact inner (same .unary (by decide))
  | operand level =>
    intro a u
    rw [Form.Means, ← operandFrom_exact inner (same .unary Nat.zero_lt_one)]
    simp only [step, mem_bind, Prod.exists]
  | unary => exact fun a u => unary_exact inner
  | names => exact names_exact inner
  | items bracket => exact items_exact (same .assignment Nat.one_lt_two) inner bracket
  | entries => exact entries_exact inner
  | more series e => exact more_exact inner series e

/-- A reader that may nest enough steps is exact. -/
theorem Form.read_exact {depth : Nat} {f : Form} {s : Text} (h : 3 * s.length + f.rank < depth) :
    (Form.read depth).Exact f s := by
  induction depth generalizing f s with
  | zero => omega
  | succ depth ih =>
    have rank_le (f : Form) : f.rank ≤ 2 := by
      cases f <;> simp [Form.rank]
    refine Reader.step_exact (fun g t ht => ih ?_) fun g hg => ih (by omega)
    have := ht.shorter
    have := rank_le g
    omega

/-! ## Statements -/

theorem statement_exact {s u : Text} {found : Option Tree} :
    (∃ x, (x, u) ∈ (statement s).readings ∧ x.map Statement.tree = found) ↔
      Stated false s found u := by
  have read : (Form.read (depth s)).Exact .expression s := Form.read_exact (Nat.lt_succ_self _)
  simp only [statement, mem_also, mem_bind, mem_pure, Prod.exists, Prod.mk.injEq]
  refine ⟨?_, fun h => ?_⟩
  · rintro ⟨x, ⟨e, t, he, rfl, rfl⟩ | ⟨rfl, rfl⟩, rfl⟩
    · exact .expression ((read e u).1 he)
    · exact .empty
  · cases h with
    | empty => exact ⟨none, Or.inr ⟨rfl, rfl⟩, rfl⟩
    | expression he => exact ⟨_, Or.inl ⟨_, _, (read _ _).2 he, rfl, rfl⟩, rfl⟩

/-- The statements that are found in a text are those that the grammar gives it. -/
theorem statements_exact {count : Nat} {s : Text} (h : s.length < count)
    {found : List (Option Tree)} :
    (∃ xs ∈ (statements count s).readings, xs.map (·.map Statement.tree) = found) ↔
      Spells false s found := by
  induction count generalizing s found with
  | zero => omega
  | succ count ih =>
    have later {t v : Text} {first : Option Tree} (hfirst : Stated false s first t)
        (hw : Reads false (symbol? ";") t v) : v.length < count := by
      have := hfirst.suffix.length_le
      have := (hw.symbol_rest (by decide)).shorter
      omega
    simp only [statements, mem_bind, mem_also, mem_symbol_iff, mem_ended_iff, mem_pure, Prod.exists]
    refine ⟨?_, fun h => ?_⟩
    · rintro ⟨xs, ⟨x, t, hx, ⟨-, hend, rfl⟩ | ⟨v, hw, ys, hys, rfl⟩⟩, rfl⟩
      · exact .last (statement_exact.1 ⟨x, hx, rfl⟩) hend
      · have hfirst := statement_exact.1 ⟨x, hx, rfl⟩
        exact .more hfirst hw ((ih (later hfirst hw)).1 ⟨ys, hys, rfl⟩)
    · cases h with
      | last hfirst hend =>
        obtain ⟨x, hx, rfl⟩ := statement_exact.2 hfirst
        exact ⟨[x], ⟨x, _, hx, Or.inl ⟨(), hend, rfl⟩⟩, rfl⟩
      | more hfirst hw hothers =>
        obtain ⟨ys, hys, rfl⟩ := (ih (later hfirst hw)).2 hothers
        obtain ⟨x, hx, rfl⟩ := statement_exact.2 hfirst
        exact ⟨x :: ys, ⟨x, _, hx, Or.inr ⟨_, hw, ys, hys, rfl⟩⟩, rfl⟩

end GuardedText
