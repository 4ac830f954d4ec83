import GuardedText.Guard.Basic
import GuardedText.Proofs.Guard.Build
import GuardedText.Proofs.Guard.Outside
import GuardedText.Proofs.Guard.Reader
import GuardedText.Proofs.Guard.Unique

/-
  What a guard is. A text compiles just when it starts no statement and the grammar derives one
  expression from it, perhaps with a semicolon after it, in which everything is allowed; the guard is
  the image of that derivation under `Tree.build` (`Guard.compile_correct`).

  This holds of every text in which no division sign is read where a comment starts (`Token.Clear`).
  In other texts there can be a second derivation, and the guard may be the image of the one with a
  division sign although a comment starts there (`Guard.two_derivations`).
-/

namespace GuardedText

open Token

/-! ## Numerals in derivations -/

/-- All trees in what a nonterminal stands for. -/
def Nonterminal.nodes : (X : Nonterminal) → X.Out → List Tree
  | .params, _ | .names, _ => []
  | .items _, as => nodesItems as
  | .item, a => nodesItems [a]
  | .entries, as => nodesEntries as
  | .entry, a => nodesEntries [a]
  | .expression, t | .assignment, t | .conditional, t | .shortCircuit, t | .coalesce, t
  | .logicalOr, t | .logicalAnd, t | .level _, t | .unary, t | .accessed, t | .primary, t => t.nodes

theorem nodesItems_cons (a : TreeItem) (as : List TreeItem) :
    nodesItems (a :: as) = nodesItems [a] ++ nodesItems as := by
  cases a <;> simp [nodesItems]

theorem nodesEntries_cons (a : TreeEntry) (as : List TreeEntry) :
    nodesEntries (a :: as) = nodesEntries [a] ++ nodesEntries as := by
  cases a <;> simp [nodesEntries]

/-- Every numeral that is derived has a value, unless it is an integer of too many digits. -/
theorem Derives.values {full : Bool} {X : Nonterminal} {s u : Text} {a : X.Out}
    (h : Derives full X s a u) {k : Text} (hk : .number k ∈ X.nodes a) :
    (∃ value, Spelling.number k = .ok value) ↔ ¬ Spelling.Long k := by
  have read {s k u : Text} (h : Reads full number? s (k, u)) :
      (∃ value, Spelling.number k = .ok value) ↔ ¬ Spelling.Long k := by
    obtain ⟨t, -, ht⟩ := h
    exact number?_value_iff ht
  induction h with
  | alone _ ih | choice _ ih | test _ ih | either _ ih | coalesced _ ih | both _ ih | operand _ ih
  | base _ ih | bare _ ih | primary _ ih => exact ih hk
  | tighter _ _ ih => exact ih hk
  | sequence _ _ _ ihl ihr | coalesce _ _ _ ihl ihr | moreCoalesce _ _ _ ihl ihr
  | logicalOr _ _ _ ihl ihr | logicalAnd _ _ _ ihl ihr | power _ _ _ ihl ihr
  | assign _ _ _ ihl ihr | call _ _ _ ihl ihr | optionalCall _ _ _ _ ihl ihr
  | index _ _ _ _ ihl ihr | optionalIndex _ _ _ _ _ ihl ihr | binary _ _ _ _ ihl ihr =>
    simp only [Nonterminal.nodes, Tree.nodes, List.mem_cons, List.mem_append, reduceCtorEq,
      false_or] at hk
    exact hk.elim ihl ihr
  | arrow _ _ _ _ ih | member _ _ _ ih | optionalMember _ _ _ ih | unary _ _ ih | delete _ _ ih
  | await _ _ ih | array _ _ ih | object _ _ ih | paren _ _ _ ih =>
    simp only [Nonterminal.nodes, Tree.nodes, List.mem_cons, reduceCtorEq, false_or] at hk
    exact ih hk
  | conditional _ _ _ _ _ ihe ihf ihg =>
    simp only [Nonterminal.nodes, Tree.nodes, List.mem_cons, List.mem_append, reduceCtorEq,
      false_or] at hk
    exact hk.elim ihe (Or.elim · ihf ihg)
  | number h =>
    simp only [Nonterminal.nodes, Tree.nodes, List.mem_singleton, Tree.number.injEq] at hk
    exact hk ▸ read h
  | param | params | noName | lastName | moreNames | noItem | noEntry | string | constant | name
  | shorthand => simp [Nonterminal.nodes, nodesItems, nodesEntries, Tree.nodes] at hk
  | single _ ih | spreadItem _ _ ih =>
    simp only [Nonterminal.nodes, nodesItems, List.append_nil] at hk
    exact ih hk
  | named _ _ _ ih | spreadEntry _ _ ih =>
    simp only [Nonterminal.nodes, nodesEntries, List.append_nil] at hk
    exact ih hk
  | stringKey _ _ _ ih =>
    simp only [Nonterminal.nodes, nodesEntries, List.mem_cons, List.append_nil, reduceCtorEq,
      false_or] at hk
    exact ih hk
  | numberKey h _ _ ih =>
    simp only [Nonterminal.nodes, nodesEntries, List.mem_cons, List.append_nil,
      Tree.number.injEq] at hk
    exact hk.elim (fun hk => hk ▸ read h) ih
  | computed _ _ _ _ _ ihk ihe =>
    simp only [Nonterminal.nodes, nodesEntries, List.mem_append, List.append_nil] at hk
    exact hk.elim ihk ihe
  | lastItem _ _ ih | lastEntry _ _ ih => exact ih hk
  | moreItems _ _ _ iha ihas =>
    rw [Nonterminal.nodes, nodesItems_cons, List.mem_append] at hk
    exact hk.elim iha ihas
  | moreEntries _ _ _ iha ihas =>
    rw [Nonterminal.nodes, nodesEntries_cons, List.mem_append] at hk
    exact hk.elim iha ihas

/-! ## One expression -/

/-- A text is one expression with the tree `t`, perhaps with a semicolon after it. -/
def Guard.Spelled (s : Text) (t : Tree) : Prop :=
  Spells false s [some t] ∨ Spells false s [some t, none]

theorem Spells.first_values {full : Bool} {s : Text} {t : Tree} {others : List (Option Tree)}
    (h : Spells full s (some t :: others)) {k : Text} (hk : .number k ∈ t.nodes) :
    (∃ value, Spelling.number k = .ok value) ↔ ¬ Spelling.Long k := by
  have stated {u : Text} (h : Stated full s (some t) u) :
      (∃ value, Spelling.number k = .ok value) ↔ ¬ Spelling.Long k := by
    cases h with
    | expression h => exact h.values hk
  cases h with
  | last h => exact stated h
  | more h => exact stated h

namespace Guard

theorem Spelled.values {s : Text} {t : Tree} (h : Spelled s t) {k : Text}
    (hk : .number k ∈ t.nodes) :
    (∃ value, Spelling.number k = .ok value) ↔ ¬ Spelling.Long k := by
  rcases h with h | h <;> exact h.first_values hk

theorem Spelled.build_isOk_iff {s : Text} {t : Tree} (h : Spelled s t) :
    (∃ e, t.build = .ok e) ↔ t.Legal :=
  Tree.build_isOk_iff fun _ => h.values

theorem single_eq_ok {found : List (Option Statement)} {statement : Statement} :
    single found = .ok statement ↔ found = [some statement] ∨ found = [some statement, none] := by
  refine ⟨fun h => ?_, ?_⟩
  · unfold single at h
    dsimp only at h
    split at h
    · cases h
    · rename_i counted only hcounted
      cases h
      split_ifs at hcounted with hlast
      · obtain ⟨init, final, rfl⟩ : ∃ init final, found = init ++ [final] := by
          refine (List.eq_nil_or_concat' found).resolve_left ?_
          rintro rfl
          cases hcounted
        rw [List.dropLast_concat] at hcounted
        subst hcounted
        cases final with
        | none => exact Or.inr rfl
        | some final => simp at hlast
      · exact Or.inl hcounted
    · cases h
  · rintro (rfl | rfl) <;> rfl

theorem compile_eq_ok {s : Text} {g : Guard} :
    compile s = .ok g ↔ statementKind? s = none ∧
      ∃ found, parse s = .ok found ∧ ∃ statement, single found = .ok statement ∧
        statement.code = g.code ∧ statement.tree.build = .ok g.expr := by
  unfold compile
  cases hkind : statementKind? s with
  | some kind => simp [throw, throwThe, MonadExceptOf.throw, bind, Except.bind]
  | none =>
    simp only [Except.bind_eq_ok, true_and]
    refine exists_congr fun found => and_congr_right fun _ => exists_congr fun statement =>
      and_congr_right fun _ => ?_
    obtain ⟨code, expr⟩ := g
    cases hbuild : statement.tree.build with
    | ok e => simp [pure, Except.pure]
    | error reason => simp [throw, throwThe, MonadExceptOf.throw]

/-- What is parsed is derived. -/
theorem spells_of_parse {s : Text} {found : List (Option Statement)} (h : parse s = .ok found) :
    Spells false s (found.map (·.map Statement.tree)) := by
  unfold parse at h
  dsimp only at h
  split at h
  · rename_i first others hreadings
    cases h
    exact (statements_exact (Nat.lt_succ_self _)).1 ⟨_, hreadings ▸ List.mem_cons_self, rfl⟩
  · cases h

/-- What is derived is parsed, unless something else is. -/
theorem parse_of_spells {s : Text} {found : List (Option Tree)} (h : Spells false s found) :
    ∃ xs, parse s = .ok xs := by
  obtain ⟨xs, hxs, -⟩ := (statements_exact (Nat.lt_succ_self s.length)).2 h
  unfold parse
  dsimp only
  split
  · exact ⟨_, rfl⟩
  · rename_i hnone
    rw [hnone] at hxs
    cases hxs

theorem parse_ne_rejected {s : Text} {reason : Rejection} :
    parse s ≠ .error (.rejected reason) := by
  unfold parse
  dsimp only
  split <;> nofun

theorem single_ne_rejected {found : List (Option Statement)} {reason : Rejection} :
    single found ≠ .error (.rejected reason) := by
  unfold single
  dsimp only
  split <;> nofun

/-- A statement among some that are derived is derived alone. -/
theorem spelled_of_single {s : Text} {found : List (Option Statement)} {statement : Statement}
    (hfound : parse s = .ok found) (h : single found = .ok statement) :
    Spelled s statement.tree := by
  have hspells := spells_of_parse hfound
  rcases single_eq_ok.1 h with rfl | rfl
  · exact Or.inl hspells
  · exact Or.inr hspells

/-- A text that is refused for a literal is one expression in which a literal is misspelled. -/
theorem misspelled_of_compile {s : Text} (h : compile s = .error (.rejected .badLiteral)) :
    ∃ t, Spelled s t ∧ ∃ node ∈ t.nodes, node.Misspelled := by
  unfold compile at h
  cases hkind : statementKind? s with
  | some kind => simp [hkind, throw, throwThe, MonadExceptOf.throw, bind, Except.bind] at h
  | none =>
    simp only [hkind, Except.bind_eq_error] at h
    rcases h with h | ⟨found, hfound, h | ⟨statement, hsingle, h⟩⟩
    · exact absurd h parse_ne_rejected
    · exact absurd h single_ne_rejected
    · have hspelled := spelled_of_single hfound hsingle
      have hbuild : statement.tree.build = .error .badLiteral := by
        cases hbuild : statement.tree.build with
        | ok e => simp [hbuild, pure, Except.pure] at h
        | error reason => simpa [hbuild, throw, throwThe, MonadExceptOf.throw] using h
      obtain ⟨node, hnode, hvalueless⟩ := Tree.hasValueless_of_build _ hbuild
      refine ⟨_, hspelled, node, hnode, ?_⟩
      cases node with
      | number k =>
        by_contra hshort
        obtain ⟨value, hvalue⟩ := (hspelled.values hnode).2 hshort
        exact hvalueless value hvalue
      | _ => exact hvalueless

/-- A guard is the image of a derivation. -/
theorem spelled_of_compile {s : Text} {g : Guard} (h : compile s = .ok g) :
    statementKind? s = none ∧ ∃ t, Spelled s t ∧ t.Legal ∧ t.build = .ok g.expr := by
  obtain ⟨hkind, found, hfound, statement, hsingle, -, hbuild⟩ := compile_eq_ok.1 h
  have hspelled := spelled_of_single hfound hsingle
  exact ⟨hkind, _, hspelled, hspelled.build_isOk_iff.1 ⟨_, hbuild⟩, hbuild⟩

end Guard

/-! ## Texts with one derivation -/

theorem Token.At.here (s : Text) : At false s s := ⟨.refl, nofun⟩

theorem Token.At.skipped {s t u : Text} (h : At false s t) (ht : afterGap? t = some u) :
    At false s u :=
  ⟨h.1.tail ht, nofun⟩

/-- In no derivation of a text a token is read where a comment starts. -/
def Token.Clear (s : Text) : Prop := ∀ found, Spells false s found → Spells true s found

theorem Token.Clean.clear {s : Text} (h : Clean s) : Clear s := fun _ hfound => hfound.full h

theorem Token.Plain.clear {s : Text} (h : Plain s) : Clear s := h.clean.clear

namespace Guard

section

variable {s : Text} (hs : Clear s)
include hs

theorem spells_unique {found found' : List (Option Tree)} (h : Spells false s found)
    (h' : Spells false s found') : found = found' :=
  (hs _ h).unique (hs _ h')

theorem spelled_unique {t t' : Tree} (h : Spelled s t) (h' : Spelled s t') : t = t' := by
  have first {others others' : List (Option Tree)} (h : Spells false s (some t :: others))
      (h' : Spells false s (some t' :: others')) : t = t' := by
    have := spells_unique hs h h'
    simp only [List.cons.injEq, Option.some.injEq] at this
    exact this.1
  rcases h with h | h <;> rcases h' with h' | h' <;> exact first h h'

theorem compile_of_spelled (hkind : statementKind? s = none) {t : Tree} (h : Spelled s t)
    (ht : t.Legal) : ∃ g, compile s = .ok g := by
  obtain ⟨e, he⟩ := h.build_isOk_iff.2 ht
  have parsed {found : List (Option Tree)} (h : Spells false s found) :
      ∃ xs, parse s = .ok xs ∧ xs.map (·.map Statement.tree) = found := by
    obtain ⟨xs, hxs⟩ := parse_of_spells h
    exact ⟨xs, hxs, spells_unique hs (spells_of_parse hxs) h⟩
  have hsingle : ∃ found statement, parse s = .ok found ∧ single found = .ok statement ∧
      statement.tree = t := by
    rcases h with h | h
    · obtain ⟨xs, hxs, hmap⟩ := parsed h
      simp only [List.map_eq_cons_iff, List.map_eq_nil_iff, Option.map_eq_some_iff] at hmap
      obtain ⟨_, _, rfl, ⟨statement, rfl, hstatement⟩, rfl⟩ := hmap
      exact ⟨_, statement, hxs, single_eq_ok.2 (Or.inl rfl), hstatement⟩
    · obtain ⟨xs, hxs, hmap⟩ := parsed h
      simp only [List.map_eq_cons_iff, List.map_eq_nil_iff, Option.map_eq_some_iff,
        Option.map_eq_none_iff] at hmap
      obtain ⟨_, _, rfl, ⟨statement, rfl, hstatement⟩, _, _, rfl, rfl, rfl⟩ := hmap
      exact ⟨_, statement, hxs, single_eq_ok.2 (Or.inr rfl), hstatement⟩
  obtain ⟨found, statement, hfound, hone, rfl⟩ := hsingle
  exact ⟨⟨statement.code, e⟩, compile_eq_ok.2 ⟨hkind, found, hfound, statement, hone, rfl, he⟩⟩

end

/-- A text compiles just when it starts no statement and one legal expression is derived from it,
perhaps with a semicolon after it; it has no other derivation, and the guard is the image of this
one. For a text in which a division sign can be read where a comment starts the image is that of one
of its derivations, and one at most has each token after all white space and comments. -/
theorem compile_correct (s : Text) :
    (∀ g, compile s = .ok g →
      statementKind? s = none ∧ ∃ t, Spelled s t ∧ t.Legal ∧ t.build = .ok g.expr) ∧
    (∀ found found', Spells true s found → Spells true s found' → found = found') ∧
    (Clear s →
      ((∃ g, compile s = .ok g) ↔ statementKind? s = none ∧ ∃ t, Spelled s t ∧ t.Legal) ∧
      (∀ found found', Spells false s found → Spells false s found' → found = found') ∧
      ∀ g t, compile s = .ok g → Spelled s t → t.build = .ok g.expr) ∧
    (Plain s → Clear s) := by
  refine ⟨fun g hg => spelled_of_compile hg, fun _ _ h h' => h.unique h', fun hs => ?_,
    Plain.clear⟩
  refine ⟨⟨?_, ?_⟩, fun _ _ h h' => spells_unique hs h h', fun g t hg ht => ?_⟩
  · rintro ⟨g, hg⟩
    obtain ⟨hkind, t, ht, hlegal, -⟩ := spelled_of_compile hg
    exact ⟨hkind, t, ht, hlegal⟩
  · rintro ⟨hkind, t, ht, hlegal⟩
    exact compile_of_spelled hs hkind ht hlegal
  · obtain ⟨-, t', ht', -, hbuild⟩ := spelled_of_compile hg
    rw [spelled_unique hs ht ht']
    exact hbuild

theorem compile_correct_powers :
    let s := Text.ofString "a ** b ** c;"
    let t := Tree.binary .pow (.name "a") (.binary .pow (.name "b") (.name "c"))
    Plain s ∧ Spelled s t ∧ t.Legal ∧ ∃ g, compile s = .ok g ∧ t.build = .ok g.expr := by
  intro s t
  have hplain : Plain s := by decide +kernel
  have hspelled : Spelled s t := by
    have first : Derives false .accessed s (.name "a") " ** b ** c;" :=
      .primary (.name ⟨_, At.here _, rfl⟩)
    have second : Derives false .accessed " b ** c;" (.name "b") " ** c;" :=
      .primary (.name ⟨_, (At.here _).skipped rfl, rfl⟩)
    have third : Derives false .accessed " c;" (.name "c") ";" :=
      .primary (.name ⟨_, (At.here _).skipped rfl, rfl⟩)
    have inner := second.power ⟨_, (At.here _).skipped rfl, rfl⟩ (.base (.bare third))
    have outer := first.power ⟨_, (At.here _).skipped rfl, rfl⟩ inner
    have expression := (outer.loosen (j := 1) (by decide) (Nat.le_refl _)).of_operand
    have ended : Spells false [] [none] := .last .empty (At.here _)
    exact Or.inr (.more (.expression (.alone expression)) ⟨_, At.here _, rfl⟩ ended)
  have hlegal : t.Legal := by simp [t, Tree.Legal, Tree.nodes, Tree.Allowed, Tree.Misspelled]
  have correct := (compile_correct s).2.2.1 ((compile_correct s).2.2.2 hplain)
  obtain ⟨g, hg⟩ := correct.1.2 ⟨rfl, t, hspelled, hlegal⟩
  exact ⟨hplain, hspelled, hlegal, g, hg, correct.2.2 g t hg hspelled⟩

/-- A name called after a line comment, or divided after a division sign and a comment: the guard is
the quotient, although a comment starts at its division sign. -/
theorem two_derivations :
    let s := Text.ofString "a //*\n(b) +/*/ 1 // */+ c"
    let t := Tree.binary .add (.call (.name "a") [.single (.name "b")] false)
      (.unary .plus (.name "c"))
    let t' := Tree.binary .div (.name "a") (.number "1")
    statementKind? s = none ∧ (Spelled s t ∧ t.Legal) ∧ (Spelled s t' ∧ t'.Legal) ∧ t ≠ t' ∧
      ∃ g, compile s = .ok g ∧ t'.build = .ok g.expr := by
  have hcompile : compile (Text.ofString "a //*\n(b) +/*/ 1 // */+ c") = .ok
      ⟨"a //*\n(b) +/*/ 1", .binary .div (.name "a") (.literal (.number (.int 1)))⟩ := rfl
  intro s t t'
  have name : Derives false .accessed s (.name "a") " //*\n(b) +/*/ 1 // */+ c" :=
    .primary (.name ⟨_, At.here _, rfl⟩)
  have hcalled : Spelled s t := by
    have argument : Derives false .unary "b) +/*/ 1 // */+ c" (.name "b") ") +/*/ 1 // */+ c" :=
      .bare (.primary (.name ⟨_, At.here _, rfl⟩))
    have last := (Derives.base argument).loosen (j := 1) (by decide) (Nat.le_refl _)
    have called := name.call ⟨_, (((At.here _).skipped rfl).skipped rfl).skipped rfl, rfl⟩
      (.lastItem (.single last.of_operand) ⟨_, At.here _, rfl⟩)
    have sign : Derives false .unary "/*/ 1 // */+ c" (.unary .plus (.name "c")) [] :=
      .unary ⟨_, (At.here _).skipped rfl, rfl⟩
        (.bare (.primary (.name ⟨_, (At.here _).skipped rfl, rfl⟩)))
    have left := (Derives.base (.bare called)).loosen (j := 7) (by decide) (by decide)
    have right := (Derives.base sign).loosen (j := 8) (by decide) (by decide)
    have sum := left.binary (by decide) ⟨_, (At.here _).skipped rfl, rfl⟩ right
    have expression := (sum.loosen (j := 1) (by decide) (by decide)).of_operand
    exact Or.inl (.last (.expression (.alone expression)) (At.here _))
  have hdivided : Spelled s t' := by
    have divisor : Derives false .unary "/*\n(b) +/*/ 1 // */+ c" (.number "1") " // */+ c" :=
      .bare (.primary (.number ⟨_, ((At.here _).skipped rfl).skipped rfl, rfl⟩))
    have left := (Derives.base (.bare name)).loosen (j := 8) (by decide) (Nat.le_refl _)
    have quotient := left.binary (by decide) ⟨_, (At.here _).skipped rfl, rfl⟩ (.base divisor)
    have expression := (quotient.loosen (j := 1) (by decide) (by decide)).of_operand
    exact Or.inl (.last (.expression (.alone expression))
      (((At.here _).skipped rfl).skipped rfl))
  have hlegal : t.Legal := by
    simp [t, Tree.Legal, Tree.nodes, nodesItems, Tree.Allowed, Tree.Misspelled]
  have hlegal' : t'.Legal := hdivided.build_isOk_iff.1 ⟨_, rfl⟩
  have hne : t ≠ t' := by simp [t, t']
  exact ⟨by decide, ⟨hcalled, hlegal⟩, ⟨hdivided, hlegal'⟩, hne, _, hcompile, rfl⟩

end Guard

end GuardedText
