import GuardedText.Proofs.Guard.Lookahead

/-
  A text has at most one derivation in which each token is read after all white space and comments
  (`Spells.unique`). The next token decides each step: which alternative an operand is
  (`Derives.starts`), and whether a series goes on or ends (`Next.looseness`). A nonterminal ends
  before a token that binds looser than all it can take up (`Nonterminal.reach`); of two such
  derivations from one place neither is longer. Only a function and an expression in parentheses
  start alike, and they differ in what follows the closing parenthesis (`names_paren`).
-/

namespace GuardedText

open Token

/-! ## The first token -/

/-- Whether a token starts an operand that has no operators before it. -/
def Token.Lead.isOperand : Lead → Bool
  | .none | .sign | .delete | .await => false
  | .number | .string | .constant | .name | .square | .curly | .round => true

/-- How the texts of a nonterminal start. -/
def Nonterminal.Starts : Nonterminal → Text → Prop
  | .names, _ | .items _, _ | .item, _ | .entries, _ | .entry, _ => True
  | .primary, s | .accessed, s => (lead s).isOperand = true
  | _, s => lead s ≠ .none

theorem Token.Lead.ne_none_of_isOperand {l : Lead} (h : l.isOperand = true) : l ≠ .none := by
  rintro rfl
  cases h

/-- The token that the text of a primary expression starts with. -/
def Tree.lead : Tree → Lead
  | .number _ => .number
  | .string _ => .string
  | .constant _ => .constant
  | .name _ => .name
  | .array _ => .square
  | .object _ => .curly
  | .paren _ => .round
  | _ => .none

/-- A token as the start of an entry, where all words are names. -/
def Token.Lead.ofEntry : Lead → Lead
  | .delete | .await | .sign | .constant => .name
  | l => l

theorem Token.ofEntry_leadOfWord (n : Text) : (leadOfWord n).ofEntry = .name := by
  unfold leadOfWord
  split_ifs <;> rfl

/-- The token that the text of an entry starts with. -/
def TreeEntry.lead : TreeEntry → Lead
  | .named _ _ | .shorthand _ => .name
  | .string _ _ => .string
  | .number _ _ => .number
  | .computed _ _ => .square
  | .spread _ => .none

section

variable {s u : Text}

theorem Derives.lead_primary {a : Tree} (h : Derives true .primary s a u) : lead s = a.lead := by
  cases h with
  | number h => exact h.lead_eq leadOf_number?
  | string h => exact h.lead_eq leadOf_string?
  | constant h => exact h.lead_eq leadOf_constant?
  | name h => exact h.lead_eq leadOf_name?
  | array hw => exact lead_square hw
  | object hw => exact lead_curly hw
  | paren hw => exact lead_round hw

theorem Derives.isOperand_primary {a : Tree} (h : Derives true .primary s a u) :
    (lead s).isOperand = true := by
  rw [h.lead_primary]
  cases h <;> rfl

theorem Derives.isOperand_params {ns : List Text} (h : Derives true .params s ns u) :
    (lead s).isOperand = true := by
  cases h with
  | param h =>
    rw [h.lead_eq leadOf_name?]
    rfl
  | params hw =>
    rw [lead_round hw]
    rfl

theorem Signed.not_isOperand {a : Tree} (h : Signed true s a u) :
    lead s ≠ .none ∧ (lead s).isOperand = false := by
  cases h with
  | unary hop => simp [hop.lead_eq leadOf_unary?, Lead.isOperand]
  | delete hw =>
    have := hw.lead_eq fun ht => leadOf_word? (by decide) (by decide) ht
    simp [this, leadOfWord, Lead.isOperand]
  | await hw =>
    have := hw.lead_eq fun ht => leadOf_word? (by decide) (by decide) ht
    rw [this]
    decide

theorem Derives.starts {X : Nonterminal} {a : X.Out} (h : Derives true X s a u) : X.Starts s := by
  induction h with
  | alone _ ih | choice _ ih | test _ ih | either _ ih | coalesced _ ih | both _ ih | operand _ ih
  | base _ ih => exact ih
  | bare _ ih => exact Lead.ne_none_of_isOperand ih
  | primary _ ih => exact ih
  | tighter _ _ ih => exact ih
  | sequence _ _ _ ih | coalesce _ _ _ ih | moreCoalesce _ _ _ ih | logicalOr _ _ _ ih
  | logicalAnd _ _ _ ih | arrow _ _ _ ih => exact ih
  | power _ _ _ ih | assign _ _ _ ih => exact Lead.ne_none_of_isOperand ih
  | call _ _ _ ih | member _ _ _ ih | optionalMember _ _ _ ih => exact ih
  | binary _ _ _ _ ih => exact ih
  | conditional _ _ _ _ _ ih => exact ih
  | index _ _ _ _ ih | optionalCall _ _ _ _ ih => exact ih
  | optionalIndex _ _ _ _ _ ih => exact ih
  | unary hop he => exact (Signed.unary hop he).not_isOperand.1
  | delete hw he => exact (Signed.delete hw he).not_isOperand.1
  | await hw he => exact (Signed.await hw he).not_isOperand.1
  | param h => exact Lead.ne_none_of_isOperand (Derives.param h).isOperand_params
  | params hw h => exact Lead.ne_none_of_isOperand (Derives.params hw h).isOperand_params
  | number h => exact (Derives.number h).isOperand_primary
  | string h => exact (Derives.string h).isOperand_primary
  | constant h => exact (Derives.constant h).isOperand_primary
  | name h => exact (Derives.name h).isOperand_primary
  | array hw h => exact (Derives.array hw h).isOperand_primary
  | object hw h => exact (Derives.object hw h).isOperand_primary
  | paren hw h hx => exact (Derives.paren hw h hx).isOperand_primary
  | noName | lastName | moreNames | noItem | lastItem | moreItems | single | spreadItem | noEntry
  | lastEntry | moreEntries | named | stringKey | numberKey | computed | shorthand
  | spreadEntry => exact trivial

/-! ## The token that follows -/

/-- How loosely the tokens bind that a series goes on with. -/
def Series.looseness : Series → Nat
  | .commas => 17
  | .logical .or => 14
  | .logical .and => 13
  | .logical .coalesce => 12
  | .operators k => 12 - k
  | .accesses => 0

theorem Next.looseness_eq {series : Series} {x y : Tree × Text} (h : Next true series x y) :
    looseness x.2 = series.looseness := by
  have optional {t q : Text} (hq : Reads true (symbol? "?.") t q) (hlead : lead q ≠ .number) :
      looseness t = 0 := by
    refine looseness_optional hq ?_
    rw [Bool.eq_false_iff]
    exact fun h => hlead (lead_of_decimal h)
  cases h with
  | comma hw => exact looseness_mark hw (by decide)
  | or hw hf => exact looseness_operator hw (by decide) (by decide) hf.starts
  | and hw hf => exact looseness_operator hw (by decide) (by decide) hf.starts
  | coalesce hw hf => exact looseness_operator hw (by decide) (by decide) hf.starts
  | operator _ hop hf => exact looseness_binary hop hf.starts
  | member hw | index hw | call hw => exact looseness_mark hw (by decide)
  | optionalMember hw hn =>
    refine optional hw ?_
    rw [hn.lead_eq leadOf_anyName?]
    exact leadOfWord_ne (by decide)
  | optionalIndex hq hw => exact optional hq (by rw [lead_square hw]; decide)
  | optionalCall hq hw => exact optional hq (by rw [lead_round hw]; decide)

end

/-- How loosely a token has to bind for a nonterminal to end before it: looser than all the tokens
that the nonterminal can go on with. -/
def Nonterminal.reach : Nonterminal → Nat
  | .accessed => 1
  | .unary => 4
  | .level k => 13 - k
  | .coalesce => 13
  | .logicalAnd => 14
  | .logicalOr | .shortCircuit => 15
  | .conditional | .assignment | .item => 16
  | .entry => 17
  | .expression => 18
  | .params | .names | .items _ | .primary | .entries => 0

/-- Two derivations of a nonterminal that end where it has to end are one. -/
def Unique (X : Nonterminal) (s : Text) : Prop :=
  ∀ ⦃a b : X.Out⦄ ⦃u v : Text⦄, Derives true X s a u → Derives true X s b v →
    X.reach ≤ looseness u → X.reach ≤ looseness v → a = b ∧ u = v

/-! ## Series -/

theorem Chain.follow {series : Series} {x y : Tree × Text} (h : Chain true series x y)
    (hy : series.looseness ≤ looseness y.2) : series.looseness ≤ looseness x.2 := by
  obtain rfl | ⟨z, hz, -⟩ := h.cases_head
  · exact hy
  · exact Nat.le_of_eq hz.looseness_eq.symm

/-- Two different symbols do not stand at one place. -/
theorem Token.Reads.clash {w w' : String} {t v v' : Text} (h : Reads true (symbol? w) t v)
    (h' : Reads true (symbol? w') t v')
    (hne : ((Text.ofString w).head?.bind fun c => (Text.ofString w').head?.map (c != ·)) =
      some true) : False := by
  have heq := (symbol?_eq_some.1 (reads_true.1 h)).symm.trans (symbol?_eq_some.1 (reads_true.1 h'))
  cases hw : Text.ofString w with
  | nil => simp [hw] at hne
  | cons c cs =>
    cases hw' : Text.ofString w' with
    | nil => simp [hw, hw'] at hne
    | cons d ds =>
      rw [hw, hw', List.cons_append, List.cons_append, List.cons.injEq] at heq
      simp [hw, hw', heq.1] at hne

section

variable {s : Text} (inner : ∀ X t, Rest s t → Unique X t)

include inner

/-- An expression and the bracket that closes it. -/
theorem enclosed_unique (b : Bracket) {v w w' u u' : Text} {e e' : Tree} (hv : Rest s v)
    (he : Derives true .expression v e w) (hw : Reads true (symbol? b.closing) w u)
    (he' : Derives true .expression v e' w') (hw' : Reads true (symbol? b.closing) w' u') :
    e = e' ∧ u = u' := by
  have ends {w u : Text} (hw : Reads true (symbol? b.closing) w u) : 18 ≤ looseness w := by
    refine Nat.le_of_eq (looseness_mark hw ?_).symm
    cases b <;> decide
  obtain ⟨rfl, rfl⟩ := inner .expression v hv he he' (ends hw) (ends hw')
  exact ⟨rfl, hw.unique hw'⟩

/-- A series goes on in one way only. -/
theorem Next.unique {series : Series} {x y z : Tree × Text} (hx : Rest s x.2)
    (hy : Next true series x y) (hz : Next true series x z)
    (ey : series.looseness ≤ looseness y.2) (ez : series.looseness ≤ looseness z.2) : y = z := by
  cases hy with
  | comma hw hf =>
    cases hz with
    | comma hw' hf' =>
      obtain rfl := hw.unique hw'
      have hv := hx.trans (hw.symbol_rest (by decide))
      obtain ⟨rfl, rfl⟩ := inner .assignment _ hv hf hf' (Nat.le_of_succ_le ey)
        (Nat.le_of_succ_le ez)
      rfl
  | or hw hf =>
    cases hz with
    | or hw' hf' =>
      obtain rfl := hw.unique hw'
      have hv := hx.trans (hw.symbol_rest (by decide))
      obtain ⟨rfl, rfl⟩ := inner .logicalAnd _ hv hf hf' ey ez
      rfl
  | and hw hf =>
    cases hz with
    | and hw' hf' =>
      obtain rfl := hw.unique hw'
      have hv := hx.trans (hw.symbol_rest (by decide))
      obtain ⟨rfl, rfl⟩ := inner (.level 1) _ hv hf hf' (Nat.le_of_succ_le ey)
        (Nat.le_of_succ_le ez)
      rfl
  | coalesce hw hf =>
    cases hz with
    | coalesce hw' hf' =>
      obtain rfl := hw.unique hw'
      have hv := hx.trans (hw.symbol_rest (by decide))
      obtain ⟨rfl, rfl⟩ := inner (.level 1) _ hv hf hf' ey ez
      rfl
  | @operator k e t op v f u hk hop hf =>
    cases hz with
    | operator _ hop' hf' =>
      obtain ⟨rfl, rfl⟩ := Prod.mk.inj (hop.unique hop')
      have hv := hx.trans (hop.rest rest_operator?)
      have hreach : (Nonterminal.level (k + 1)).reach = (Series.operators k).looseness := by
        simp only [Nonterminal.reach, Series.looseness]
        omega
      obtain ⟨rfl, rfl⟩ := inner (.level (k + 1)) _ hv hf hf' (hreach ▸ ey) (hreach ▸ ez)
      rfl
  | member hw hn =>
    cases hz with
    | member hw' hn' =>
      obtain rfl := hw.unique hw'
      obtain ⟨rfl, rfl⟩ := Prod.mk.inj (hn.unique hn')
      rfl
    | index hw' | call hw' | optionalMember hw' | optionalIndex hw' | optionalCall hw' =>
      exact (hw.clash hw' (by decide)).elim
  | index hw hk hc =>
    cases hz with
    | index hw' hk' hc' =>
      obtain rfl := hw.unique hw'
      have hv := hx.trans (hw.symbol_rest (by decide))
      obtain ⟨rfl, rfl⟩ := enclosed_unique inner .square hv hk hc hk' hc'
      rfl
    | member hw' | call hw' | optionalMember hw' | optionalIndex hw' | optionalCall hw' =>
      exact (hw.clash hw' (by decide)).elim
  | call hw has =>
    cases hz with
    | call hw' has' =>
      obtain rfl := hw.unique hw'
      have hv := hx.trans (hw.symbol_rest (by decide))
      obtain ⟨rfl, rfl⟩ := inner (.items .round) _ hv has has' (Nat.zero_le _) (Nat.zero_le _)
      rfl
    | member hw' | index hw' | optionalMember hw' | optionalIndex hw' | optionalCall hw' =>
      exact (hw.clash hw' (by decide)).elim
  | optionalMember hq hn =>
    cases hz with
    | optionalMember hq' hn' =>
      obtain rfl := hq.unique hq'
      obtain ⟨rfl, rfl⟩ := Prod.mk.inj (hn.unique hn')
      rfl
    | optionalIndex hq' hw' =>
      obtain rfl := hq.unique hq'
      exact absurd ((hn.lead_eq leadOf_anyName?).symm.trans (lead_square hw'))
        (leadOfWord_ne (by decide))
    | optionalCall hq' hw' =>
      obtain rfl := hq.unique hq'
      exact absurd ((hn.lead_eq leadOf_anyName?).symm.trans (lead_round hw'))
        (leadOfWord_ne (by decide))
    | member hw' | index hw' | call hw' => exact (hq.clash hw' (by decide)).elim
  | optionalIndex hq hw hk hc =>
    cases hz with
    | optionalIndex hq' hw' hk' hc' =>
      obtain rfl := hq.unique hq'
      obtain rfl := hw.unique hw'
      have hv := (hx.trans (hq.symbol_rest (by decide))).trans (hw.symbol_rest (by decide))
      obtain ⟨rfl, rfl⟩ := enclosed_unique inner .square hv hk hc hk' hc'
      rfl
    | optionalMember hq' hn' =>
      obtain rfl := hq.unique hq'
      exact absurd ((hn'.lead_eq leadOf_anyName?).symm.trans (lead_square hw))
        (leadOfWord_ne (by decide))
    | optionalCall hq' hw' =>
      obtain rfl := hq.unique hq'
      exact (hw.clash hw' (by decide)).elim
    | member hw' | index hw' | call hw' => exact (hq.clash hw' (by decide)).elim
  | optionalCall hq hw has =>
    cases hz with
    | optionalCall hq' hw' has' =>
      obtain rfl := hq.unique hq'
      obtain rfl := hw.unique hw'
      have hv := (hx.trans (hq.symbol_rest (by decide))).trans (hw.symbol_rest (by decide))
      obtain ⟨rfl, rfl⟩ := inner (.items .round) _ hv has has' (Nat.zero_le _) (Nat.zero_le _)
      rfl
    | optionalMember hq' hn' =>
      obtain rfl := hq.unique hq'
      exact absurd ((hn'.lead_eq leadOf_anyName?).symm.trans (lead_round hw))
        (leadOfWord_ne (by decide))
    | optionalIndex hq' hw' =>
      obtain rfl := hq.unique hq'
      exact (hw.clash hw' (by decide)).elim
    | member hw' | index hw' | call hw' => exact (hq.clash hw' (by decide)).elim

/-- Two ways through a series that end before a looser token are one. -/
theorem Chain.unique {series : Series} {reach : Nat} (hreach : series.looseness < reach)
    {x y z : Tree × Text} (hx : Rest s x.2) (hy : Chain true series x y)
    (hz : Chain true series x z) (ey : reach ≤ looseness y.2) (ez : reach ≤ looseness z.2) :
    y = z := by
  have stops {x y : Tree × Text} (h : Next true series x y) (ex : reach ≤ looseness x.2) : False := by
    rw [h.looseness_eq] at ex
    omega
  induction hy using Relation.ReflTransGen.head_induction_on with
  | refl =>
    obtain h | ⟨w, hw, -⟩ := hz.cases_head
    · exact h
    · exact (stops hw ey).elim
  | head hnext hy ih =>
    obtain rfl | ⟨w, hw, hz⟩ := hz.cases_head
    · exact (stops hnext ez).elim
    · have heq := hnext.unique inner hx hw (Chain.follow hy (by omega)) (Chain.follow hz (by omega))
      subst heq
      exact ih (hx.trans hnext.rest) hz

/-- A first operand and the series after it: if the first operand is the only one that can stand
before the series, then so is the whole. -/
theorem series_unique {series : Series} {reach : Nat} (hreach : series.looseness < reach)
    {First : Tree → Text → Prop} (hrest : ∀ {e t}, First e t → Rest s t)
    (hfirst : ∀ {e t f v}, First e t → First f v → series.looseness ≤ looseness t →
      series.looseness ≤ looseness v → e = f ∧ t = v)
    {e f a b : Tree} {t v u w : Text} (he : First e t) (ha : Chain true series (e, t) (a, u))
    (hf : First f v) (hb : Chain true series (f, v) (b, w)) (eu : reach ≤ looseness u)
    (ew : reach ≤ looseness w) : a = b ∧ u = w := by
  have ht := ha.follow (Nat.le_of_lt (Nat.lt_of_lt_of_le hreach eu))
  have hv := hb.follow (Nat.le_of_lt (Nat.lt_of_lt_of_le hreach ew))
  obtain ⟨rfl, rfl⟩ := hfirst he hf ht hv
  exact Prod.mk.inj (Chain.unique inner hreach (hrest he) ha hb eu ew)

/-! ## Operands -/

theorem primary_unique : Unique .primary s := by
  intro a b u v ha hb _ _
  have heq : a.lead = b.lead := ha.lead_primary.symm.trans hb.lead_primary
  cases ha with
  | number hk =>
    cases hb with
    | number hk' =>
      obtain ⟨rfl, rfl⟩ := Prod.mk.inj (hk.unique hk')
      exact ⟨rfl, rfl⟩
    | _ => cases heq
  | string hk =>
    cases hb with
    | string hk' =>
      obtain ⟨rfl, rfl⟩ := Prod.mk.inj (hk.unique hk')
      exact ⟨rfl, rfl⟩
    | _ => cases heq
  | constant hk =>
    cases hb with
    | constant hk' =>
      obtain ⟨rfl, rfl⟩ := Prod.mk.inj (hk.unique hk')
      exact ⟨rfl, rfl⟩
    | _ => cases heq
  | name hn =>
    cases hb with
    | name hn' =>
      obtain ⟨rfl, rfl⟩ := Prod.mk.inj (hn.unique hn')
      exact ⟨rfl, rfl⟩
    | _ => cases heq
  | array hw has =>
    cases hb with
    | array hw' has' =>
      obtain rfl := hw.unique hw'
      obtain ⟨rfl, rfl⟩ := inner (.items .square) _ (hw.symbol_rest (by decide)) has has'
        (Nat.zero_le _) (Nat.zero_le _)
      exact ⟨rfl, rfl⟩
    | _ => cases heq
  | object hw has =>
    cases hb with
    | object hw' has' =>
      obtain rfl := hw.unique hw'
      obtain ⟨rfl, rfl⟩ := inner .entries _ (hw.symbol_rest (by decide)) has has' (Nat.zero_le _)
        (Nat.zero_le _)
      exact ⟨rfl, rfl⟩
    | _ => cases heq
  | paren hw he hc =>
    cases hb with
    | paren hw' he' hc' =>
      obtain rfl := hw.unique hw'
      obtain ⟨rfl, rfl⟩ := enclosed_unique inner .round (hw.symbol_rest (by decide)) he hc he' hc'
      exact ⟨rfl, rfl⟩
    | _ => cases heq

theorem accessed_unique : Unique .accessed s := by
  intro a b u v ha hb eu ev
  obtain ⟨e, t, he, ha⟩ := derives_accessed.1 ha
  obtain ⟨f, w, hf, hb⟩ := derives_accessed.1 hb
  exact series_unique inner Nat.zero_lt_one (fun h => h.rest)
    (fun he hf _ _ => primary_unique inner he hf (Nat.zero_le _) (Nat.zero_le _)) he ha hf hb eu ev

theorem signed_unique {a b : Tree} {u v : Text} (ha : Signed true s a u) (hb : Signed true s b v)
    (eu : 4 ≤ looseness u) (ev : 4 ≤ looseness v) : a = b ∧ u = v := by
  have delete {v : Text} (hw : Reads true (word? "delete") s v) : lead s = .delete :=
    hw.lead_eq fun ht => leadOf_word? (by decide) (by decide) ht
  have await {v : Text} (hw : Reads true (word? "await") s v) : lead s = .await := by
    rw [hw.lead_eq fun ht => leadOf_word? (by decide) (by decide) ht]
    decide
  cases ha with
  | unary hop he =>
    have hlead := hop.lead_eq leadOf_unary?
    cases hb with
    | unary hop' he' =>
      obtain ⟨rfl, rfl⟩ := Prod.mk.inj (hop.unique hop')
      obtain ⟨rfl, rfl⟩ := inner .unary _ (hop.rest rest_unary?) he he' eu ev
      exact ⟨rfl, rfl⟩
    | delete hw => cases hlead.symm.trans (delete hw)
    | await hw => cases hlead.symm.trans (await hw)
  | delete hw he =>
    have hlead := delete hw
    cases hb with
    | delete hw' he' =>
      obtain rfl := hw.unique hw'
      obtain ⟨rfl, rfl⟩ := inner .unary _ (hw.word_rest (by decide)) he he' eu ev
      exact ⟨rfl, rfl⟩
    | unary hop => cases hlead.symm.trans (hop.lead_eq leadOf_unary?)
    | await hw' => cases hlead.symm.trans (await hw')
  | await hw he =>
    have hlead := await hw
    cases hb with
    | await hw' he' =>
      obtain rfl := hw.unique hw'
      obtain ⟨rfl, rfl⟩ := inner .unary _ (hw.word_rest (by decide)) he he' eu ev
      exact ⟨rfl, rfl⟩
    | unary hop => cases hlead.symm.trans (hop.lead_eq leadOf_unary?)
    | delete hw' => cases hlead.symm.trans (delete hw')

omit inner in
theorem not_accessed_of_signed {a b : Tree} {u v : Text} (ha : Derives true .accessed s a u)
    (hb : Signed true s b v) : False := by
  have hoperand : (lead s).isOperand = true := ha.starts
  rw [hb.not_isOperand.2] at hoperand
  cases hoperand

theorem unary_unique : Unique .unary s := by
  intro a b u v ha hb eu ev
  rcases derives_unary.1 ha with ha | ha <;> rcases derives_unary.1 hb with hb | hb
  · exact accessed_unique inner ha hb (Nat.le_trans (by decide) eu) (Nat.le_trans (by decide) ev)
  · exact (not_accessed_of_signed ha hb).elim
  · exact (not_accessed_of_signed hb ha).elim
  · exact signed_unique inner ha hb eu ev

/-! ## Operators -/

omit inner in
theorem looseness_power {t v : Text} {f : Tree} {u : Text} (hw : Reads true (symbol? "**") t v)
    (hf : Derives true (.level BinaryOp.tightest) v f u) : looseness t = 3 :=
  looseness_operator hw (by decide) (by decide) hf.starts

theorem power_unique : Unique (.level BinaryOp.tightest) s := by
  intro a b u v ha hb eu ev
  -- An operand that is not raised ends before a token that binds looser than the power.
  have mixed {e f g : Tree} {t u w v : Text} (he : Derives true .unary s e u) (eu : 4 ≤ looseness u)
      (hf : Derives true .accessed s f t) (hw : Reads true (symbol? "**") t w)
      (hg : Derives true (.level BinaryOp.tightest) w g v) : False := by
    have ht := looseness_power hw hg
    rcases derives_unary.1 he with he | he
    · obtain ⟨-, rfl⟩ := accessed_unique inner he hf (Nat.le_trans (by decide) eu)
        (Nat.le_trans (by decide) (Nat.le_of_eq ht.symm))
      omega
    · exact not_accessed_of_signed hf he
  cases ha with
  | tighter hk => exact absurd hk (Nat.lt_irrefl _)
  | binary hk => exact absurd hk (Nat.lt_irrefl _)
  | base he =>
    cases hb with
    | tighter hk => exact absurd hk (Nat.lt_irrefl _)
    | binary hk => exact absurd hk (Nat.lt_irrefl _)
    | base hf => exact unary_unique inner he hf eu ev
    | power hf hw hg => exact (mixed he eu hf hw hg).elim
  | power he hw hg =>
    cases hb with
    | tighter hk => exact absurd hk (Nat.lt_irrefl _)
    | binary hk => exact absurd hk (Nat.lt_irrefl _)
    | base hf => exact (mixed hf ev he hw hg).elim
    | power he' hw' hg' =>
      have ht := looseness_power hw hg
      have ht' := looseness_power hw' hg'
      obtain ⟨rfl, rfl⟩ := accessed_unique inner he he'
        (Nat.le_trans (by decide) (Nat.le_of_eq ht.symm))
        (Nat.le_trans (by decide) (Nat.le_of_eq ht'.symm))
      obtain rfl := hw.unique hw'
      have hv := he.rest.trans (hw.symbol_rest (by decide))
      obtain ⟨rfl, rfl⟩ := inner _ _ hv hg hg' eu ev
      exact ⟨rfl, rfl⟩

theorem level_unique {k count : Nat} (h : k + count = BinaryOp.tightest) : Unique (.level k) s := by
  induction count generalizing k with
  | zero =>
    obtain rfl : k = BinaryOp.tightest := h
    exact power_unique inner
  | succ count ih =>
    have hk : k < BinaryOp.tightest := by omega
    have hk9 : k < 9 := hk
    intro a b u v ha hb eu ev
    obtain ⟨e, t, he, ha⟩ := (derives_level hk).1 ha
    obtain ⟨f, w, hf, hb⟩ := (derives_level hk).1 hb
    have hreach : (Series.operators k).looseness < (Nonterminal.level k).reach := by
      simp only [Series.looseness, Nonterminal.reach]
      omega
    have hfirst : (Nonterminal.level (k + 1)).reach = (Series.operators k).looseness := by
      simp only [Series.looseness, Nonterminal.reach]
      omega
    exact series_unique inner hreach (fun h => h.rest)
      (fun he hf ht hw => ih (by omega) he hf (hfirst ▸ ht) (hfirst ▸ hw)) he ha hf hb eu ev

theorem logicalAnd_unique : Unique .logicalAnd s := by
  intro a b u v ha hb eu ev
  obtain ⟨e, t, he, ha⟩ := derives_logicalAnd.1 ha
  obtain ⟨f, w, hf, hb⟩ := derives_logicalAnd.1 hb
  have operand : Unique (.level 1) s := level_unique inner (by decide : 1 + 8 = BinaryOp.tightest)
  exact series_unique inner (by decide : Series.looseness (.logical .and) < 14) (fun h => h.rest)
    (fun he hf ht hw => operand he hf (Nat.le_of_succ_le ht) (Nat.le_of_succ_le hw))
    he ha hf hb eu ev

theorem logicalOr_unique : Unique .logicalOr s := by
  intro a b u v ha hb eu ev
  obtain ⟨e, t, he, ha⟩ := derives_logicalOr.1 ha
  obtain ⟨f, w, hf, hb⟩ := derives_logicalOr.1 hb
  exact series_unique inner (by decide : Series.looseness (.logical .or) < 15) (fun h => h.rest)
    (fun he hf ht hw => logicalAnd_unique inner he hf ht hw) he ha hf hb eu ev

theorem coalesce_unique : Unique .coalesce s := by
  intro a b u v ha hb eu ev
  obtain ⟨e, t, x, he, hx, ha⟩ := derives_coalesce.1 ha
  obtain ⟨f, w, y, hf, hy, hb⟩ := derives_coalesce.1 hb
  have operand : Unique (.level 1) s := level_unique inner (by decide : 1 + 8 = BinaryOp.tightest)
  exact series_unique inner (by decide : Series.looseness (.logical .coalesce) < 13)
    (fun h => h.rest) (fun he hf ht hw => operand he hf ht hw) he (.head hx ha) hf (.head hy hb)
    eu ev

theorem shortCircuit_unique : Unique .shortCircuit s := by
  intro a b u v ha hb eu ev
  have operand : Unique (.level 1) s := level_unique inner (by decide : 1 + 8 = BinaryOp.tightest)
  -- After the first operand comes `??` in one case, and something looser in the other.
  have mixed {a b : Tree} {u v : Text} (ha : Derives true .logicalOr s a u)
      (eu : 15 ≤ looseness u) (hb : Derives true .coalesce s b v) : False := by
    obtain ⟨e, t, he, ha⟩ := derives_logicalOr.1 ha
    have ht := ha.follow (Nat.le_of_succ_le eu)
    obtain ⟨f, w, hf, he⟩ := derives_logicalAnd.1 he
    have hw := he.follow (Nat.le_of_succ_le ht)
    obtain ⟨g, x, y, hg, hnext, -⟩ := derives_coalesce.1 hb
    have hx := hnext.looseness_eq
    obtain ⟨-, rfl⟩ := operand hf hg (Nat.le_of_succ_le hw) (Nat.le_of_eq hx.symm)
    rw [hx] at hw
    exact absurd hw (by decide)
  cases ha with
  | either ha =>
    cases hb with
    | either hb => exact logicalOr_unique inner ha hb eu ev
    | coalesced hb => exact (mixed ha eu hb).elim
  | coalesced ha =>
    cases hb with
    | either hb => exact (mixed hb ev ha).elim
    | coalesced hb =>
      exact coalesce_unique inner ha hb (Nat.le_trans (by decide) eu) (Nat.le_trans (by decide) ev)

omit inner in
theorem looseness_question {t v w : Text} {f : Tree} (hw : Reads true (symbol? "?") t v)
    (hf : Derives true .assignment v f w) : looseness t = 15 :=
  looseness_operator hw (by decide) (by decide) hf.starts

theorem conditional_unique : Unique .conditional s := by
  intro a b u v ha hb eu ev
  have colon {t v : Text} (hx : Reads true (symbol? ":") t v) : 16 ≤ looseness t :=
    Nat.le_of_eq (looseness_mark hx (by decide)).symm
  have mixed {e f g : Tree} {u t v w : Text} (he : Derives true .shortCircuit s e u)
      (eu : 16 ≤ looseness u) (hf : Derives true .shortCircuit s f t)
      (hw : Reads true (symbol? "?") t v) (hg : Derives true .assignment v g w) : False := by
    have ht := looseness_question hw hg
    obtain ⟨-, rfl⟩ := shortCircuit_unique inner he hf (Nat.le_of_succ_le eu) (Nat.le_of_eq ht.symm)
    omega
  cases ha with
  | test he =>
    cases hb with
    | test he' =>
      exact shortCircuit_unique inner he he' (Nat.le_of_succ_le eu) (Nat.le_of_succ_le ev)
    | conditional he' hw' hf' => exact (mixed he eu he' hw' hf').elim
  | conditional he hw hf hx hg =>
    cases hb with
    | test he' => exact (mixed he' ev he hw hf).elim
    | conditional he' hw' hf' hx' hg' =>
      obtain ⟨rfl, rfl⟩ := shortCircuit_unique inner he he'
        (Nat.le_of_eq (looseness_question hw hf).symm)
        (Nat.le_of_eq (looseness_question hw' hf').symm)
      obtain rfl := hw.unique hw'
      have hv := he.rest.trans (hw.symbol_rest (by decide))
      obtain ⟨rfl, rfl⟩ := inner .assignment _ hv hf hf' (colon hx) (colon hx')
      obtain rfl := hx.unique hx'
      have hy := (hv.trans hf.rest).trans (hx.symbol_rest (by decide))
      obtain ⟨rfl, rfl⟩ := inner .assignment _ hy hg hg' eu ev
      exact ⟨rfl, rfl⟩

/-! ## Functions and assignments -/

omit inner in
/-- What an operand of some level starts with, before a token that ends it: an operand without
operators before it, followed by neither an arrow nor an assignment, or an operator. -/
theorem level_first {k count : Nat} (h : k + count = BinaryOp.tightest) {a : Tree} {u : Text}
    (ha : Derives true (.level k) s a u) (eu : (Nonterminal.level k).reach ≤ looseness u) :
    (∃ e t, Derives true .accessed s e t ∧ 3 ≤ looseness t) ∨ ∃ e t, Signed true s e t := by
  induction count generalizing k a u with
  | zero =>
    obtain rfl : k = BinaryOp.tightest := h
    cases ha with
    | tighter hk => exact absurd hk (Nat.lt_irrefl _)
    | binary hk => exact absurd hk (Nat.lt_irrefl _)
    | base he =>
      rcases derives_unary.1 he with he | he
      · exact Or.inl ⟨a, u, he, Nat.le_of_succ_le eu⟩
      · exact Or.inr ⟨a, u, he⟩
    | power he hw hf => exact Or.inl ⟨_, _, he, Nat.le_of_eq (looseness_power hw hf).symm⟩
  | succ count ih =>
    have hk : k < BinaryOp.tightest := by omega
    have hk9 : k < 9 := hk
    obtain ⟨e, t, he, ha⟩ := (derives_level hk).1 ha
    have ht : (Series.operators k).looseness ≤ looseness t := by
      refine ha.follow (Nat.le_trans ?_ eu)
      simp only [Series.looseness, Nonterminal.reach]
      omega
    refine ih (by omega) he (Nat.le_trans ?_ ht)
    simp only [Series.looseness, Nonterminal.reach]
    omega

omit inner in
theorem conditional_first {a : Tree} {u : Text} (ha : Derives true .conditional s a u)
    (eu : 16 ≤ looseness u) :
    (∃ e t, Derives true .accessed s e t ∧ 3 ≤ looseness t) ∨ ∃ e t, Signed true s e t := by
  have hlevel : 1 + 8 = BinaryOp.tightest := by decide
  have shortCircuit {e : Tree} {t : Text} (he : Derives true .shortCircuit s e t)
      (et : 15 ≤ looseness t) :
      (∃ e t, Derives true .accessed s e t ∧ 3 ≤ looseness t) ∨ ∃ e t, Signed true s e t := by
    cases he with
    | either he =>
      obtain ⟨f, v, hf, he⟩ := derives_logicalOr.1 he
      have hv := he.follow (Nat.le_of_succ_le et)
      obtain ⟨g, w, hg, hf⟩ := derives_logicalAnd.1 hf
      have hw := hf.follow (Nat.le_of_succ_le hv)
      exact level_first hlevel hg (Nat.le_of_succ_le hw)
    | coalesced he =>
      obtain ⟨f, v, x, hf, hnext, -⟩ := derives_coalesce.1 he
      exact level_first hlevel hf (Nat.le_of_eq hnext.looseness_eq.symm)
  cases ha with
  | test he => exact shortCircuit he (Nat.le_of_succ_le eu)
  | conditional he hw hf => exact shortCircuit he (Nat.le_of_eq (looseness_question hw hf).symm)

omit inner in
theorem derives_name {n u : Text} (h : Reads true name? s (n, u)) :
    Derives true .assignment s (.name n) u := by
  have operand : Derives true (.level BinaryOp.tightest) s (.name n) u :=
    .base (.bare (.primary (.name h)))
  exact (operand.loosen (j := 1) (by decide) (Nat.le_refl _)).of_operand

omit inner in
theorem looseness_round {t u : Text} (h : Reads true (symbol? ")") t u) : looseness t = 18 :=
  looseness_mark h (by decide)

omit inner in
theorem looseness_comma {t u : Text} (h : Reads true (symbol? ",") t u) : looseness t = 17 :=
  looseness_mark h (by decide)

omit inner in
theorem lead_closing {b : Bracket} {t u : Text} (h : Reads true (symbol? b.closing) t u) :
    lead t = .none := by
  cases b <;> exact h.lead_eq fun ht => leadOf_symbol? ht (by decide)

/-- The names of parameters and an expression in parentheses that start alike end alike. -/
theorem names_paren {ns : List Text} {v t : Text} (hv : Rest s v) (hns : Derives true .names v ns t)
    {e f g : Tree} {w x u : Text} (he : Derives true .assignment v g w)
    (hchain : Chain true .commas (e, w) (f, x)) (hx : Reads true (symbol? ")") x u) : u = t := by
  induction ns generalizing v g e w with
  | nil =>
    cases hns with
    | noName hw => exact absurd (lead_closing (b := .round) hw) he.starts
  | cons n ns ih =>
    have ew : 17 ≤ looseness w :=
      hchain.follow (Nat.le_trans (by decide) (Nat.le_of_eq (looseness_round hx).symm))
    -- The first expression is the name itself, because nothing but a comma or the end follows it.
    have first {y : Text} (hn : Reads true name? v (n, y)) (ey : 17 ≤ looseness y) : w = y :=
      (inner .assignment v hv he (derives_name hn) (Nat.le_of_succ_le ew) (Nat.le_of_succ_le ey)).2
    cases hns with
    | lastName hn hw =>
      have hy := looseness_round hw
      obtain rfl := first hn (by omega)
      obtain h | ⟨z, hz, -⟩ := hchain.cases_head
      · obtain ⟨rfl, rfl⟩ := Prod.mk.inj h
        exact hx.unique hw
      · have := hz.looseness_eq
        rw [hy] at this
        cases this
    | moreNames hn hw hns =>
      have hy := looseness_comma hw
      obtain rfl := first hn (by omega)
      obtain h | ⟨z, hz, hchain⟩ := hchain.cases_head
      · obtain ⟨rfl, rfl⟩ := Prod.mk.inj h
        rw [looseness_round hx] at hy
        cases hy
      · cases hz with
        | comma hw' hf =>
          obtain rfl := hw.unique hw'
          have hv' := (hv.trans (hn.rest rest_name?)).trans (hw.symbol_rest (by decide))
          exact ih hv' hns hf hchain

/-- The parameters of a function are no operand that something else follows. -/
theorem not_operand_of_arrow {ns : List Text} {t v u w : Text} {e f : Tree}
    (hns : Derives true .params s ns t) (hw : Reads true (symbol? "=>") t v)
    (hf : Derives true .assignment v f u) (he : Derives true .accessed s e w)
    (ew : 2 ≤ looseness w) : False := by
  have ht : looseness t = 1 := looseness_operator hw (by decide) (by decide) hf.starts
  cases hns with
  | param hn =>
    obtain ⟨-, rfl⟩ := accessed_unique inner (.primary (.name hn)) he (Nat.le_of_eq ht.symm)
      (Nat.le_of_succ_le ew)
    omega
  | params hround hns =>
    obtain ⟨f, x, hf, hchain⟩ := derives_accessed.1 he
    have hlead := hf.lead_primary.symm.trans (lead_round hround)
    cases hf with
    | paren hround' hg hx =>
      obtain rfl := hround.unique hround'
      obtain ⟨g, y, hg, hcommas⟩ := derives_expression.1 hg
      obtain rfl := names_paren inner (hround.symbol_rest (by decide)) hns hg hcommas hx
      obtain h | ⟨z, hz, -⟩ := hchain.cases_head
      · obtain ⟨-, rfl⟩ := Prod.mk.inj h
        omega
      · have := hz.looseness_eq
        rw [ht] at this
        cases this
    | _ => cases hlead

theorem params_unique {a b : List Text} {u v : Text} (ha : Derives true .params s a u)
    (hb : Derives true .params s b v) : a = b ∧ u = v := by
  cases ha with
  | param hn =>
    cases hb with
    | param hn' =>
      obtain ⟨rfl, rfl⟩ := Prod.mk.inj (hn.unique hn')
      exact ⟨rfl, rfl⟩
    | params hw => cases (hn.lead_eq leadOf_name?).symm.trans (lead_round hw)
  | params hw hns =>
    cases hb with
    | param hn => cases (hn.lead_eq leadOf_name?).symm.trans (lead_round hw)
    | params hw' hns' =>
      obtain rfl := hw.unique hw'
      exact inner .names _ (hw.symbol_rest (by decide)) hns hns' (Nat.zero_le _) (Nat.zero_le _)

theorem assignment_unique : Unique .assignment s := by
  intro a b u v ha hb eu ev
  have arrow_choice {ns : List Text} {t v x u : Text} {e f : Tree}
      (hns : Derives true .params s ns t) (hw : Reads true (symbol? "=>") t v)
      (hf : Derives true .assignment v f x) (he : Derives true .conditional s e u)
      (eu : 16 ≤ looseness u) : False := by
    rcases conditional_first he eu with ⟨g, y, hg, hy⟩ | ⟨g, y, hg⟩
    · exact not_operand_of_arrow inner hns hw hf hg (Nat.le_of_succ_le hy)
    · have hoperand := hns.isOperand_params
      rw [hg.not_isOperand.2] at hoperand
      cases hoperand
  have assign_choice {op : AssignOp} {t v x u : Text} {e f g : Tree}
      (he : Derives true .accessed s e t) (hop : Reads true assign? t (op, v))
      (hf : Derives true .assignment v f x) (hg : Derives true .conditional s g u)
      (eu : 16 ≤ looseness u) : False := by
    have ht := looseness_assign hop hf.starts
    rcases conditional_first hg eu with ⟨g, y, hg, hy⟩ | ⟨g, y, hg⟩
    · obtain ⟨-, rfl⟩ := accessed_unique inner he hg
        (Nat.le_trans (by decide) (Nat.le_of_eq ht.symm)) (Nat.le_trans (by decide) hy)
      omega
    · exact not_accessed_of_signed he hg
  cases ha with
  | choice ha =>
    cases hb with
    | choice hb => exact conditional_unique inner ha hb eu ev
    | arrow hns hw hf => exact (arrow_choice hns hw hf ha eu).elim
    | assign he hop hf => exact (assign_choice he hop hf ha eu).elim
  | arrow hns hw hf =>
    cases hb with
    | choice hb => exact (arrow_choice hns hw hf hb ev).elim
    | arrow hns' hw' hf' =>
      obtain ⟨rfl, rfl⟩ := params_unique inner hns hns'
      obtain rfl := hw.unique hw'
      have hv := hns.rest.trans (hw.symbol_rest (by decide))
      obtain ⟨rfl, rfl⟩ := inner .assignment _ hv hf hf' eu ev
      exact ⟨rfl, rfl⟩
    | assign he hop hf' =>
      exact (not_operand_of_arrow inner hns hw hf he
        (Nat.le_of_eq (looseness_assign hop hf'.starts).symm)).elim
  | assign he hop hf =>
    have ht := looseness_assign hop hf.starts
    cases hb with
    | choice hb => exact (assign_choice he hop hf hb ev).elim
    | arrow hns hw hf' =>
      exact (not_operand_of_arrow inner hns hw hf' he (Nat.le_of_eq ht.symm)).elim
    | assign he' hop' hf' =>
      have ht' := looseness_assign hop' hf'.starts
      obtain ⟨rfl, rfl⟩ := accessed_unique inner he he'
        (Nat.le_trans (by decide) (Nat.le_of_eq ht.symm))
        (Nat.le_trans (by decide) (Nat.le_of_eq ht'.symm))
      obtain ⟨rfl, rfl⟩ := Prod.mk.inj (hop.unique hop')
      have hv := he.rest.trans (hop.rest rest_assign?)
      obtain ⟨rfl, rfl⟩ := inner .assignment _ hv hf hf' eu ev
      exact ⟨rfl, rfl⟩

theorem expression_unique : Unique .expression s := by
  intro a b u v ha hb eu ev
  obtain ⟨e, t, he, ha⟩ := derives_expression.1 ha
  obtain ⟨f, w, hf, hb⟩ := derives_expression.1 hb
  exact series_unique inner (by decide : Series.looseness .commas < 18) (fun h => h.rest)
    (fun he hf ht hw => assignment_unique inner he hf (Nat.le_of_succ_le ht) (Nat.le_of_succ_le hw))
    he ha hf hb eu ev

/-! ## Lists -/

omit inner in
/-- A list is read in one way if its elements are, and no element starts like its closing symbol. -/
theorem Listed.unique {α : Type} {closing : String} {E : Text → α → Text → Prop}
    {O : Text → List α → Text → Prop} {n : Nat} (hn : n ≤ 17)
    (hclosing : (Text.ofString closing).head?.any fun c => !startsName c && !oneOf "+-/?" c &&
      !oneOf operatorChars c && decide (loosenessOfHead c = 18))
    (hempty : ∀ {a t u}, E s a t → Reads true (symbol? closing) s u → False)
    (hrest : ∀ {a t}, E s a t → Rest s t)
    (helement : ∀ {a b t v}, E s a t → E s b v → n ≤ looseness t → n ≤ looseness v →
      a = b ∧ t = v)
    (hothers : ∀ {as bs v t u}, Rest s v → O v as t → O v bs u → as = bs ∧ t = u)
    {as bs : List α} {u v : Text} (ha : Listed true closing E O s as u)
    (hb : Listed true closing E O s bs v) : as = bs ∧ u = v := by
  have closes {t u : Text} (h : Reads true (symbol? closing) t u) : looseness t = 18 :=
    looseness_mark h hclosing
  have differ {t u v : Text} (h : Reads true (symbol? closing) t u)
      (h' : Reads true (symbol? ",") t v) : False := by
    have := (closes h).symm.trans (looseness_comma h')
    omega
  rcases ha with ⟨rfl, hw⟩ | ⟨a, t, ha, ⟨rfl, hw⟩ | ⟨x, as, hw, has, rfl⟩⟩ <;>
    rcases hb with ⟨rfl, hw'⟩ | ⟨b, t', hb, ⟨rfl, hw'⟩ | ⟨y, bs, hw', hbs, rfl⟩⟩
  · exact ⟨rfl, hw.unique hw'⟩
  · exact (hempty hb hw).elim
  · exact (hempty hb hw).elim
  · exact (hempty ha hw').elim
  · have ht := closes hw
    have ht' := closes hw'
    obtain ⟨rfl, rfl⟩ := helement ha hb (by omega) (by omega)
    exact ⟨rfl, hw.unique hw'⟩
  · have ht := closes hw
    have ht' := looseness_comma hw'
    obtain ⟨rfl, rfl⟩ := helement ha hb (by omega) (by omega)
    exact (differ hw hw').elim
  · exact (hempty ha hw').elim
  · have ht := looseness_comma hw
    have ht' := closes hw'
    obtain ⟨rfl, rfl⟩ := helement ha hb (by omega) (by omega)
    exact (differ hw' hw).elim
  · have ht := looseness_comma hw
    have ht' := looseness_comma hw'
    obtain ⟨rfl, rfl⟩ := helement ha hb (by omega) (by omega)
    obtain rfl := hw.unique hw'
    obtain ⟨rfl, rfl⟩ := hothers ((hrest ha).trans (hw.symbol_rest (by decide))) has hbs
    exact ⟨rfl, rfl⟩

theorem names_unique : Unique .names s := by
  intro a b u v ha hb _ _
  refine Listed.unique (Nat.zero_le 17) (by decide) ?_ (fun hn => hn.rest rest_name?) ?_ ?_
    (derives_names.1 ha) (derives_names.1 hb)
  · intro n t u hn hw
    cases (hn.lead_eq leadOf_name?).symm.trans (lead_closing (b := .round) hw)
  · intro n m t v hn hm _ _
    exact Prod.mk.inj (hn.unique hm)
  · intro as bs v t u hv has hbs
    exact inner .names v hv has hbs (Nat.zero_le _) (Nat.zero_le _)

omit inner in
theorem lead_dots {t u : Text} (h : Reads true (symbol? "...") t u) : lead t = .none := by
  rw [lead, symbol?_eq_some.1 (reads_true.1 h)]
  rfl

theorem item_unique : Unique .item s := by
  intro a b u v ha hb eu ev
  cases ha with
  | single he =>
    cases hb with
    | single he' =>
      obtain ⟨rfl, rfl⟩ := assignment_unique inner he he' eu ev
      exact ⟨rfl, rfl⟩
    | spreadItem hw => exact absurd (lead_dots hw) he.starts
  | spreadItem hw he =>
    cases hb with
    | single he' => exact absurd (lead_dots hw) he'.starts
    | spreadItem hw' he' =>
      obtain rfl := hw.unique hw'
      obtain ⟨rfl, rfl⟩ := inner .assignment _ (hw.symbol_rest (by decide)) he he' eu ev
      exact ⟨rfl, rfl⟩

theorem items_unique (bracket : Bracket) : Unique (.items bracket) s := by
  intro a b u v ha hb _ _
  refine Listed.unique (by decide : 16 ≤ 17) (by cases bracket <;> decide) ?_ (fun hi => hi.rest)
    (fun hi hj et ev => item_unique inner hi hj et ev) ?_ (derives_items.1 ha) (derives_items.1 hb)
  · intro i t u hi hw
    cases hi with
    | single he => exact he.starts (lead_closing hw)
    | spreadItem hdots => exact hdots.clash hw (by cases bracket <;> decide)
  · intro as bs v t u hv has hbs
    exact inner (.items bracket) v hv has hbs (Nat.zero_le _) (Nat.zero_le _)

omit inner in
theorem Token.Reads.anyName {n t : Text} (h : Reads true name? s (n, t)) :
    Reads true anyName? s (n, t) := by
  rw [reads_true] at h ⊢
  exact (Option.filter_eq_some_iff.1 h).1

omit inner in
theorem Derives.lead_entry {a : TreeEntry} {u : Text} (h : Derives true .entry s a u) :
    (lead s).ofEntry = a.lead := by
  cases h with
  | named hk =>
    rw [hk.lead_eq leadOf_anyName?]
    exact ofEntry_leadOfWord _
  | stringKey hk => exact congrArg Lead.ofEntry (hk.lead_eq leadOf_string?)
  | numberKey hk => exact congrArg Lead.ofEntry (hk.lead_eq leadOf_number?)
  | computed hq => exact congrArg Lead.ofEntry (lead_square hq)
  | shorthand hn => exact congrArg Lead.ofEntry (hn.lead_eq leadOf_name?)
  | spreadEntry hw => exact congrArg Lead.ofEntry (lead_dots hw)

theorem entry_unique : Unique .entry s := by
  intro a b u v ha hb eu ev
  have heq : a.lead = b.lead := ha.lead_entry.symm.trans hb.lead_entry
  have value {t v u u' : Text} {e e' : Tree} (ht : Rest s t) (hw : Reads true (symbol? ":") t v)
      (he : Derives true .assignment v e u) (he' : Derives true .assignment v e' u')
      (eu : 17 ≤ looseness u) (eu' : 17 ≤ looseness u') : e = e' ∧ u = u' :=
    inner .assignment v (ht.trans (hw.symbol_rest (by decide))) he he' (Nat.le_of_succ_le eu)
      (Nat.le_of_succ_le eu')
  have shorthand {t v : Text} (hw : Reads true (symbol? ":") t v) (et : 17 ≤ looseness t) :
      False := by
    rw [looseness_mark hw (by decide : (Text.ofString ":").head?.any fun c => !startsName c &&
      !oneOf "+-/?" c && !oneOf operatorChars c && decide (loosenessOfHead c = 16))] at et
    omega
  cases ha with
  | named hk hw he =>
    cases hb with
    | named hk' hw' he' =>
      obtain ⟨rfl, rfl⟩ := Prod.mk.inj (hk.unique hk')
      obtain rfl := hw.unique hw'
      obtain ⟨rfl, rfl⟩ := value (hk.rest rest_anyName?) hw he he' eu ev
      exact ⟨rfl, rfl⟩
    | shorthand hn =>
      obtain ⟨rfl, rfl⟩ := Prod.mk.inj (hk.unique hn.anyName)
      exact (shorthand hw ev).elim
    | _ => cases heq
  | stringKey hk hw he =>
    cases hb with
    | stringKey hk' hw' he' =>
      obtain ⟨rfl, rfl⟩ := Prod.mk.inj (hk.unique hk')
      obtain rfl := hw.unique hw'
      obtain ⟨rfl, rfl⟩ := value (hk.rest rest_string?) hw he he' eu ev
      exact ⟨rfl, rfl⟩
    | _ => cases heq
  | numberKey hk hw he =>
    cases hb with
    | numberKey hk' hw' he' =>
      obtain ⟨rfl, rfl⟩ := Prod.mk.inj (hk.unique hk')
      obtain rfl := hw.unique hw'
      obtain ⟨rfl, rfl⟩ := value (hk.rest rest_number?) hw he he' eu ev
      exact ⟨rfl, rfl⟩
    | _ => cases heq
  | computed hq hk hx hw he =>
    cases hb with
    | computed hq' hk' hx' hw' he' =>
      have square {w t : Text} (hx : Reads true (symbol? "]") w t) : 16 ≤ looseness w :=
        Nat.le_trans (by decide) (Nat.le_of_eq (looseness_mark hx (n := 18) (by decide)).symm)
      obtain rfl := hq.unique hq'
      have hq := hq.symbol_rest (by decide)
      obtain ⟨rfl, rfl⟩ := inner .assignment _ hq hk hk' (square hx) (square hx')
      obtain rfl := hx.unique hx'
      obtain rfl := hw.unique hw'
      have ht := (hq.trans hk.rest).trans (hx.symbol_rest (by decide))
      obtain ⟨rfl, rfl⟩ := value ht hw he he' eu ev
      exact ⟨rfl, rfl⟩
    | _ => cases heq
  | shorthand hn =>
    cases hb with
    | shorthand hn' =>
      obtain ⟨rfl, rfl⟩ := Prod.mk.inj (hn.unique hn')
      exact ⟨rfl, rfl⟩
    | named hk' hw' =>
      obtain ⟨rfl, rfl⟩ := Prod.mk.inj (hn.anyName.unique hk')
      exact (shorthand hw' eu).elim
    | _ => cases heq
  | spreadEntry hw he =>
    cases hb with
    | spreadEntry hw' he' =>
      obtain rfl := hw.unique hw'
      obtain ⟨rfl, rfl⟩ := inner .assignment _ (hw.symbol_rest (by decide)) he he'
        (Nat.le_of_succ_le eu) (Nat.le_of_succ_le ev)
      exact ⟨rfl, rfl⟩
    | _ => cases heq

theorem entries_unique : Unique .entries s := by
  intro a b u v ha hb _ _
  refine Listed.unique (Nat.le_refl 17) (by decide) ?_ (fun hi => hi.rest)
    (fun hi hj et ev => entry_unique inner hi hj et ev) ?_ (derives_entries.1 ha)
    (derives_entries.1 hb)
  · intro i t u hi hw
    have hcurly : lead s = .none := hw.lead_eq fun ht => leadOf_symbol? ht (by decide)
    have hlead := hcurly ▸ hi.lead_entry
    cases hi with
    | spreadEntry hdots => exact hdots.clash hw (by decide)
    | _ => cases hlead
  · intro as bs v t u hv has hbs
    exact inner .entries v hv has hbs (Nat.zero_le _) (Nat.zero_le _)

end

/-! ## All nonterminals -/

/-- Two derivations of a nonterminal that end where it has to end are one. -/
theorem Derives.unique (X : Nonterminal) (s : Text) : Unique X s := by
  -- Each part of a derivation but the first belongs to a shorter text.
  suffices ∀ n s, s.length ≤ n → ∀ X, Unique X s from this _ s (Nat.le_refl _) X
  intro n
  induction n with
  | zero =>
    intro s hs X a b u v ha
    have := ha.rest.shorter
    omega
  | succ n ih =>
    intro s hs X
    have inner : ∀ X t, Rest s t → Unique X t := by
      intro X t ht
      have := ht.shorter
      exact ih t (by omega) X
    cases X with
    | expression => exact expression_unique inner
    | assignment => exact assignment_unique inner
    | params => exact fun _ _ _ _ ha hb _ _ => params_unique inner ha hb
    | names => exact names_unique inner
    | conditional => exact conditional_unique inner
    | shortCircuit => exact shortCircuit_unique inner
    | coalesce => exact coalesce_unique inner
    | logicalOr => exact logicalOr_unique inner
    | logicalAnd => exact logicalAnd_unique inner
    | level k =>
      by_cases hk : k ≤ BinaryOp.tightest
      · exact level_unique inner (Nat.add_sub_cancel' hk)
      · intro a b u v ha
        cases ha with
        | tighter hlt | binary hlt => omega
        | base | power => omega
    | unary => exact unary_unique inner
    | accessed => exact accessed_unique inner
    | items bracket => exact items_unique inner bracket
    | item => exact item_unique inner
    | primary => exact primary_unique inner
    | entries => exact entries_unique inner
    | entry => exact entry_unique inner

/-! ## Statements -/

/-- A statement ends before a semicolon or at the end of the text. -/
theorem ends_statement {s : Text} (h : At true s [] ∨ ∃ v, Reads true (symbol? ";") s v) :
    looseness s = 18 ∧ lead s = .none := by
  rcases h with h | ⟨v, hw⟩
  · refine ⟨looseness_end h, ?_⟩
    rw [lead, ← at_true.1 h]
    rfl
  · exact ⟨looseness_mark hw (by decide), hw.lead_eq fun ht => leadOf_symbol? ht (by decide)⟩

theorem Stated.unique {s t v : Text} {a b : Option Tree} (ha : Stated true s a t)
    (hb : Stated true s b v) (ht : At true t [] ∨ ∃ x, Reads true (symbol? ";") t x)
    (hv : At true v [] ∨ ∃ x, Reads true (symbol? ";") v x) : a = b ∧ t = v := by
  cases ha with
  | empty =>
    cases hb with
    | empty => exact ⟨rfl, rfl⟩
    | expression he => exact absurd (ends_statement ht).2 he.starts
  | expression he =>
    cases hb with
    | empty => exact absurd (ends_statement hv).2 he.starts
    | expression hf =>
      obtain ⟨rfl, rfl⟩ := Derives.unique .expression s he hf (Nat.le_of_eq (ends_statement ht).1.symm)
        (Nat.le_of_eq (ends_statement hv).1.symm)
      exact ⟨rfl, rfl⟩

/-- A text is read in one way if each token is read after all white space and comments. -/
theorem Spells.unique {s : Text} {a b : List (Option Tree)} (ha : Spells true s a)
    (hb : Spells true s b) : a = b := by
  have differ {t v : Text} (hend : At true t []) (hw : Reads true (symbol? ";") t v) : False := by
    have hskip := at_true.1 hend
    have hspelled := symbol?_eq_some.1 (reads_true.1 hw)
    rw [← hskip] at hspelled
    exact absurd (List.append_eq_nil_iff.1 hspelled.symm).1 (by decide)
  induction ha generalizing b with
  | last hfirst hend =>
    cases hb with
    | last hfirst' hend' =>
      obtain ⟨rfl, -⟩ := hfirst.unique hfirst' (Or.inl hend) (Or.inl hend')
      rfl
    | more hfirst' hw' =>
      obtain ⟨-, rfl⟩ := hfirst.unique hfirst' (Or.inl hend) (Or.inr ⟨_, hw'⟩)
      exact (differ hend hw').elim
  | more hfirst hw _ ih =>
    cases hb with
    | last hfirst' hend' =>
      obtain ⟨-, rfl⟩ := hfirst.unique hfirst' (Or.inr ⟨_, hw⟩) (Or.inl hend')
      exact (differ hend' hw).elim
    | more hfirst' hw' hothers' =>
      obtain ⟨rfl, rfl⟩ := hfirst.unique hfirst' (Or.inr ⟨_, hw⟩) (Or.inr ⟨_, hw'⟩)
      obtain rfl := hw.unique hw'
      rw [ih hothers']

end GuardedText
