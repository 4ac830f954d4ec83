import GuardedText.Guard.Parser
import GuardedText.Proofs.Guard.Token

/-
  The grammar of guards, as a relation between a text, a parse tree and what follows
  (`Derives`). It has one rule for each alternative of each nonterminal, and rules for operators that
  group to the left are left-recursive; look-ahead stands in the tokens alone. Before each token
  white space and comments may be left out.

  A left-recursive rule is the same as a first operand and then any number of further ones
  (`Derives.splits`), which is how a reader from left to right meets them.
-/

namespace GuardedText

/-- Where a token can stand after `s`: after some white space and comments or, if `full`, only
after all of them. -/
def Token.At (full : Bool) (s t : Text) : Prop :=
  Token.Gap s t ∧ (full = true → Token.afterGap? t = none)

/-- What `find` finds at a place for the next token. -/
def Token.Reads {α : Type} (full : Bool) (find : Text → Option α) (s : Text) (a : α) : Prop :=
  ∃ t, Token.At full s t ∧ find t = some a

open Token

/-- The nonterminals of the grammar. -/
inductive Nonterminal where
  /-- Assignments with commas between them. -/
  | expression
  /-- A function, an assignment or a conditional expression. -/
  | assignment
  /-- The parameters of a function. -/
  | params
  /-- The names of parameters up to the closing parenthesis. -/
  | names
  /-- A choice, or a short circuit alone. -/
  | conditional
  /-- A chain of `||`, or a chain of `??`. -/
  | shortCircuit
  /-- At least two operands of `??`. -/
  | coalesce
  /-- Operands of `||`. -/
  | logicalOr
  /-- Operands of `&&`. -/
  | logicalAnd
  /-- Operands of the operators of a level; above all of these is the power. -/
  | level (k : Nat)
  /-- An operand with the operators before it. -/
  | unary
  /-- An operand with accesses and calls. -/
  | accessed
  /-- Arguments or elements up to their closing bracket. -/
  | items (bracket : Bracket)
  /-- An argument or element. -/
  | item
  /-- A literal, a name or an expression in brackets. -/
  | primary
  /-- Entries of an object up to its closing brace. -/
  | entries
  /-- An entry of an object. -/
  | entry

/-- What a nonterminal stands for. -/
abbrev Nonterminal.Out : Nonterminal → Type
  | .params | .names => List Text
  | .items _ => List TreeItem
  | .item => TreeItem
  | .entries => List TreeEntry
  | .entry => TreeEntry
  | .expression | .assignment | .conditional | .shortCircuit | .coalesce | .logicalOr | .logicalAnd
  | .level _ | .unary | .accessed | .primary => Tree

/-- `Derives full X s a u`: the text `s` starts with an `X` whose tree is `a`, and `u` follows. -/
inductive Derives (full : Bool) : (X : Nonterminal) → Text → X.Out → Text → Prop where
  | alone {s e u} : Derives full .assignment s e u → Derives full .expression s e u
  | sequence {s e t v f u} : Derives full .expression s e t → Reads full (symbol? ",") t v →
      Derives full .assignment v f u → Derives full .expression s (.sequence e f) u
  | choice {s e u} : Derives full .conditional s e u → Derives full .assignment s e u
  | arrow {s ns t v e u} : Derives full .params s ns t → Reads full (symbol? "=>") t v →
      Derives full .assignment v e u → Derives full .assignment s (.arrow ns e) u
  | assign {s e t op v f u} : Derives full .accessed s e t → Reads full assign? t (op, v) →
      Derives full .assignment v f u → Derives full .assignment s (.assign op e f) u
  | param {s n u} : Reads full name? s (n, u) → Derives full .params s [n] u
  | params {s v ns u} : Reads full (symbol? "(") s v → Derives full .names v ns u →
      Derives full .params s ns u
  | noName {s u} : Reads full (symbol? ")") s u → Derives full .names s [] u
  | lastName {s n t u} : Reads full name? s (n, t) → Reads full (symbol? ")") t u →
      Derives full .names s [n] u
  | moreNames {s n t v ns u} : Reads full name? s (n, t) → Reads full (symbol? ",") t v →
      Derives full .names v ns u → Derives full .names s (n :: ns) u
  | test {s e u} : Derives full .shortCircuit s e u → Derives full .conditional s e u
  | conditional {s e t v f w x g u} : Derives full .shortCircuit s e t →
      Reads full (symbol? "?") t v → Derives full .assignment v f w → Reads full (symbol? ":") w x →
      Derives full .assignment x g u → Derives full .conditional s (.conditional e f g) u
  | either {s e u} : Derives full .logicalOr s e u → Derives full .shortCircuit s e u
  | coalesced {s e u} : Derives full .coalesce s e u → Derives full .shortCircuit s e u
  | coalesce {s e t v f u} : Derives full (.level 1) s e t → Reads full (symbol? "??") t v →
      Derives full (.level 1) v f u → Derives full .coalesce s (.logical .coalesce e f) u
  | moreCoalesce {s e t v f u} : Derives full .coalesce s e t → Reads full (symbol? "??") t v →
      Derives full (.level 1) v f u → Derives full .coalesce s (.logical .coalesce e f) u
  | both {s e u} : Derives full .logicalAnd s e u → Derives full .logicalOr s e u
  | logicalOr {s e t v f u} : Derives full .logicalOr s e t → Reads full (symbol? "||") t v →
      Derives full .logicalAnd v f u → Derives full .logicalOr s (.logical .or e f) u
  | operand {s e u} : Derives full (.level 1) s e u → Derives full .logicalAnd s e u
  | logicalAnd {s e t v f u} : Derives full .logicalAnd s e t → Reads full (symbol? "&&") t v →
      Derives full (.level 1) v f u → Derives full .logicalAnd s (.logical .and e f) u
  | tighter {k s e u} : k < BinaryOp.tightest → Derives full (.level (k + 1)) s e u →
      Derives full (.level k) s e u
  | binary {k s e t op v f u} : k < BinaryOp.tightest → Derives full (.level k) s e t →
      Reads full (operator? k) t (op, v) → Derives full (.level (k + 1)) v f u →
      Derives full (.level k) s (.binary op e f) u
  | base {s e u} : Derives full .unary s e u → Derives full (.level BinaryOp.tightest) s e u
  | power {s e t v f u} : Derives full .accessed s e t → Reads full (symbol? "**") t v →
      Derives full (.level BinaryOp.tightest) v f u →
      Derives full (.level BinaryOp.tightest) s (.binary .pow e f) u
  | bare {s e u} : Derives full .accessed s e u → Derives full .unary s e u
  | unary {s op v e u} : Reads full unary? s (op, v) → Derives full .unary v e u →
      Derives full .unary s (.unary op e) u
  | delete {s v e u} : Reads full (word? "delete") s v → Derives full .unary v e u →
      Derives full .unary s (.delete e) u
  | await {s v e u} : Reads full (word? "await") s v → Derives full .unary v e u →
      Derives full .unary s (.await e) u
  | primary {s e u} : Derives full .primary s e u → Derives full .accessed s e u
  | member {s e t v n u} : Derives full .accessed s e t → Reads full (symbol? ".") t v →
      Reads full anyName? v (n, u) → Derives full .accessed s (.member e n false) u
  | index {s e t v k w u} : Derives full .accessed s e t → Reads full (symbol? "[") t v →
      Derives full .expression v k w → Reads full (symbol? "]") w u →
      Derives full .accessed s (.index e k false) u
  | call {s e t v as u} : Derives full .accessed s e t → Reads full (symbol? "(") t v →
      Derives full (.items .round) v as u → Derives full .accessed s (.call e as false) u
  | optionalMember {s e t v n u} : Derives full .accessed s e t → Reads full (symbol? "?.") t v →
      Reads full anyName? v (n, u) → Derives full .accessed s (.member e n true) u
  | optionalIndex {s e t q v k w u} : Derives full .accessed s e t → Reads full (symbol? "?.") t q →
      Reads full (symbol? "[") q v → Derives full .expression v k w → Reads full (symbol? "]") w u →
      Derives full .accessed s (.index e k true) u
  | optionalCall {s e t q v as u} : Derives full .accessed s e t → Reads full (symbol? "?.") t q →
      Reads full (symbol? "(") q v → Derives full (.items .round) v as u →
      Derives full .accessed s (.call e as true) u
  | noItem {b s u} : Reads full (symbol? b.closing) s u → Derives full (.items b) s [] u
  | lastItem {b s a t u} : Derives full .item s a t → Reads full (symbol? b.closing) t u →
      Derives full (.items b) s [a] u
  | moreItems {b s a t v as u} : Derives full .item s a t → Reads full (symbol? ",") t v →
      Derives full (.items b) v as u → Derives full (.items b) s (a :: as) u
  | single {s e u} : Derives full .assignment s e u → Derives full .item s (.single e) u
  | spreadItem {s v e u} : Reads full (symbol? "...") s v → Derives full .assignment v e u →
      Derives full .item s (.spread e) u
  | number {s k u} : Reads full number? s (k, u) → Derives full .primary s (.number k) u
  | string {s k u} : Reads full string? s (k, u) → Derives full .primary s (.string k) u
  | constant {s value u} : Reads full constant? s (value, u) →
      Derives full .primary s (.constant value) u
  | name {s n u} : Reads full name? s (n, u) → Derives full .primary s (.name n) u
  | array {s v as u} : Reads full (symbol? "[") s v → Derives full (.items .square) v as u →
      Derives full .primary s (.array as) u
  | object {s v as u} : Reads full (symbol? "\x7b") s v → Derives full .entries v as u →
      Derives full .primary s (.object as) u
  | paren {s v e t u} : Reads full (symbol? "(") s v → Derives full .expression v e t →
      Reads full (symbol? ")") t u → Derives full .primary s (.paren e) u
  | noEntry {s u} : Reads full (symbol? "\x7d") s u → Derives full .entries s [] u
  | lastEntry {s a t u} : Derives full .entry s a t → Reads full (symbol? "\x7d") t u →
      Derives full .entries s [a] u
  | moreEntries {s a t v as u} : Derives full .entry s a t → Reads full (symbol? ",") t v →
      Derives full .entries v as u → Derives full .entries s (a :: as) u
  | named {s k t v e u} : Reads full anyName? s (k, t) → Reads full (symbol? ":") t v →
      Derives full .assignment v e u → Derives full .entry s (.named k e) u
  | stringKey {s k t v e u} : Reads full string? s (k, t) → Reads full (symbol? ":") t v →
      Derives full .assignment v e u → Derives full .entry s (.string k e) u
  | numberKey {s k t v e u} : Reads full number? s (k, t) → Reads full (symbol? ":") t v →
      Derives full .assignment v e u → Derives full .entry s (.number k e) u
  | computed {s q k w t v e u} : Reads full (symbol? "[") s q → Derives full .assignment q k w →
      Reads full (symbol? "]") w t → Reads full (symbol? ":") t v →
      Derives full .assignment v e u → Derives full .entry s (.computed k e) u
  | shorthand {s n u} : Reads full name? s (n, u) → Derives full .entry s (.shorthand n) u
  | spreadEntry {s v e u} : Reads full (symbol? "...") s v → Derives full .assignment v e u →
      Derives full .entry s (.spread e) u

/-- One statement of a text, or nothing. -/
inductive Stated (full : Bool) : Text → Option Tree → Text → Prop where
  | empty {s} : Stated full s none s
  | expression {s e u} : Derives full .expression s e u → Stated full s (some e) u

/-- A whole text is some statements with semicolons between them, perhaps empty ones. -/
inductive Spells (full : Bool) : Text → List (Option Tree) → Prop where
  | last {s first t} : Stated full s first t → At full t [] → Spells full s [first]
  | more {s first t v others} : Stated full s first t → Reads full (symbol? ";") t v →
      Spells full v others → Spells full s (first :: others)

/-! ## What is left -/

section

variable {full : Bool} {s t u : Text}

theorem Token.At.rest (h : At full s t) (hu : Rest t u) : Rest s u :=
  ⟨hu.suffix.trans h.1.suffix, Nat.lt_of_lt_of_le hu.shorter h.1.suffix.length_le⟩

theorem Token.Reads.symbol_rest {w : String} (h : Reads full (symbol? w) s u) (hw : w ≠ "") :
    Rest s u := by
  obtain ⟨t, hat, ht⟩ := h
  exact hat.rest (rest_symbol? hw ht)

theorem Token.Reads.word_rest {w : String} (h : Reads full (word? w) s u) (hw : w ≠ "") :
    Rest s u := by
  obtain ⟨t, hat, ht⟩ := h
  exact hat.rest (rest_symbolNot? hw ht)

theorem Token.reads_pair {find : Text → Option Text} :
    Reads full (fun s => (find s).map ((), ·)) s ((), u) ↔ Reads full find s u := by
  simp [Reads]

/-- `find` takes something of each text in which it finds something. -/
def Token.Takes {α : Type} (find : Text → Option (α × Text)) : Prop :=
  ∀ {s u a}, find s = some (a, u) → Rest s u

theorem Token.Reads.rest {α : Type} {find : Text → Option (α × Text)} {a : α}
    (h : Reads full find s (a, u)) (hfind : Takes find) : Rest s u := by
  obtain ⟨t, hat, ht⟩ := h
  exact hat.rest (hfind ht)

theorem Bracket.closing_ne (b : Bracket) : b.closing ≠ "" := by
  cases b <;> decide

theorem Derives.rest {X : Nonterminal} {a : X.Out} (h : Derives full X s a u) : Rest s u := by
  induction h with
  | alone _ ih | choice _ ih | test _ ih | either _ ih | coalesced _ ih | both _ ih | operand _ ih
  | base _ ih | bare _ ih | primary _ ih | single _ ih => exact ih
  | tighter _ _ ih => exact ih
  | sequence _ hw _ ihl ihr | coalesce _ hw _ ihl ihr | moreCoalesce _ hw _ ihl ihr
  | logicalOr _ hw _ ihl ihr | logicalAnd _ hw _ ihl ihr | power _ hw _ ihl ihr
  | arrow _ hw _ ihl ihr | call _ hw _ ihl ihr | moreItems _ hw _ ihl ihr
  | moreEntries _ hw _ ihl ihr => exact ihl.trans ((hw.symbol_rest (by decide)).trans ihr)
  | binary _ _ hop _ ihl ihr => exact ihl.trans ((hop.rest rest_operator?).trans ihr)
  | assign _ hop _ ihl ihr => exact ihl.trans ((hop.rest rest_assign?).trans ihr)
  | conditional _ hw _ hx _ ihe ihf ihg =>
    exact ihe.trans ((hw.symbol_rest (by decide)).trans
      (ihf.trans ((hx.symbol_rest (by decide)).trans ihg)))
  | param h | name h | shorthand h => exact h.rest rest_name?
  | number h => exact h.rest rest_number?
  | string h => exact h.rest rest_string?
  | constant h => exact h.rest rest_constant?
  | params hw _ ih | spreadItem hw _ ih | spreadEntry hw _ ih | array hw _ ih | object hw _ ih =>
    exact (hw.symbol_rest (by decide)).trans ih
  | delete hw _ ih | await hw _ ih => exact (hw.word_rest (by decide)).trans ih
  | unary hop _ ih => exact (hop.rest rest_unary?).trans ih
  | noName hw | noEntry hw => exact hw.symbol_rest (by decide)
  | noItem hw => exact hw.symbol_rest (Bracket.closing_ne _)
  | lastName hn hw => exact (hn.rest rest_name?).trans (hw.symbol_rest (by decide))
  | moreNames hn hw _ ih =>
    exact (hn.rest rest_name?).trans ((hw.symbol_rest (by decide)).trans ih)
  | member _ hw hn ih | optionalMember _ hw hn ih =>
    exact ih.trans ((hw.symbol_rest (by decide)).trans (hn.rest rest_anyName?))
  | index _ hw _ hx ihe ihk =>
    exact ihe.trans ((hw.symbol_rest (by decide)).trans (ihk.trans (hx.symbol_rest (by decide))))
  | optionalIndex _ hq hw _ hx ihe ihk =>
    exact ihe.trans ((hq.symbol_rest (by decide)).trans ((hw.symbol_rest (by decide)).trans
      (ihk.trans (hx.symbol_rest (by decide)))))
  | optionalCall _ hq hw _ ihe ihr =>
    exact ihe.trans ((hq.symbol_rest (by decide)).trans ((hw.symbol_rest (by decide)).trans ihr))
  | lastItem _ hw ih => exact ih.trans (hw.symbol_rest (Bracket.closing_ne _))
  | lastEntry _ hw ih => exact ih.trans (hw.symbol_rest (by decide))
  | paren hw _ hx ih =>
    exact (hw.symbol_rest (by decide)).trans (ih.trans (hx.symbol_rest (by decide)))
  | named hn hw _ ih => exact (hn.rest rest_anyName?).trans ((hw.symbol_rest (by decide)).trans ih)
  | stringKey hn hw _ ih =>
    exact (hn.rest rest_string?).trans ((hw.symbol_rest (by decide)).trans ih)
  | numberKey hn hw _ ih =>
    exact (hn.rest rest_number?).trans ((hw.symbol_rest (by decide)).trans ih)
  | computed hq _ hx hw _ ihk ihe =>
    exact (hq.symbol_rest (by decide)).trans (ihk.trans ((hx.symbol_rest (by decide)).trans
      ((hw.symbol_rest (by decide)).trans ihe)))

theorem Stated.suffix {found : Option Tree} (h : Stated full s found u) :
    u <:+ s := by
  cases h with
  | empty => exact List.suffix_refl s
  | expression h => exact h.rest.suffix

end

/-! ## Left recursion -/

/-- One more operand of a series, or one more access, joined to what stands before it. -/
inductive Next (full : Bool) : Series → Tree × Text → Tree × Text → Prop where
  | comma {e t v f u} : Reads full (symbol? ",") t v → Derives full .assignment v f u →
      Next full .commas (e, t) (.sequence e f, u)
  | or {e t v f u} : Reads full (symbol? "||") t v → Derives full .logicalAnd v f u →
      Next full (.logical .or) (e, t) (.logical .or e f, u)
  | and {e t v f u} : Reads full (symbol? "&&") t v → Derives full (.level 1) v f u →
      Next full (.logical .and) (e, t) (.logical .and e f, u)
  | coalesce {e t v f u} : Reads full (symbol? "??") t v → Derives full (.level 1) v f u →
      Next full (.logical .coalesce) (e, t) (.logical .coalesce e f, u)
  | operator {k e t op v f u} : k < BinaryOp.tightest → Reads full (operator? k) t (op, v) →
      Derives full (.level (k + 1)) v f u → Next full (.operators k) (e, t) (.binary op e f, u)
  | member {e t v n u} : Reads full (symbol? ".") t v → Reads full anyName? v (n, u) →
      Next full .accesses (e, t) (.member e n false, u)
  | index {e t v k w u} : Reads full (symbol? "[") t v → Derives full .expression v k w →
      Reads full (symbol? "]") w u → Next full .accesses (e, t) (.index e k false, u)
  | call {e t v as u} : Reads full (symbol? "(") t v → Derives full (.items .round) v as u →
      Next full .accesses (e, t) (.call e as false, u)
  | optionalMember {e t v n u} : Reads full (symbol? "?.") t v → Reads full anyName? v (n, u) →
      Next full .accesses (e, t) (.member e n true, u)
  | optionalIndex {e t q v k w u} : Reads full (symbol? "?.") t q → Reads full (symbol? "[") q v →
      Derives full .expression v k w → Reads full (symbol? "]") w u →
      Next full .accesses (e, t) (.index e k true, u)
  | optionalCall {e t q v as u} : Reads full (symbol? "?.") t q → Reads full (symbol? "(") q v →
      Derives full (.items .round) v as u → Next full .accesses (e, t) (.call e as true, u)

theorem Next.rest {full : Bool} {series : Series} {x y : Tree × Text} (h : Next full series x y) :
    Rest x.2 y.2 := by
  cases h with
  | comma hw hf | or hw hf | and hw hf | coalesce hw hf | call hw hf =>
    exact (hw.symbol_rest (by decide)).trans hf.rest
  | operator _ hop hf => exact (hop.rest rest_operator?).trans hf.rest
  | member hw hn | optionalMember hw hn =>
    exact (hw.symbol_rest (by decide)).trans (hn.rest rest_anyName?)
  | index hw hk hx =>
    exact (hw.symbol_rest (by decide)).trans (hk.rest.trans (hx.symbol_rest (by decide)))
  | optionalIndex hq hw hk hx =>
    exact (hq.symbol_rest (by decide)).trans ((hw.symbol_rest (by decide)).trans
      (hk.rest.trans (hx.symbol_rest (by decide))))
  | optionalCall hq hw has =>
    exact (hq.symbol_rest (by decide)).trans ((hw.symbol_rest (by decide)).trans has.rest)

/-- Any number of further operands. -/
abbrev Chain (full : Bool) (series : Series) : Tree × Text → Tree × Text → Prop :=
  Relation.ReflTransGen (Next full series)

/-- What a derivation from a left-recursive nonterminal says of its first operand; of the other
nonterminals nothing is said. -/
def Splits (full : Bool) : (X : Nonterminal) → Text → X.Out → Text → Prop
  | .expression, s, a, u =>
    ∃ e t, Derives full .assignment s e t ∧ Chain full .commas (e, t) (a, u)
  | .logicalOr, s, a, u =>
    ∃ e t, Derives full .logicalAnd s e t ∧ Chain full (.logical .or) (e, t) (a, u)
  | .logicalAnd, s, a, u =>
    ∃ e t, Derives full (.level 1) s e t ∧ Chain full (.logical .and) (e, t) (a, u)
  | .coalesce, s, a, u =>
    ∃ e t x, Derives full (.level 1) s e t ∧ Next full (.logical .coalesce) (e, t) x ∧
      Chain full (.logical .coalesce) x (a, u)
  | .level k, s, a, u => k < BinaryOp.tightest →
    ∃ e t, Derives full (.level (k + 1)) s e t ∧ Chain full (.operators k) (e, t) (a, u)
  | .accessed, s, a, u =>
    ∃ e t, Derives full .primary s e t ∧ Chain full .accesses (e, t) (a, u)
  | _, _, _, _ => True

section

variable {full : Bool} {s u : Text}

theorem Derives.splits {X : Nonterminal} {a : X.Out} (h : Derives full X s a u) :
    Splits full X s a u := by
  induction h with
  | alone h | both h | operand h | primary h => exact ⟨_, _, h, .refl⟩
  | tighter _ h => exact fun _ => ⟨_, _, h, .refl⟩
  | sequence _ hw hf ih =>
    obtain ⟨e, t, he, hchain⟩ := ih
    exact ⟨e, t, he, hchain.tail (.comma hw hf)⟩
  | logicalOr _ hw hf ih =>
    obtain ⟨e, t, he, hchain⟩ := ih
    exact ⟨e, t, he, hchain.tail (.or hw hf)⟩
  | logicalAnd _ hw hf ih =>
    obtain ⟨e, t, he, hchain⟩ := ih
    exact ⟨e, t, he, hchain.tail (.and hw hf)⟩
  | coalesce he hw hf => exact ⟨_, _, _, he, .coalesce hw hf, .refl⟩
  | moreCoalesce _ hw hf ih =>
    obtain ⟨e, t, x, he, hx, hchain⟩ := ih
    exact ⟨e, t, x, he, hx, hchain.tail (.coalesce hw hf)⟩
  | binary hk _ hop hf ih =>
    intro _
    obtain ⟨e, t, he, hchain⟩ := ih hk
    exact ⟨e, t, he, hchain.tail (.operator hk hop hf)⟩
  | member _ hw hn ih =>
    obtain ⟨e, t, he, hchain⟩ := ih
    exact ⟨e, t, he, hchain.tail (.member hw hn)⟩
  | index _ hw hk hx ih =>
    obtain ⟨e, t, he, hchain⟩ := ih
    exact ⟨e, t, he, hchain.tail (.index hw hk hx)⟩
  | call _ hw has ih =>
    obtain ⟨e, t, he, hchain⟩ := ih
    exact ⟨e, t, he, hchain.tail (.call hw has)⟩
  | optionalMember _ hw hn ih =>
    obtain ⟨e, t, he, hchain⟩ := ih
    exact ⟨e, t, he, hchain.tail (.optionalMember hw hn)⟩
  | optionalIndex _ hq hw hk hx ih =>
    obtain ⟨e, t, he, hchain⟩ := ih
    exact ⟨e, t, he, hchain.tail (.optionalIndex hq hw hk hx)⟩
  | optionalCall _ hq hw has ih =>
    obtain ⟨e, t, he, hchain⟩ := ih
    exact ⟨e, t, he, hchain.tail (.optionalCall hq hw has)⟩
  | base | power => exact fun h => absurd h (Nat.lt_irrefl _)
  | _ => exact trivial

/-- A property of operands that further ones of a series keep holds after any number of them. -/
theorem Chain.preserves {series : Series} {P : Tree → Text → Prop} {e a : Tree} {t u : Text}
    (h : Chain full series (e, t) (a, u)) (hstart : P e t)
    (hstep : ∀ {e t f v}, P e t → Next full series (e, t) (f, v) → P f v) : P a u := by
  suffices ∀ y, Chain full series (e, t) y → P y.1 y.2 from this (a, u) h
  intro y hy
  induction hy with
  | refl => exact hstart
  | tail _ hnext ih => exact hstep ih hnext

theorem derives_expression {a : Tree} : Derives full .expression s a u ↔
    ∃ e t, Derives full .assignment s e t ∧ Chain full .commas (e, t) (a, u) := by
  refine ⟨Derives.splits, fun ⟨e, t, he, hchain⟩ => ?_⟩
  refine hchain.preserves he.alone ?_
  intro e t f v he hnext
  cases hnext with
  | comma hw hf => exact he.sequence hw hf

theorem derives_logicalOr {a : Tree} : Derives full .logicalOr s a u ↔
    ∃ e t, Derives full .logicalAnd s e t ∧ Chain full (.logical .or) (e, t) (a, u) := by
  refine ⟨Derives.splits, fun ⟨e, t, he, hchain⟩ => ?_⟩
  refine hchain.preserves he.both ?_
  intro e t f v he hnext
  cases hnext with
  | or hw hf => exact he.logicalOr hw hf

theorem derives_logicalAnd {a : Tree} : Derives full .logicalAnd s a u ↔
    ∃ e t, Derives full (.level 1) s e t ∧ Chain full (.logical .and) (e, t) (a, u) := by
  refine ⟨Derives.splits, fun ⟨e, t, he, hchain⟩ => ?_⟩
  refine hchain.preserves he.operand ?_
  intro e t f v he hnext
  cases hnext with
  | and hw hf => exact he.logicalAnd hw hf

theorem derives_coalesce {a : Tree} : Derives full .coalesce s a u ↔
    ∃ e t x, Derives full (.level 1) s e t ∧ Next full (.logical .coalesce) (e, t) x ∧
      Chain full (.logical .coalesce) x (a, u) := by
  refine ⟨Derives.splits, fun ⟨e, t, x, he, hnext, hchain⟩ => ?_⟩
  cases hnext with
  | coalesce hw hf =>
    refine hchain.preserves (he.coalesce hw hf) ?_
    intro e t f v he hnext
    cases hnext with
    | coalesce hw hf => exact he.moreCoalesce hw hf

theorem derives_level {k : Nat} (hk : k < BinaryOp.tightest) {a : Tree} :
    Derives full (.level k) s a u ↔
      ∃ e t, Derives full (.level (k + 1)) s e t ∧ Chain full (.operators k) (e, t) (a, u) := by
  refine ⟨fun h => h.splits hk, fun ⟨e, t, he, hchain⟩ => ?_⟩
  refine hchain.preserves (he.tighter hk) ?_
  intro e t f v he hnext
  cases hnext with
  | operator _ hop hf => exact he.binary hk hop hf

/-- What is derived at a level is derived at each looser one. -/
theorem Derives.loosen {j k : Nat} {e : Tree} (h : Derives full (.level k) s e u) (hjk : j ≤ k)
    (hk : k ≤ BinaryOp.tightest) : Derives full (.level j) s e u := by
  induction hjk with
  | refl => exact h
  | step _ ih => exact ih (.tighter (by omega) h) (by omega)

theorem Derives.of_operand {e : Tree} (h : Derives full (.level 1) s e u) :
    Derives full .assignment s e u :=
  .choice (.test (.either (.both (.operand h))))

theorem derives_accessed {a : Tree} : Derives full .accessed s a u ↔
    ∃ e t, Derives full .primary s e t ∧ Chain full .accesses (e, t) (a, u) := by
  refine ⟨Derives.splits, fun ⟨e, t, he, hchain⟩ => ?_⟩
  refine hchain.preserves he.primary ?_
  intro e t f v he hnext
  cases hnext with
  | member hw hn => exact he.member hw hn
  | index hw hk hx => exact he.index hw hk hx
  | call hw has => exact he.call hw has
  | optionalMember hw hn => exact he.optionalMember hw hn
  | optionalIndex hq hw hk hx => exact he.optionalIndex hq hw hk hx
  | optionalCall hq hw has => exact he.optionalCall hq hw has

/-- An operand with at least one operator before it. -/
inductive Signed (full : Bool) : Text → Tree → Text → Prop where
  | unary {s op v e u} : Reads full unary? s (op, v) → Derives full .unary v e u →
      Signed full s (.unary op e) u
  | delete {s v e u} : Reads full (word? "delete") s v → Derives full .unary v e u →
      Signed full s (.delete e) u
  | await {s v e u} : Reads full (word? "await") s v → Derives full .unary v e u →
      Signed full s (.await e) u

theorem derives_unary {a : Tree} : Derives full .unary s a u ↔
    Derives full .accessed s a u ∨ Signed full s a u := by
  refine ⟨fun h => ?_, fun h => ?_⟩
  · cases h with
    | bare h => exact Or.inl h
    | unary hop h => exact Or.inr (.unary hop h)
    | delete hw h => exact Or.inr (.delete hw h)
    | await hw h => exact Or.inr (.await hw h)
  · rcases h with h | ⟨hw, h⟩ | ⟨hw, h⟩ | ⟨hw, h⟩
    · exact h.bare
    · exact h.unary hw
    · exact h.delete hw
    · exact h.await hw

end

/-! ## Lists -/

/-- Elements up to a closing symbol with commas between them and perhaps one more after the last;
`Others` says what can follow a comma. -/
def Listed {α : Type} (full : Bool) (closing : String) (Element : Text → α → Text → Prop)
    (Others : Text → List α → Text → Prop) (s : Text) (as : List α) (u : Text) : Prop :=
  (as = [] ∧ Reads full (symbol? closing) s u) ∨
  ∃ a t, Element s a t ∧ ((as = [a] ∧ Reads full (symbol? closing) t u) ∨
    ∃ v bs, Reads full (symbol? ",") t v ∧ Others v bs u ∧ as = a :: bs)

section

variable {full : Bool} {s u : Text}

theorem derives_names {ns : List Text} : Derives full .names s ns u ↔
    Listed full ")" (fun s n t => Reads full name? s (n, t)) (Derives full .names) s ns u := by
  refine ⟨fun h => ?_, ?_⟩
  · cases h with
    | noName hw => exact Or.inl ⟨rfl, hw⟩
    | lastName hn hw => exact Or.inr ⟨_, _, hn, Or.inl ⟨rfl, hw⟩⟩
    | moreNames hn hw hns => exact Or.inr ⟨_, _, hn, Or.inr ⟨_, _, hw, hns, rfl⟩⟩
  · rintro (⟨rfl, hw⟩ | ⟨n, t, hn, ⟨rfl, hw⟩ | ⟨v, ns, hw, hns, rfl⟩⟩)
    · exact .noName hw
    · exact .lastName hn hw
    · exact .moreNames hn hw hns

theorem derives_items {b : Bracket} {as : List TreeItem} : Derives full (.items b) s as u ↔
    Listed full b.closing (Derives full .item) (Derives full (.items b)) s as u := by
  refine ⟨fun h => ?_, ?_⟩
  · cases h with
    | noItem hw => exact Or.inl ⟨rfl, hw⟩
    | lastItem ha hw => exact Or.inr ⟨_, _, ha, Or.inl ⟨rfl, hw⟩⟩
    | moreItems ha hw has => exact Or.inr ⟨_, _, ha, Or.inr ⟨_, _, hw, has, rfl⟩⟩
  · rintro (⟨rfl, hw⟩ | ⟨a, t, ha, ⟨rfl, hw⟩ | ⟨v, as, hw, has, rfl⟩⟩)
    · exact .noItem hw
    · exact .lastItem ha hw
    · exact .moreItems ha hw has

theorem derives_entries {as : List TreeEntry} : Derives full .entries s as u ↔
    Listed full "\x7d" (Derives full .entry) (Derives full .entries) s as u := by
  refine ⟨fun h => ?_, ?_⟩
  · cases h with
    | noEntry hw => exact Or.inl ⟨rfl, hw⟩
    | lastEntry ha hw => exact Or.inr ⟨_, _, ha, Or.inl ⟨rfl, hw⟩⟩
    | moreEntries ha hw has => exact Or.inr ⟨_, _, ha, Or.inr ⟨_, _, hw, has, rfl⟩⟩
  · rintro (⟨rfl, hw⟩ | ⟨a, t, ha, ⟨rfl, hw⟩ | ⟨v, as, hw, has, rfl⟩⟩)
    · exact .noEntry hw
    · exact .lastEntry ha hw
    · exact .moreEntries ha hw has

/-- What is left after an element and a comma matters for the other elements. -/
theorem Listed.congr {α : Type} {closing : String} {E E' : Text → α → Text → Prop}
    {O O' : Text → List α → Text → Prop} {as : List α} (helement : ∀ a t, E s a t ↔ E' s a t)
    (hrest : ∀ a t, E' s a t → Rest s t) (hothers : ∀ v bs, Rest s v → (O v bs u ↔ O' v bs u)) :
    Listed full closing E O s as u ↔ Listed full closing E' O' s as u := by
  refine or_congr_right (exists_congr fun a => exists_congr fun t => ?_)
  rw [helement a t]
  refine and_congr_right fun ha => or_congr_right (exists_congr fun v => exists_congr fun bs => ?_)
  refine and_congr_right fun hw => and_congr_left' ?_
  exact hothers v bs ((hrest a t ha).trans (hw.symbol_rest (by decide)))

end

end GuardedText
