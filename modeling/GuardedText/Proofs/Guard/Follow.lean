import GuardedText.Proofs.Guard.Lookahead

/-
  Derivations followed from token to token. If each token of a text is found again at a
  corresponding place of another text, and what follows it there corresponds to what follows it here
  (`Token.Tracks`), then what is derived from the one text is derived from the other
  (`Derives.follow`). The operators between operands are apart from the other tokens: a slash is
  a division sign only if an operand comes after it, so its case may use that one does.
-/

namespace GuardedText

open Token

namespace Token

/-- The symbols of the grammar. -/
def symbols : List String :=
  [",", "=>", "(", ")", "?", ":", "??", "||", "&&", "**", ".", "[", "]", "?.", "...", "\x7b", "\x7d",
    ";"]

/-- The kinds of tokens, but for the operators between operands. -/
inductive Kind : {α : Type} → (Text → Option (α × Text)) → Prop where
  | symbol {w : String} : w ∈ symbols → Kind fun s => (symbol? w s).map ((), ·)
  | word {w : String} : w ∈ ["delete", "await"] → Kind fun s => (word? w s).map ((), ·)
  | anyName : Kind anyName?
  | name : Kind name?
  | number : Kind number?
  | string : Kind string?
  | constant : Kind constant?
  | unary : Kind unary?
  | assign : Kind assign?

/-- The next token starts neither with a slash nor with an asterisk. -/
def Opens (full : Bool) (s : Text) : Prop :=
  ∃ t c r, At full s t ∧ t = c :: r ∧ oneOf "/*" c = false

/-- Places of one text that correspond to places of another: each token found after a place is found
after the place that corresponds to it, and so are the places after the tokens. -/
structure Tracks (full full' : Bool) (R : Text → Text → Prop) : Prop where
  token : ∀ {α : Type} {find : Text → Option (α × Text)} {a : α} {s s' u : Text}, Kind find →
    Reads full find s (a, u) → R s s' → ∃ u', Reads full' find s' (a, u') ∧ R u u'
  operator : ∀ {k : Nat} {op : BinaryOp} {s s' u : Text}, Reads full (operator? k) s (op, u) →
    Opens full u → R s s' → ∃ u', Reads full' (operator? k) s' (op, u') ∧ R u u'
  ended : ∀ {s s' : Text}, At full s [] → R s s' → At full' s' []

section

variable {full full' : Bool} {R : Text → Text → Prop} (F : Tracks full full' R) {s s' u : Text}
include F

theorem Tracks.symbol {w : String} (hw : w ∈ symbols) (h : Reads full (symbol? w) s u)
    (hs : R s s') : ∃ u', Reads full' (symbol? w) s' u' ∧ R u u' := by
  obtain ⟨u', hread, hu⟩ := F.token (.symbol hw) (reads_pair.2 h) hs
  exact ⟨u', reads_pair.1 hread, hu⟩

theorem Tracks.word {w : String} (hw : w ∈ ["delete", "await"]) (h : Reads full (word? w) s u)
    (hs : R s s') : ∃ u', Reads full' (word? w) s' u' ∧ R u u' := by
  obtain ⟨u', hread, hu⟩ := F.token (.word hw) (reads_pair.2 h) hs
  exact ⟨u', reads_pair.1 hread, hu⟩

end

/-! ## The first token of a derivation -/

section

variable {full : Bool} {s u : Text}

theorem Reads.opens_symbol {w : String} (h : Reads full (symbol? w) s u)
    (hw : (Text.ofString w).head?.any fun c => !oneOf "/*" c) : Opens full s := by
  obtain ⟨t, hat, ht⟩ := h
  rw [symbol?_eq_some] at ht
  cases hcs : Text.ofString w with
  | nil => simp [hcs] at hw
  | cons c cs =>
    rw [hcs, List.cons_append] at ht
    exact ⟨t, c, cs ++ u, hat, ht, by simpa [hcs] using hw⟩

theorem Reads.opens_lead {α : Type} {find : Text → Option α} {a : α} (h : Reads full find s a)
    {l : Lead} (hl : l ≠ .none) (hfind : ∀ {t}, find t = some a → leadOf t = l) :
    Opens full s := by
  obtain ⟨t, hat, ht⟩ := h
  have hlead : leadOf t ≠ .none := hfind ht ▸ hl
  cases t with
  | nil => exact absurd rfl hlead
  | cons c r =>
    refine ⟨_, c, r, hat, rfl, ?_⟩
    rw [Bool.eq_false_iff]
    intro hc
    have := of_oneOf hc (oneOf barred) (by decide)
    rw [head_of_lead hlead] at this
    cases this

end

end Token

section

variable {full full' : Bool} {s u : Text}

/-- No derivation starts with a division sign or an asterisk. -/
theorem Derives.opens {X : Nonterminal} {a : X.Out} (h : Derives full X s a u) :
    Opens full s := by
  induction h with
  | alone _ ih | choice _ ih | test _ ih | either _ ih | coalesced _ ih | both _ ih | operand _ ih
  | base _ ih | bare _ ih | primary _ ih | single _ ih | lastItem _ _ ih | lastEntry _ _ ih => exact ih
  | tighter _ _ ih => exact ih
  | sequence _ _ _ ih | coalesce _ _ _ ih | moreCoalesce _ _ _ ih | logicalOr _ _ _ ih
  | logicalAnd _ _ _ ih | arrow _ _ _ ih | power _ _ _ ih | assign _ _ _ ih | call _ _ _ ih
  | member _ _ _ ih | optionalMember _ _ _ ih | moreItems _ _ _ ih | moreEntries _ _ _ ih => exact ih
  | binary _ _ _ _ ih => exact ih
  | conditional _ _ _ _ _ ih => exact ih
  | index _ _ _ _ ih | optionalCall _ _ _ _ ih => exact ih
  | optionalIndex _ _ _ _ _ ih => exact ih
  | unary hop => exact hop.opens_lead (by decide) leadOf_unary?
  | delete hw | await hw =>
    exact hw.opens_lead (leadOfWord_ne (by decide)) (leadOf_word? (by decide) (by decide))
  | param hn | lastName hn | moreNames hn | name hn | shorthand hn =>
    exact hn.opens_lead (by decide) leadOf_name?
  | params hw | noName hw | spreadItem hw | array hw | object hw | paren hw | noEntry hw
  | computed hw | spreadEntry hw => exact hw.opens_symbol (by decide)
  | @noItem b _ _ hw => exact hw.opens_symbol (by cases b <;> decide)
  | number hk | numberKey hk => exact hk.opens_lead (by decide) leadOf_number?
  | string hk | stringKey hk => exact hk.opens_lead (by decide) leadOf_string?
  | constant hk => exact hk.opens_lead (by decide) leadOf_constant?
  | named hk => exact hk.opens_lead (leadOfWord_ne (by decide)) leadOf_anyName?

variable {R : Text → Text → Prop} (F : Tracks full full' R) {s' : Text}
include F

/-! ## The tokens one after another -/

theorem Derives.follow {X : Nonterminal} {a : X.Out} (h : Derives full X s a u) (hs : R s s') :
    ∃ u', Derives full' X s' a u' ∧ R u u' := by
  induction h generalizing s' with
  | alone _ ih => exact (ih hs).imp fun _ => .imp_left .alone
  | choice _ ih => exact (ih hs).imp fun _ => .imp_left .choice
  | test _ ih => exact (ih hs).imp fun _ => .imp_left .test
  | either _ ih => exact (ih hs).imp fun _ => .imp_left .either
  | coalesced _ ih => exact (ih hs).imp fun _ => .imp_left .coalesced
  | both _ ih => exact (ih hs).imp fun _ => .imp_left .both
  | operand _ ih => exact (ih hs).imp fun _ => .imp_left .operand
  | tighter hk _ ih => exact (ih hs).imp fun _ => .imp_left (.tighter hk)
  | base _ ih => exact (ih hs).imp fun _ => .imp_left .base
  | bare _ ih => exact (ih hs).imp fun _ => .imp_left .bare
  | primary _ ih => exact (ih hs).imp fun _ => .imp_left .primary
  | single _ ih => exact (ih hs).imp fun _ => .imp_left .single
  | sequence _ hw _ ihe ihf =>
    obtain ⟨t', he, ht⟩ := ihe hs
    obtain ⟨v', hw', hv⟩ := F.symbol (by decide) hw ht
    exact (ihf hv).imp fun _ => .imp_left (.sequence he hw')
  | arrow _ hw _ ihn ihf =>
    obtain ⟨t', hns, ht⟩ := ihn hs
    obtain ⟨v', hw', hv⟩ := F.symbol (by decide) hw ht
    exact (ihf hv).imp fun _ => .imp_left (.arrow hns hw')
  | assign _ hop _ ihe ihf =>
    obtain ⟨t', he, ht⟩ := ihe hs
    obtain ⟨v', hop', hv⟩ := F.token .assign hop ht
    exact (ihf hv).imp fun _ => .imp_left (.assign he hop')
  | param hn => exact (F.token .name hn hs).imp fun _ => .imp_left .param
  | params hw _ ih =>
    obtain ⟨v', hw', hv⟩ := F.symbol (by decide) hw hs
    exact (ih hv).imp fun _ => .imp_left (.params hw')
  | noName hw => exact (F.symbol (by decide) hw hs).imp fun _ => .imp_left .noName
  | lastName hn hw =>
    obtain ⟨t', hn', ht⟩ := F.token .name hn hs
    exact (F.symbol (by decide) hw ht).imp fun _ => .imp_left (.lastName hn')
  | moreNames hn hw _ ih =>
    obtain ⟨t', hn', ht⟩ := F.token .name hn hs
    obtain ⟨v', hw', hv⟩ := F.symbol (by decide) hw ht
    exact (ih hv).imp fun _ => .imp_left (.moreNames hn' hw')
  | conditional _ hw _ hx _ ihe ihf ihg =>
    obtain ⟨t', he, ht⟩ := ihe hs
    obtain ⟨v', hw', hv⟩ := F.symbol (by decide) hw ht
    obtain ⟨w', hf, hw⟩ := ihf hv
    obtain ⟨x', hx', hx⟩ := F.symbol (by decide) hx hw
    exact (ihg hx).imp fun _ => .imp_left (.conditional he hw' hf hx')
  | coalesce _ hw _ ihe ihf =>
    obtain ⟨t', he, ht⟩ := ihe hs
    obtain ⟨v', hw', hv⟩ := F.symbol (by decide) hw ht
    exact (ihf hv).imp fun _ => .imp_left (.coalesce he hw')
  | moreCoalesce _ hw _ ihe ihf =>
    obtain ⟨t', he, ht⟩ := ihe hs
    obtain ⟨v', hw', hv⟩ := F.symbol (by decide) hw ht
    exact (ihf hv).imp fun _ => .imp_left (.moreCoalesce he hw')
  | logicalOr _ hw _ ihe ihf =>
    obtain ⟨t', he, ht⟩ := ihe hs
    obtain ⟨v', hw', hv⟩ := F.symbol (by decide) hw ht
    exact (ihf hv).imp fun _ => .imp_left (.logicalOr he hw')
  | logicalAnd _ hw _ ihe ihf =>
    obtain ⟨t', he, ht⟩ := ihe hs
    obtain ⟨v', hw', hv⟩ := F.symbol (by decide) hw ht
    exact (ihf hv).imp fun _ => .imp_left (.logicalAnd he hw')
  | binary hk _ hop hf ihe ihf =>
    obtain ⟨t', he, ht⟩ := ihe hs
    obtain ⟨v', hop', hv⟩ := F.operator hop hf.opens ht
    exact (ihf hv).imp fun _ => .imp_left (.binary hk he hop')
  | power _ hw _ ihe ihf =>
    obtain ⟨t', he, ht⟩ := ihe hs
    obtain ⟨v', hw', hv⟩ := F.symbol (by decide) hw ht
    exact (ihf hv).imp fun _ => .imp_left (.power he hw')
  | unary hop _ ih =>
    obtain ⟨v', hop', hv⟩ := F.token .unary hop hs
    exact (ih hv).imp fun _ => .imp_left (.unary hop')
  | delete hw _ ih =>
    obtain ⟨v', hw', hv⟩ := F.word (by decide) hw hs
    exact (ih hv).imp fun _ => .imp_left (.delete hw')
  | await hw _ ih =>
    obtain ⟨v', hw', hv⟩ := F.word (by decide) hw hs
    exact (ih hv).imp fun _ => .imp_left (.await hw')
  | member _ hw hn ihe =>
    obtain ⟨t', he, ht⟩ := ihe hs
    obtain ⟨v', hw', hv⟩ := F.symbol (by decide) hw ht
    exact (F.token .anyName hn hv).imp fun _ => .imp_left (.member he hw')
  | index _ hw _ hx ihe ihk =>
    obtain ⟨t', he, ht⟩ := ihe hs
    obtain ⟨v', hw', hv⟩ := F.symbol (by decide) hw ht
    obtain ⟨w', hk, hw⟩ := ihk hv
    exact (F.symbol (by decide) hx hw).imp fun _ => .imp_left (.index he hw' hk)
  | call _ hw _ ihe ihf =>
    obtain ⟨t', he, ht⟩ := ihe hs
    obtain ⟨v', hw', hv⟩ := F.symbol (by decide) hw ht
    exact (ihf hv).imp fun _ => .imp_left (.call he hw')
  | optionalMember _ hw hn ihe =>
    obtain ⟨t', he, ht⟩ := ihe hs
    obtain ⟨v', hw', hv⟩ := F.symbol (by decide) hw ht
    exact (F.token .anyName hn hv).imp fun _ => .imp_left (.optionalMember he hw')
  | optionalIndex _ hq hw _ hx ihe ihk =>
    obtain ⟨t', he, ht⟩ := ihe hs
    obtain ⟨q', hq', hq⟩ := F.symbol (by decide) hq ht
    obtain ⟨v', hw', hv⟩ := F.symbol (by decide) hw hq
    obtain ⟨w', hk, hw⟩ := ihk hv
    exact (F.symbol (by decide) hx hw).imp fun _ => .imp_left (.optionalIndex he hq' hw' hk)
  | optionalCall _ hq hw _ ihe ihf =>
    obtain ⟨t', he, ht⟩ := ihe hs
    obtain ⟨q', hq', hq⟩ := F.symbol (by decide) hq ht
    obtain ⟨v', hw', hv⟩ := F.symbol (by decide) hw hq
    exact (ihf hv).imp fun _ => .imp_left (.optionalCall he hq' hw')
  | @noItem b _ _ hw =>
    exact (F.symbol (by cases b <;> decide) hw hs).imp fun _ => .imp_left .noItem
  | @lastItem b _ _ _ _ _ hw ih =>
    obtain ⟨t', ha, ht⟩ := ih hs
    exact (F.symbol (by cases b <;> decide) hw ht).imp fun _ => .imp_left (.lastItem ha)
  | moreItems _ hw _ ihi ihs =>
    obtain ⟨t', ha, ht⟩ := ihi hs
    obtain ⟨v', hw', hv⟩ := F.symbol (by decide) hw ht
    exact (ihs hv).imp fun _ => .imp_left (.moreItems ha hw')
  | spreadItem hw _ ih =>
    obtain ⟨v', hw', hv⟩ := F.symbol (by decide) hw hs
    exact (ih hv).imp fun _ => .imp_left (.spreadItem hw')
  | number hk => exact (F.token .number hk hs).imp fun _ => .imp_left .number
  | string hk => exact (F.token .string hk hs).imp fun _ => .imp_left .string
  | constant hk => exact (F.token .constant hk hs).imp fun _ => .imp_left .constant
  | name hn => exact (F.token .name hn hs).imp fun _ => .imp_left .name
  | array hw _ ih =>
    obtain ⟨v', hw', hv⟩ := F.symbol (by decide) hw hs
    exact (ih hv).imp fun _ => .imp_left (.array hw')
  | object hw _ ih =>
    obtain ⟨v', hw', hv⟩ := F.symbol (by decide) hw hs
    exact (ih hv).imp fun _ => .imp_left (.object hw')
  | paren hw _ hx ih =>
    obtain ⟨v', hw', hv⟩ := F.symbol (by decide) hw hs
    obtain ⟨t', he, ht⟩ := ih hv
    exact (F.symbol (by decide) hx ht).imp fun _ => .imp_left (.paren hw' he)
  | noEntry hw => exact (F.symbol (by decide) hw hs).imp fun _ => .imp_left .noEntry
  | lastEntry _ hw ih =>
    obtain ⟨t', ha, ht⟩ := ih hs
    exact (F.symbol (by decide) hw ht).imp fun _ => .imp_left (.lastEntry ha)
  | moreEntries _ hw _ ihi ihs =>
    obtain ⟨t', ha, ht⟩ := ihi hs
    obtain ⟨v', hw', hv⟩ := F.symbol (by decide) hw ht
    exact (ihs hv).imp fun _ => .imp_left (.moreEntries ha hw')
  | named hk hw _ ih =>
    obtain ⟨t', hk', ht⟩ := F.token .anyName hk hs
    obtain ⟨v', hw', hv⟩ := F.symbol (by decide) hw ht
    exact (ih hv).imp fun _ => .imp_left (.named hk' hw')
  | stringKey hk hw _ ih =>
    obtain ⟨t', hk', ht⟩ := F.token .string hk hs
    obtain ⟨v', hw', hv⟩ := F.symbol (by decide) hw ht
    exact (ih hv).imp fun _ => .imp_left (.stringKey hk' hw')
  | numberKey hk hw _ ih =>
    obtain ⟨t', hk', ht⟩ := F.token .number hk hs
    obtain ⟨v', hw', hv⟩ := F.symbol (by decide) hw ht
    exact (ih hv).imp fun _ => .imp_left (.numberKey hk' hw')
  | computed hq _ hx hw _ ihk ihe =>
    obtain ⟨q', hq', hq⟩ := F.symbol (by decide) hq hs
    obtain ⟨w', hk, hk'⟩ := ihk hq
    obtain ⟨t', hx', ht⟩ := F.symbol (by decide) hx hk'
    obtain ⟨v', hw', hv⟩ := F.symbol (by decide) hw ht
    exact (ihe hv).imp fun _ => .imp_left (.computed hq' hk hx' hw')
  | shorthand hn => exact (F.token .name hn hs).imp fun _ => .imp_left .shorthand
  | spreadEntry hw _ ih =>
    obtain ⟨v', hw', hv⟩ := F.symbol (by decide) hw hs
    exact (ih hv).imp fun _ => .imp_left (.spreadEntry hw')

theorem Stated.follow {found : Option Tree} (h : Stated full s found u) (hs : R s s') :
    ∃ u', Stated full' s' found u' ∧ R u u' := by
  cases h with
  | empty => exact ⟨s', .empty, hs⟩
  | expression h => exact (h.follow F hs).imp fun _ => .imp_left .expression

theorem Spells.follow {found : List (Option Tree)} (h : Spells full s found) (hs : R s s') :
    Spells full' s' found := by
  induction h generalizing s' with
  | last hfirst hend =>
    obtain ⟨t', hfirst', ht⟩ := hfirst.follow F hs
    exact .last hfirst' (F.ended hend ht)
  | more hfirst hw _ ih =>
    obtain ⟨t', hfirst', ht⟩ := hfirst.follow F hs
    obtain ⟨v', hw', hv⟩ := F.symbol (by decide) hw ht
    exact .more hfirst' hw' (ih hv)

end

end GuardedText
