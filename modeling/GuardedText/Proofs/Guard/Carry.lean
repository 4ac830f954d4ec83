import GuardedText.Proofs.Guard.Cut

/-
  Derivations in other texts. If the tokens of a derivation are found at corresponding places of
  another text, that text has the same derivation (`Derives.carry`). So an expression has the same
  derivations with other white space and comments before it (`Derives.of_skip_eq`), and with or
  without white space, comments or a semicolon behind it (`derives_append_iff`).
-/

namespace GuardedText

open Token

/-- Places of one text that correspond to places of another. An expression starts at places related
by `S`, and goes on at places related by `R`. -/
structure Token.Carry (t : Text) (S R : Text → Text → Prop) : Prop where
  start : ∀ {s s'}, R s s' → S s s'
  /-- What corresponds to a place tells what corresponds to the places before it. -/
  back : ∀ {s u u'}, Rest s u → R u u' → ∃ s', R s s'
  /-- A token that starts an expression. -/
  first : ∀ {α : Type} {find : Text → Option (α × Text)} {a : α} {s s' u u'}, Cut t find →
    Reads true find s (a, u) → S s s' → R u u' → Reads false find s' (a, u')
  /-- A token after another one. -/
  next : ∀ {α : Type} {find : Text → Option (α × Text)} {a : α} {s s' u u'}, Cut t find →
    Reads false find s (a, u) → R s s' → R u u' → Reads false find s' (a, u')

namespace Token

variable {t : Text} {S R : Text → Text → Prop} {s s' u u' : Text}

theorem Carry.symbol (C : Carry t S R) {w : String} (hw : w ≠ "")
    (h : Reads false (symbol? w) s u) (hs : R s s') (hu : R u u') : Reads false (symbol? w) s' u' :=
  reads_pair.1 (C.next (cut_symbol? hw) (reads_pair.2 h) hs hu)

/-- A token found before a place that corresponds to another one. -/
theorem Carry.nextBack (C : Carry t S R) {α : Type} {find : Text → Option (α × Text)} {a : α}
    (hfind : Cut t find) (h : Reads false find s (a, u)) (hu : R u u') :
    ∃ s', R s s' ∧ Reads false find s' (a, u') := by
  obtain ⟨s', hs⟩ := C.back (h.rest hfind.rest) hu
  exact ⟨s', hs, C.next hfind h hs hu⟩

/-- A symbol found before a place that corresponds to another one. -/
theorem Carry.symbolBack (C : Carry t S R) {w : String} (hw : w ≠ "")
    (h : Reads false (symbol? w) s u) (hu : R u u') :
    ∃ s', R s s' ∧ Reads false (symbol? w) s' u' := by
  obtain ⟨s', hs⟩ := C.back (h.symbol_rest hw) hu
  exact ⟨s', hs, C.symbol hw h hs hu⟩

/-- A part of an expression that ends at a place that corresponds to another one. -/
theorem Carry.partBack (C : Carry t S R) {X : Nonterminal} {a : X.Out} (h : Derives false X s a u)
    (ih : ∀ {s' u'}, S s s' → R u u' → Derives false X s' a u') (hu : R u u') :
    ∃ s', R s s' ∧ Derives false X s' a u' := by
  obtain ⟨s', hs⟩ := C.back h.rest hu
  exact ⟨s', hs, ih (C.start hs) hu⟩

/-- A symbol and the part of an expression behind it. -/
theorem Carry.tailBack (C : Carry t S R) {w : String} {v : Text} {X : Nonterminal} {a : X.Out}
    (hw : w ≠ "") (h : Reads false (symbol? w) s v) (hpart : Derives false X v a u)
    (ih : ∀ {v' u'}, S v v' → R u u' → Derives false X v' a u') (hu : R u u') :
    ∃ s', R s s' ∧ ∃ v', Reads false (symbol? w) s' v' ∧ Derives false X v' a u' := by
  obtain ⟨v', hv, hpart'⟩ := C.partBack hpart ih hu
  obtain ⟨s', hs, hw'⟩ := C.symbolBack hw h hv
  exact ⟨s', hs, v', hw', hpart'⟩

theorem ne_empty_of_startsToken {w : String} (hw : startsToken w = true) : w ≠ "" := by
  rintro rfl
  cases hw

theorem Carry.firstSymbol (C : Carry t S R) {w : String} (hw : startsToken w = true)
    (h : Reads false (symbol? w) s u) (hs : S s s') (hu : R u u') : Reads false (symbol? w) s' u' :=
  reads_pair.1 (C.first (cut_symbol? (ne_empty_of_startsToken hw)) (reads_pair.2 (h.full_symbol hw))
    hs hu)

theorem Carry.firstWord (C : Carry t S R) (ht : Fence t) {w : String}
    (hw : (solid w && decide (w ≠ "")) = true)
    (h : Reads true (word? w) s u) (hs : S s s') (hu : R u u') : Reads false (word? w) s' u' :=
  reads_pair.1 (C.first (cut_word? ht hw) (reads_pair.2 h) hs hu)

end Token

section

variable {t : Text} (ht : Fence t) {S R : Text → Text → Prop} (C : Carry t S R)
include ht C

/-- A derivation is one of each corresponding text. -/
theorem Derives.carry {X : Nonterminal} {s u : Text} {a : X.Out} (h : Derives false X s a u)
    {s' u' : Text} (hs : S s s') (hu : R u u') : Derives false X s' a u' := by
  induction h generalizing s' u' with
  | alone _ ih => exact .alone (ih hs hu)
  | choice _ ih => exact .choice (ih hs hu)
  | test _ ih => exact .test (ih hs hu)
  | either _ ih => exact .either (ih hs hu)
  | coalesced _ ih => exact .coalesced (ih hs hu)
  | both _ ih => exact .both (ih hs hu)
  | operand _ ih => exact .operand (ih hs hu)
  | tighter hk _ ih => exact .tighter hk (ih hs hu)
  | base _ ih => exact .base (ih hs hu)
  | bare _ ih => exact .bare (ih hs hu)
  | primary _ ih => exact .primary (ih hs hu)
  | single _ ih => exact .single (ih hs hu)
  | sequence _ hw hf ihe ihf =>
    obtain ⟨t', ht', v', hw', hf'⟩ := C.tailBack (by decide) hw hf ihf hu
    exact .sequence (ihe hs ht') hw' hf'
  | arrow _ hw hf ihe ihf =>
    obtain ⟨t', ht', v', hw', hf'⟩ := C.tailBack (by decide) hw hf ihf hu
    exact .arrow (ihe hs ht') hw' hf'
  | assign _ hop hf ihe ihf =>
    obtain ⟨v', hv, hf'⟩ := C.partBack hf ihf hu
    obtain ⟨t', ht', hop'⟩ := C.nextBack (cut_assign? ht) hop hv
    exact .assign (ihe hs ht') hop' hf'
  | param hn => exact .param (C.first (cut_name? ht) hn.full_name hs hu)
  | params hw hns ih =>
    obtain ⟨v', hv, hns'⟩ := C.partBack hns ih hu
    exact .params (C.firstSymbol (by decide) hw hs hv) hns'
  | noName hw => exact .noName (C.firstSymbol (by decide) hw hs hu)
  | lastName hn hw =>
    obtain ⟨t', ht', hw'⟩ := C.symbolBack (by decide) hw hu
    exact .lastName (C.first (cut_name? ht) hn.full_name hs ht') hw'
  | moreNames hn hw hns ih =>
    obtain ⟨t', ht', v', hw', hns'⟩ := C.tailBack (by decide) hw hns ih hu
    exact .moreNames (C.first (cut_name? ht) hn.full_name hs ht') hw' hns'
  | conditional _ hw hf hx hg ihe ihf ihg =>
    obtain ⟨w', hw', x', hx', hg'⟩ := C.tailBack (by decide) hx hg ihg hu
    obtain ⟨t', ht', v', hv', hf'⟩ := C.tailBack (by decide) hw hf ihf hw'
    exact .conditional (ihe hs ht') hv' hf' hx' hg'
  | coalesce _ hw hf ihe ihf =>
    obtain ⟨t', ht', v', hw', hf'⟩ := C.tailBack (by decide) hw hf ihf hu
    exact .coalesce (ihe hs ht') hw' hf'
  | moreCoalesce _ hw hf ihe ihf =>
    obtain ⟨t', ht', v', hw', hf'⟩ := C.tailBack (by decide) hw hf ihf hu
    exact .moreCoalesce (ihe hs ht') hw' hf'
  | logicalOr _ hw hf ihe ihf =>
    obtain ⟨t', ht', v', hw', hf'⟩ := C.tailBack (by decide) hw hf ihf hu
    exact .logicalOr (ihe hs ht') hw' hf'
  | logicalAnd _ hw hf ihe ihf =>
    obtain ⟨t', ht', v', hw', hf'⟩ := C.tailBack (by decide) hw hf ihf hu
    exact .logicalAnd (ihe hs ht') hw' hf'
  | binary hk _ hop hf ihe ihf =>
    obtain ⟨v', hv, hf'⟩ := C.partBack hf ihf hu
    obtain ⟨t', ht', hop'⟩ := C.nextBack (cut_operator? ht _) hop hv
    exact .binary hk (ihe hs ht') hop' hf'
  | power _ hw hf ihe ihf =>
    obtain ⟨t', ht', v', hw', hf'⟩ := C.tailBack (by decide) hw hf ihf hu
    exact .power (ihe hs ht') hw' hf'
  | unary hop he ih =>
    obtain ⟨v', hv, he'⟩ := C.partBack he ih hu
    exact .unary (C.first (cut_unary? ht) (hop.full_lead (by decide) leadOf_unary?) hs hv) he'
  | delete hw he ih =>
    obtain ⟨v', hv, he'⟩ := C.partBack he ih hu
    have hlead := hw.full_lead (leadOfWord_ne (by decide)) (leadOf_word? (by decide) (by decide))
    exact .delete (C.firstWord ht (by decide +kernel) hlead hs hv) he'
  | await hw he ih =>
    obtain ⟨v', hv, he'⟩ := C.partBack he ih hu
    have hlead := hw.full_lead (leadOfWord_ne (by decide)) (leadOf_word? (by decide) (by decide))
    exact .await (C.firstWord ht (by decide +kernel) hlead hs hv) he'
  | member _ hw hn ihe =>
    obtain ⟨v', hv, hn'⟩ := C.nextBack (cut_anyName? ht) hn hu
    obtain ⟨t', ht', hw'⟩ := C.symbolBack (by decide) hw hv
    exact .member (ihe hs ht') hw' hn'
  | index _ hw hk hx ihe ihk =>
    obtain ⟨w', hw', hx'⟩ := C.symbolBack (by decide) hx hu
    obtain ⟨t', ht', v', hv', hk'⟩ := C.tailBack (by decide) hw hk ihk hw'
    exact .index (ihe hs ht') hv' hk' hx'
  | call _ hw has ihe ihas =>
    obtain ⟨t', ht', v', hw', has'⟩ := C.tailBack (by decide) hw has ihas hu
    exact .call (ihe hs ht') hw' has'
  | optionalMember _ hw hn ihe =>
    obtain ⟨v', hv, hn'⟩ := C.nextBack (cut_anyName? ht) hn hu
    obtain ⟨t', ht', hw'⟩ := C.symbolBack (by decide) hw hv
    exact .optionalMember (ihe hs ht') hw' hn'
  | optionalIndex _ hq hw hk hx ihe ihk =>
    obtain ⟨w', hw', hx'⟩ := C.symbolBack (by decide) hx hu
    obtain ⟨q', hq', v', hv', hk'⟩ := C.tailBack (by decide) hw hk ihk hw'
    obtain ⟨t', ht', hquestion⟩ := C.symbolBack (by decide) hq hq'
    exact .optionalIndex (ihe hs ht') hquestion hv' hk' hx'
  | optionalCall _ hq hw has ihe ihas =>
    obtain ⟨q', hq', v', hv', has'⟩ := C.tailBack (by decide) hw has ihas hu
    obtain ⟨t', ht', hquestion⟩ := C.symbolBack (by decide) hq hq'
    exact .optionalCall (ihe hs ht') hquestion hv' has'
  | @noItem b _ _ hw => exact .noItem (C.firstSymbol (by cases b <;> decide) hw hs hu)
  | @lastItem b _ _ _ _ _ hw ih =>
    obtain ⟨t', ht', hw'⟩ := C.symbolBack (Bracket.closing_ne b) hw hu
    exact .lastItem (ih hs ht') hw'
  | moreItems _ hw has iha ihas =>
    obtain ⟨t', ht', v', hw', has'⟩ := C.tailBack (by decide) hw has ihas hu
    exact .moreItems (iha hs ht') hw' has'
  | spreadItem hw he ih =>
    obtain ⟨v', hv, he'⟩ := C.partBack he ih hu
    exact .spreadItem (C.firstSymbol (by decide) hw hs hv) he'
  | number hk =>
    exact .number (C.first (cut_number? ht) (hk.full_lead (by decide) leadOf_number?) hs hu)
  | string hk => exact .string (C.first cut_string? (hk.full_lead (by decide) leadOf_string?) hs hu)
  | constant hk =>
    exact .constant (C.first (cut_constant? ht) (hk.full_lead (by decide) leadOf_constant?) hs hu)
  | name hn => exact .name (C.first (cut_name? ht) hn.full_name hs hu)
  | array hw has ih =>
    obtain ⟨v', hv, has'⟩ := C.partBack has ih hu
    exact .array (C.firstSymbol (by decide) hw hs hv) has'
  | object hw has ih =>
    obtain ⟨v', hv, has'⟩ := C.partBack has ih hu
    exact .object (C.firstSymbol (by decide) hw hs hv) has'
  | paren hw he hx ih =>
    obtain ⟨t', ht', hx'⟩ := C.symbolBack (by decide) hx hu
    obtain ⟨v', hv, he'⟩ := C.partBack he ih ht'
    exact .paren (C.firstSymbol (by decide) hw hs hv) he' hx'
  | noEntry hw => exact .noEntry (C.firstSymbol (by decide) hw hs hu)
  | lastEntry _ hw ih =>
    obtain ⟨t', ht', hw'⟩ := C.symbolBack (by decide) hw hu
    exact .lastEntry (ih hs ht') hw'
  | moreEntries _ hw has iha ihas =>
    obtain ⟨t', ht', v', hw', has'⟩ := C.tailBack (by decide) hw has ihas hu
    exact .moreEntries (iha hs ht') hw' has'
  | named hk hw he ih =>
    obtain ⟨t', ht', v', hw', he'⟩ := C.tailBack (by decide) hw he ih hu
    exact .named (C.first (cut_anyName? ht) hk.full_anyName hs ht') hw' he'
  | stringKey hk hw he ih =>
    obtain ⟨t', ht', v', hw', he'⟩ := C.tailBack (by decide) hw he ih hu
    have hlead := hk.full_lead (by decide) leadOf_string?
    exact .stringKey (C.first cut_string? hlead hs ht') hw' he'
  | numberKey hk hw he ih =>
    obtain ⟨t', ht', v', hw', he'⟩ := C.tailBack (by decide) hw he ih hu
    have hlead := hk.full_lead (by decide) leadOf_number?
    exact .numberKey (C.first (cut_number? ht) hlead hs ht') hw' he'
  | computed hq hk hx hw he ihk ihe =>
    obtain ⟨t', ht', v', hw', he'⟩ := C.tailBack (by decide) hw he ihe hu
    obtain ⟨x', hx, hx'⟩ := C.symbolBack (by decide) hx ht'
    obtain ⟨q', hq', hk'⟩ := C.partBack hk ihk hx
    exact .computed (C.firstSymbol (by decide) hq hs hq') hk' hx' hw' he'
  | shorthand hn => exact .shorthand (C.first (cut_name? ht) hn.full_name hs hu)
  | spreadEntry hw he ih =>
    obtain ⟨v', hv, he'⟩ := C.partBack he ih hu
    exact .spreadEntry (C.firstSymbol (by decide) hw hs hv) he'

end

/-! ## Something more before and behind an expression -/

namespace Token

variable {t : Text}

/-- Other white space and comments before a text. -/
theorem carry_skip : Carry [] (fun s s' => skip s = skip s') (fun s s' => s = s') := by
  refine ⟨?_, fun {s _ _} _ _ => ⟨s, rfl⟩, ?_, ?_⟩
  · rintro s _ rfl
    rfl
  · rintro α find a s s' u _ - h hs rfl
    exact ⟨skip s', ⟨gap_skip s', nofun⟩, hs ▸ reads_true.1 h⟩
  · rintro α find a s _ u _ - h rfl rfl
    exact h

/-- `t` behind a text. -/
theorem carry_append : Carry t (fun s s' => s ++ t = s') (fun s s' => s ++ t = s') := by
  have next {α : Type} {find : Text → Option (α × Text)} {a : α} {s u : Text} (hfind : Cut t find)
      (h : Reads false find s (a, u)) : Reads false find (s ++ t) (a, u ++ t) := by
    obtain ⟨m, hat, hm⟩ := h
    have hne : m ≠ [] := by
      rintro rfl
      exact absurd (hfind.rest hm).shorter (Nat.not_lt_zero _)
    exact ⟨m ++ t, ⟨hat.1.append hne, nofun⟩, hfind.append_iff.2 hm⟩
  refine ⟨id, fun {s _ _} _ _ => ⟨s ++ t, rfl⟩, ?_, ?_⟩
  · rintro α find a s _ u _ hfind ⟨m, hat, hm⟩ rfl rfl
    exact next hfind ⟨m, ⟨hat.1, nofun⟩, hm⟩
  · rintro α find a s _ u _ hfind h rfl rfl
    exact next hfind h

/-- `t` left out at the end of a text. -/
theorem carry_cut : Carry t (fun s s' => s = s' ++ t) (fun s s' => s = s' ++ t) := by
  have next {α : Type} {find : Text → Option (α × Text)} {a : α} {s' u' : Text} (hfind : Cut t find)
      (h : Reads false find (s' ++ t) (a, u' ++ t)) : Reads false find s' (a, u') := by
    obtain ⟨m, hat, hm⟩ := h
    obtain ⟨m, rfl⟩ := exists_append_of_suffix (hfind.rest hm).suffix
    exact ⟨m, ⟨hat.1.of_append, nofun⟩, hfind.append_iff.1 hm⟩
  refine ⟨id, ?_, ?_, ?_⟩
  · rintro s _ u' h rfl
    exact exists_append_of_suffix h.suffix
  · rintro α find a _ s' _ u' hfind ⟨m, hat, hm⟩ rfl rfl
    exact next hfind ⟨m, ⟨hat.1, nofun⟩, hm⟩
  · rintro α find a _ s' _ u' hfind h rfl rfl
    exact next hfind h

end Token

section

variable {X : Nonterminal} {s s' u t : Text} {a : X.Out}

/-- A derivation starts after all white space and comments. -/
theorem Derives.of_skip_eq (h : Derives false X s a u) (hs : skip s = skip s') :
    Derives false X s' a u :=
  h.carry fence_nil carry_skip hs rfl

theorem derives_append_iff (ht : Fence t) :
    Derives false X (s ++ t) a (u ++ t) ↔ Derives false X s a u :=
  ⟨fun h => h.carry ht carry_cut rfl rfl, fun h => h.carry ht carry_append rfl rfl⟩

end

end GuardedText
