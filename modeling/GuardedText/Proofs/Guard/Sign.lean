import GuardedText.Proofs.Guard.Again

/-
  Signs next to each other. In a clean text two equal signs stand next to each other in strings and
  comments only. What separates two equal signs, spaces, tabs and block comments, can be changed for
  any other such run, and the text keeps its expression (`Guard.compile_signs`).

  In a text that is not clean a division sign can be read where a line comment starts, and the rest of
  that comment starts a comment of its own. It may hide a doubled sign, and it may be the new separator
  that ends it, and then the text gets another expression (`Guard.compile_signs_unclean`).
-/

namespace GuardedText

open Token

namespace Token

/-! ## Separators -/

/-- A run of spaces, tabs and block comments. -/
inductive Separator : Text → Prop where
  | nil : Separator []
  | blank {c : CodePoint} {s : Text} : oneOf " \t" c = true → Separator s → Separator (c :: s)
  | comment {body s : Text} : ¬ Text.ofString "*/" <:+: body → Separator s →
      Separator (Text.ofString "/*" ++ (body ++ (Text.ofString "*/" ++ s)))

section

variable {r : Text}

/-- A block comment ends where `*/` comes first. -/
theorem afterBlockEnd?_body {body : Text} (h : ¬ Text.ofString "*/" <:+: body) (s : Text) :
    afterBlockEnd? (body ++ (Text.ofString "*/" ++ s)) = some s := by
  induction body with
  | nil => rfl
  | cons c body ih =>
    have hrest : ¬ Text.ofString "*/" <:+: body := fun h' => h (List.infix_cons h')
    rw [List.cons_append, afterBlockEnd?, ih hrest, if_neg]
    intro hend
    rw [Bool.and_eq_true, beq_iff_eq, beq_iff_eq] at hend
    obtain ⟨rfl, hslash⟩ := hend
    cases body with
    | nil => exact absurd (Option.some.inj hslash) (by decide)
    | cons d body =>
      obtain rfl := Option.some.inj hslash
      exact h (List.prefix_append _ body).isInfix

theorem isSpace_of_blank {c : CodePoint} (h : oneOf " \t" c = true) : isSpace c = true :=
  of_oneOf h isSpace (by decide)

theorem Separator.dropWhile {sep : Text} (h : Separator sep) (hr : nextIs isSpace r = false) :
    ∃ sep', Separator sep' ∧ (sep ++ r).dropWhile isSpace = sep' ++ r := by
  induction h with
  | nil =>
    refine ⟨[], .nil, ?_⟩
    cases r with
    | nil => rfl
    | cons d r =>
      have hd : isSpace d = false := by simpa [nextIs] using hr
      simp [hd]
  | @blank c s hc _ ih =>
    rw [List.cons_append, List.dropWhile_cons_of_pos (isSpace_of_blank hc)]
    exact ih
  | @comment body s hbody hs _ =>
    exact ⟨_, .comment hbody hs, rfl⟩

/-- A separator is white space or a comment and then a shorter separator. -/
theorem Separator.step {sep : Text} (h : Separator sep) (hne : sep ≠ [])
    (hr : nextIs isSpace r = false) :
    ∃ sep', Separator sep' ∧ afterGap? (sep ++ r) = some (sep' ++ r) := by
  cases h with
  | nil => exact absurd rfl hne
  | @blank c s hc hs =>
    obtain ⟨sep', hsep', hdrop⟩ := hs.dropWhile hr
    refine ⟨sep', hsep', ?_⟩
    simp only [List.cons_append, afterGap?, isSpace_of_blank hc, if_true, hdrop]
  | @comment body s hbody hs =>
    refine ⟨s, hs, ?_⟩
    rw [List.append_assoc, List.append_assoc, List.append_assoc]
    exact afterBlockEnd?_body hbody _

theorem Separator.fence {sep : Text} (h : Separator sep) (hne : sep ≠ []) : Fence (sep ++ r) := by
  cases h with
  | nil => exact absurd rfl hne
  | blank hc => exact fence_cons (Bool.or_eq_true_iff.2 (Or.inl (isSpace_of_blank hc)))
  | comment => exact fence_cons (by decide)

theorem Separator.gap {sep : Text} (h : Separator sep) (hr : nextIs isSpace r = false) :
    Gap (sep ++ r) r := by
  rcases eq_or_ne sep [] with rfl | hne
  · exact .refl
  · obtain ⟨sep', hsep', hgap⟩ := h.step hne hr
    have hshorter := (rest_afterGap? hgap).shorter
    exact .head hgap (hsep'.gap hr)
termination_by sep.length
decreasing_by
  simp only [List.length_append] at hshorter
  omega

/-- What a place in a separator or behind it is. -/
theorem Separator.places {sep m : Text} (h : Separator sep) (hr : nextIs isSpace r = false)
    (hm : Outside (sep ++ r) m) : (∃ sep', Separator sep' ∧ m = sep' ++ r) ∨ Outside r m := by
  rcases eq_or_ne sep [] with rfl | hne
  · exact Or.inr hm
  · obtain ⟨sep', hsep', hgap⟩ := h.step hne hr
    have hshorter := (rest_afterGap? hgap).shorter
    rcases hm.eq_or_of_step (step?_of_gap hgap) with rfl | hm
    · exact Or.inl ⟨sep, h, rfl⟩
    · exact hsep'.places hr hm
termination_by sep.length
decreasing_by
  simp only [List.length_append] at hshorter
  omega

end

/-! ## Another separator behind a sign -/

section

variable {c : CodePoint} {t t' : Text}

/-- Places of a text with `t` behind a sign, and of the same text with `t'` instead. -/
inductive Across (c : CodePoint) (t t' : Text) : Text → Text → Prop where
  | before {y : Text} : Outside (y ++ [c] ++ t) ([c] ++ t) →
      Across c t t' (y ++ [c] ++ t) (y ++ [c] ++ t')
  | between : Across c t t' t t'
  | behind {s : Text} : Across c t t' s s

variable (hc : oneOf "+-" c = true)

include hc in
theorem stuck_sign : afterGap? ([c] ++ t) = none :=
  stuck_of_head (of_oneOf hc (fun c => !isSpace c && !oneOf "/" c) (by decide))

include hc in
/-- A token that starts before a sign or with it ends before what separates the sign. -/
theorem Worded.before {m u x : Text} (h : Worded m u) (heq : m = x ++ t)
    (hm : Outside m ([c] ++ t)) (ht : afterGap? t ≠ none) : ∃ z, u = z ++ t := by
  rcases h with ⟨k, hk⟩ | ⟨w, -, hw, hshown⟩
  · rcases hm.eq_or_of_step (step?_of_string hk) with rfl | hm
    · obtain ⟨d, r, hd, hquote⟩ := isQuote_of_string? hk
      obtain ⟨rfl, -⟩ := List.cons.inj hd
      rw [not_isQuote hc (by decide)] at hquote
      cases hquote
    · obtain ⟨z, hz⟩ := hm.suffix
      exact ⟨z ++ [c], by rw [← hz, List.append_assoc]⟩
  · exact hshown.before (hw.symm.trans heq) ht

include hc in
/-- A token before a separated sign is found with another separator behind the sign. -/
theorem Across.token {α : Type} {find : Text → Option (α × Text)} {a : α} {y m u : Text}
    (hfind : Cut t find) (hfind' : Cut t' find) (hs : Outside (y ++ [c] ++ t) ([c] ++ t))
    (ht : afterGap? t ≠ none) (hat : At true (y ++ [c] ++ t) m) (hm : find m = some (a, u))
    (hword : Worded m u) :
    ∃ u', Reads false find (y ++ [c] ++ t') (a, u') ∧ Across c t t' u u' := by
  have hplace : Outside m ([c] ++ t) := hs.after_gap hat.1 (stuck_sign hc)
  obtain ⟨x, rfl⟩ : ∃ x, m = x ++ [c] ++ t := by
    obtain ⟨x, hx⟩ := hplace.suffix
    exact ⟨x, by rw [← hx, List.append_assoc]⟩
  have hne (x : Text) : x ++ [c] ≠ [] := List.concat_ne_nil c x
  have hgap : Gap (y ++ [c] ++ t') (x ++ [c] ++ t') := hat.1.of_append.append (hne x)
  obtain ⟨z, rfl⟩ := hword.before hc rfl hplace ht
  have hfound := hfind'.append_iff.2 (hfind.append_iff.1 hm)
  refine ⟨z ++ t', ⟨_, ⟨hgap, nofun⟩, hfound⟩, ?_⟩
  rcases List.eq_nil_or_concat' z with rfl | ⟨z, d, rfl⟩
  · exact .between
  · -- What is left of a token before the sign still ends with the sign.
    obtain ⟨w, hw⟩ := (hfind.rest hm).suffix
    rw [← List.append_assoc, ← List.append_assoc] at hw
    obtain ⟨-, hd⟩ := List.append_inj' (List.append_cancel_right hw) rfl
    cases hd
    refine .before ?_
    rcases hword.outside.total hplace with h | h
    · exact h
    · have hlength := h.suffix.length_le
      simp only [List.length_append] at hlength
      obtain rfl : z = [] := List.length_eq_zero_iff.1 (by omega)
      exact .refl

include hc in
theorem tracks_across (ht : Fence t) (ht' : Fence t') (hgap : afterGap? t ≠ none)
    (hskip : skip t = skip t') : Tracks true false (Across c t t') := by
  have onward {α : Type} {find : Text → Option α} {s : Text} {a : α} (h : Reads true find s a) :
      Reads false find s a := by
    obtain ⟨m, hat, hm⟩ := h
    exact ⟨m, ⟨hat.1, nofun⟩, hm⟩
  have between {α : Type} {find : Text → Option α} {a : α} (h : Reads true find t a) :
      Reads false find t' a := by
    rw [reads_true, hskip] at h
    exact ⟨skip t', ⟨gap_skip t', nofun⟩, h⟩
  refine ⟨?_, ?_, ?_⟩
  · intro α find a s s' u hfind h hs
    cases hs with
    | before hs =>
      obtain ⟨m, hat, hm⟩ := h
      exact Across.token hc (hfind.cut ht) (hfind.cut ht') hs hgap hat hm (hfind.worded hm)
    | between => exact ⟨u, between h, .behind⟩
    | behind => exact ⟨u, onward h, .behind⟩
  · intro k op s s' u h hopens hs
    cases hs with
    | before hs =>
      obtain ⟨m, hat, hm⟩ := h
      exact Across.token hc (cut_operator? ht k) (cut_operator? ht' k) hs hgap hat hm
        (worded_operator hm hopens (hat.2 rfl))
    | between => exact ⟨u, between h, .behind⟩
    | behind => exact ⟨u, onward h, .behind⟩
  · intro s s' hend hs
    cases hs with
    | before hs =>
      have hnil := (hs.after_gap hend.1 (stuck_sign hc)).suffix
      cases List.suffix_nil.1 hnil
    | between =>
      refine ⟨?_, nofun⟩
      rw [at_true.1 hend, hskip]
      exact gap_skip t'
    | behind => exact ⟨hend.1, nofun⟩

/-! ## The text with another separator -/

/-- A code point that is passed alone is passed alone with another separator behind the sign. -/
theorem lone_across {d : CodePoint} {y : Text} (h : Lone (d :: (y ++ [c] ++ t))) :
    step? (d :: (y ++ [c] ++ t')) = some (y ++ [c] ++ t') := by
  have hquote : isQuote d = false := by
    rw [Bool.eq_false_iff]
    intro hd
    exact h.notStray (.quote hd h.noString)
  have hstuck : afterGap? (d :: (y ++ [c] ++ t')) = none := by
    rw [Option.eq_none_iff_forall_ne_some]
    intro m hm
    rcases head_of_afterGap? hm with hd | hd
    · have := h.stuck
      simp [afterGap?, hd] at this
    · obtain rfl : d = CodePoint.ofChar '/' := by simpa [oneOf, Text.ofString] using hd
      obtain ⟨e, q, heq, he⟩ := exists_of_afterGap?_slash hm
      -- The sign stands behind the slash in both texts, so the next code point is the same.
      obtain ⟨r, heq⟩ : ∃ r, y ++ [c] ++ t = e :: r := by
        cases y with
        | nil =>
          obtain ⟨rfl, -⟩ := List.cons.inj heq
          exact ⟨t, rfl⟩
        | cons f y =>
          obtain ⟨rfl, -⟩ := List.cons.inj heq
          exact ⟨_, rfl⟩
      have hnone := h.stuck
      rw [heq] at hnone
      rcases he with rfl | rfl
      · refine h.notStray ?_
        rw [heq]
        exact .comment hnone
      · cases hnone
  rw [step?, hstuck, string?_eq_none hquote]
  rfl

theorem step?_across {y r : Text} (h : step? (y ++ [c] ++ t) = some r) (hr : Outside r ([c] ++ t))
    (hstray : ¬ Stray (y ++ [c] ++ t)) :
    ∃ x, r = x ++ [c] ++ t ∧ step? (y ++ [c] ++ t') = some (x ++ [c] ++ t') := by
  obtain ⟨x, rfl⟩ : ∃ x, r = x ++ [c] ++ t := by
    obtain ⟨x, hx⟩ := hr.suffix
    exact ⟨x, by rw [← hx, List.append_assoc]⟩
  refine ⟨x, rfl, ?_⟩
  have hne : x ++ [c] ≠ [] := List.concat_ne_nil c x
  cases hgap : afterGap? (y ++ [c] ++ t) with
  | some m =>
    rw [step?_of_gap hgap] at h
    cases h
    exact step?_of_gap (afterGap?_append (afterGap?_of_append hgap) hne)
  | none =>
    cases hstring : string? (y ++ [c] ++ t) with
    | some found =>
      obtain ⟨k, m⟩ := found
      rw [step?_of_string hstring] at h
      cases h
      exact step?_of_string (cut_string?.append_iff.2 (cut_string?.append_iff.1 hstring))
    | none =>
      rw [step?, hgap, hstring] at h
      cases y with
      | nil =>
        have heq : t = x ++ [c] ++ t := Option.some.inj h
        have := congrArg List.length heq
        simp only [List.length_append, List.length_singleton] at this
        omega
      | cons d y =>
        obtain rfl : y = x := List.append_cancel_right (List.append_cancel_right (Option.some.inj h))
        exact lone_across ⟨hgap, hstring, hstray⟩

include hc in
theorem not_prefix_of_sign {w : String} (hw : (Text.ofString w).all (!oneOf "+-" ·) = true)
    {y : Text} (h : ¬ Text.ofString w <+: y ++ [c] ++ t) : ¬ Text.ofString w <+: y ++ [c] ++ t' := by
  intro h'
  have hmem : c ∉ Text.ofString w := by
    intro hmem
    have := List.all_eq_true.1 hw c hmem
    rw [hc] at this
    cases this
  rcases List.prefix_or_prefix_of_prefix h' (List.prefix_append (y ++ [c]) t') with hpre | hpre
  · exact h (hpre.trans (List.prefix_append (y ++ [c]) t))
  · exact hmem (hpre.subset (by simp))

include hc in
theorem clean_across {y : Text} (h : Outside (y ++ [c] ++ t) ([c] ++ t))
    (hs : Clean (y ++ [c] ++ t)) (hstray : ∀ r, Outside (y ++ [c] ++ t) r → ¬ Stray r)
    (hbehind : Clean ([c] ++ t')) : Clean (y ++ [c] ++ t') := by
  generalize hx : y ++ [c] ++ t = x at h
  induction h using Relation.ReflTransGen.head_induction_on generalizing y with
  | refl =>
    obtain rfl : y = [] :=
      List.append_cancel_right (List.append_cancel_right (hx.trans (List.nil_append _).symm))
    exact hbehind
  | head hstep hrest ih =>
    subst hx
    obtain ⟨z, rfl, hstep'⟩ := step?_across hstep hrest (hstray _ .refl)
    intro m hm
    rcases hm.eq_or_of_step hstep' with rfl | hm
    · obtain ⟨hslash, hasterisk⟩ := hs _ .refl
      exact ⟨not_prefix_of_sign hc (by decide) hslash, not_prefix_of_sign hc (by decide) hasterisk⟩
    · exact ih (hs.outside (.single hstep)) (fun r hr => hstray r (.head hstep hr)) rfl m hm

end

theorem Separator.clean {sep r : Text} (h : Separator sep) (hr : nextIs isSpace r = false)
    (hclean : Clean r) : Clean (sep ++ r) := by
  intro m hm
  rcases h.places hr hm with ⟨sep', hsep', rfl⟩ | hm
  · cases hsep' with
    | nil => exact hclean r .refl
    | @blank c s hc =>
      refine not_comment ?_ _
      rintro rfl
      exact absurd hc (by decide)
    | comment =>
      refine ⟨fun h => ?_, fun h => ?_⟩
      · cases (List.cons_prefix_cons.1 (List.cons_prefix_cons.1 h).2).1
      · cases (List.cons_prefix_cons.1 (List.cons_prefix_cons.1 h).2).1
  · exact hclean m hm

theorem clean_sign {c : CodePoint} (hc : oneOf "+-" c = true) {t : Text} (ht : Fence t)
    (hclean : Clean t) : Clean ([c] ++ t) := by
  have hlone : Lone (c :: t) := by
    refine lone_sign hc (ht.not_nextIs fun d hd => ?_)
    rw [beq_eq_false_iff_ne]
    rintro rfl
    have := of_oneOf hc (!ends ·) (by decide)
    rw [hd] at this
    cases this
  intro m hm
  rcases hm.eq_or_of_step hlone.step? with rfl | hm
  · refine not_comment ?_ _
    rintro rfl
    exact absurd hc (by decide)
  · exact hclean m hm

end Token

namespace Guard

/-! ## Statements -/

section

variable {c : CodePoint} (hc : oneOf "+-" c = true) {t : Text} (ht : Fence t)

theorem nextIs_append_of_ne {p : CodePoint → Bool} {x : Text} (hx : x ≠ []) (t : Text) :
    nextIs p (x ++ t) = nextIs p x := by
  obtain ⟨d, x, rfl⟩ := List.exists_cons_of_ne_nil hx
  rfl

include hc in
theorem dropWhile_sign (y : Text) :
    ∃ z, (y ++ [c]).dropWhile CodePoint.isBlank = z ++ [c] := by
  have hblank : c.isBlank = false := by
    simpa using of_oneOf hc (!CodePoint.isBlank ·) (by decide)
  rw [List.dropWhile_append]
  split_ifs
  · exact ⟨[], List.dropWhile_cons_of_neg (Bool.eq_false_iff.1 hblank)⟩
  · exact ⟨_, rfl⟩

include hc ht in
theorem startsDeclaration_sign (z : Text) :
    startsDeclaration (z ++ [c] ++ t) = startsDeclaration (z ++ [c]) := by
  have hne (x : Text) : x ++ [c] ≠ [] := List.concat_ne_nil c x
  unfold startsDeclaration
  rw [symbol?_append ht (by decide +kernel) (hne z)]
  cases hlet : symbol? "let" (z ++ [c]) with
  | none => rfl
  | some x =>
    obtain rfl | ⟨w, d, rfl⟩ := List.eq_nil_or_concat' x
    · rw [symbol?_eq_some, List.append_nil] at hlet
      have hlast : z ++ [c] = Text.ofString "le" ++ Text.ofString "t" := hlet
      obtain ⟨-, hd⟩ := List.append_inj' hlast rfl
      cases hd
      exact absurd hc (by decide)
    · rw [symbol?_eq_some, ← List.append_assoc] at hlet
      obtain ⟨-, hd⟩ := List.append_inj' hlet rfl
      cases hd
      obtain ⟨v, hv⟩ := dropWhile_sign hc w
      have hdrop : (w ++ [c]).dropWhile CodePoint.isBlank ≠ [] := hv ▸ hne v
      simp only [Option.map_some, nextIs_append_of_ne (hne w), dropWhile_append_of_ne hdrop,
        nextIs_append_of_ne hdrop]

include hc ht in
/-- What stands behind a sign does not tell whether a text starts a statement. -/
theorem statementKind?_sign (y : Text) :
    statementKind? (y ++ [c] ++ t) = none ↔ statementKind? (y ++ [c]) = none := by
  obtain ⟨z, hz⟩ := dropWhile_sign hc y
  have hne : z ++ [c] ≠ [] := List.concat_ne_nil c z
  have hsolid : ∀ p ∈ statementWords, solid p.1 = true := by decide +kernel
  rw [statementKind?_eq_none, statementKind?_eq_none, dropWhile_append_of_ne (hz ▸ hne), hz,
    startsDeclaration_sign hc ht, nextIs_append_of_ne hne, nextIs_append_of_ne hne]
  refine and_congr_left fun _ => forall₂_congr fun p hp => ?_
  rw [word?_append ht (hsolid p hp) hne, Option.map_eq_none_iff]

end

/-! ## Compiling -/

theorem compile_of_unspelled {s : Text} (h : ∀ found, ¬ Spells false s found) :
    (∃ kind, compile s = .error (.statement kind)) ∨
      ∃ column, compile s = .error (.unexpected column) := by
  cases hkind : statementKind? s with
  | some kind =>
    refine Or.inl ⟨kind, ?_⟩
    simp [compile, hkind, throw, throwThe, MonadExceptOf.throw, bind, Except.bind]
  | none =>
    refine Or.inr ?_
    cases hparse : parse s with
    | ok found => exact absurd (spells_of_parse hparse) (h _)
    | error e =>
      obtain ⟨column, rfl⟩ : ∃ column, e = .unexpected column := by
        unfold parse at hparse
        dsimp only at hparse
        split at hparse
        · cases hparse
        · cases hparse
          exact ⟨_, rfl⟩
      refine ⟨column, ?_⟩
      simp [compile, hkind, hparse, bind, Except.bind]

section

variable {c : CodePoint} (hc : oneOf "+-" c = true) {sep sep' after : Text} (hsep : Separator sep)
  (hne : sep ≠ []) (hsep' : Separator sep') (hne' : sep' ≠ [])
include hc hsep hne hsep' hne'

/-- What a clean text spells it spells with another separator between two signs, and that text is
clean too. -/
theorem spells_reseparated {y : Text} {found : List (Option Tree)}
    (hs : Clean (y ++ [c] ++ (sep ++ c :: after)))
    (hplace : Outside (y ++ [c] ++ (sep ++ c :: after)) ([c] ++ (sep ++ c :: after)))
    (h : Spells false (y ++ [c] ++ (sep ++ c :: after)) found) :
    Clean (y ++ [c] ++ (sep' ++ c :: after)) ∧
      Spells false (y ++ [c] ++ (sep' ++ c :: after)) found := by
  have hspace : nextIs isSpace (c :: after) = false := by
    simpa [nextIs] using of_oneOf hc (!isSpace ·) (by decide)
  have hstuck : afterGap? (c :: after) = none :=
    stuck_of_head (of_oneOf hc (fun c => !isSpace c && !oneOf "/" c) (by decide))
  have hfull := hs.clear _ h
  refine ⟨clean_across hc hplace hs (fun r => hfull.not_stray) ?_, ?_⟩
  · have hsecond : Clean (c :: after) := by
      refine hs.outside (hplace.trans ?_)
      have hlone : Lone (c :: (sep ++ c :: after)) := ⟨stuck_sign hc, ?_, ?_⟩
      · exact .head hlone.step? (hsep.gap hspace).outside
      · exact string?_eq_none (not_isQuote hc (by decide)) _
      · exact hfull.not_stray hplace
    exact clean_sign hc (hsep'.fence hne') (hsep'.clean hspace hsecond)
  · have hgap : afterGap? (sep ++ c :: after) ≠ none := by
      obtain ⟨_, -, hgap⟩ := hsep.step hne hspace
      rw [hgap]
      exact Option.some_ne_none _
    have hskip : skip (sep ++ c :: after) = skip (sep' ++ c :: after) :=
      ((hsep.gap hspace).eq_skip hstuck).symm.trans ((hsep'.gap hspace).eq_skip hstuck)
    exact hfull.follow (tracks_across hc (hsep.fence hne) (hsep'.fence hne') hgap hskip)
      (.before hplace)

end

/-- Two equal signs in a clean text. No text compiles in which they stand next to each other outside
strings and comments. If a text compiles in which spaces, tabs and block comments separate them, then
it compiles with any other such separator, to the same expression. -/
theorem compile_signs (s : Text) (hs : Clean s) :
    (∀ c after, oneOf "+-" c = true → Outside s (c :: c :: after) →
      (∃ kind, compile s = .error (.statement kind)) ∨
        ∃ column, compile s = .error (.unexpected column)) ∧
    ∀ c before sep sep' after g, oneOf "+-" c = true → Separator sep → sep ≠ [] →
      Separator sep' → sep' ≠ [] → s = before ++ (c :: sep ++ c :: after) →
      Outside s (c :: sep ++ c :: after) → compile s = .ok g →
      ∃ g', compile (before ++ (c :: sep' ++ c :: after)) = .ok g' ∧ g'.expr = g.expr := by
  refine ⟨fun c after hc hplace => ?_, ?_⟩
  · refine compile_of_unspelled fun found hfound => ?_
    exact (hs.clear _ hfound).not_stray hplace (.sign hc)
  · rintro c y sep sep' after g hc hsep hne hsep' hne' rfl hplace hg
    have hsplit (sep : Text) :
        y ++ (c :: sep ++ c :: after) = y ++ [c] ++ (sep ++ c :: after) := by simp
    rw [hsplit] at hs hplace hg ⊢
    obtain ⟨hkind, tree, hspelled, hlegal, hbuild⟩ := spelled_of_compile hg
    have hkind' : statementKind? (y ++ [c] ++ (sep' ++ c :: after)) = none :=
      (statementKind?_sign hc (hsep'.fence hne') y).2
        ((statementKind?_sign hc (hsep.fence hne) y).1 hkind)
    obtain ⟨hclean, hspelled'⟩ : Clean (y ++ [c] ++ (sep' ++ c :: after)) ∧
        Spelled (y ++ [c] ++ (sep' ++ c :: after)) tree := by
      rcases hspelled with h | h
      · exact (spells_reseparated hc hsep hne hsep' hne' hs hplace h).imp_right Or.inl
      · exact (spells_reseparated hc hsep hne hsep' hne' hs hplace h).imp_right Or.inr
    obtain ⟨g', hg'⟩ := compile_of_spelled hclean.clear hkind' hspelled' hlegal
    obtain ⟨-, tree', htree', -, hbuild'⟩ := spelled_of_compile hg'
    rw [← spelled_unique hclean.clear hspelled' htree', hbuild] at hbuild'
    exact ⟨g', hg', (Except.ok.inj hbuild').symm⟩

theorem compile_signs_minus :
    Clean "a--b" ∧ Outside "a--b" "--b" ∧
      ((∃ kind, compile "a--b" = .error (.statement kind)) ∨
        ∃ column, compile "a--b" = .error (.unexpected column)) ∧
    Clean "a - - b" ∧ Outside "a - - b" "- - b" ∧ Separator " " ∧ Separator "/*-*/\t" ∧
      ∃ g, compile "a -/*-*/\t- b" = .ok g ∧
        g.expr = .binary .sub (.name "a") (.unary .minus (.name "b")) := by
  have hjoined : Clean "a--b" := Plain.clean (by decide +kernel)
  have hclean : Clean "a - - b" := Plain.clean (by decide +kernel)
  have hplace : Outside "a--b" "--b" := .single rfl
  have hplace' : Outside "a - - b" "- - b" := .head rfl (.single rfl)
  have hspace : Separator " " := .blank (by decide) .nil
  have hcomment : Separator "/*-*/\t" :=
    @Separator.comment "-" "\t" (by decide) (.blank (by decide) .nil)
  refine ⟨hjoined, hplace, (compile_signs _ hjoined).1 '-' "b" (by decide) hplace, hclean, hplace',
    hspace, hcomment, ?_⟩
  exact (compile_signs _ hclean).2 '-' "a " " " "/*-*/\t" " b" ⟨"a - - b", _⟩ (by decide) hspace
    (by decide) hcomment (by decide) rfl hplace' rfl

/-- The slash before a line comment and the rest of it are a division sign and the start of a block
comment, which ends at the first `*/`. A doubled sign of the next line is then inside the comment, and
it may be the new separator that brings the end. -/
theorem compile_signs_unclean :
    (Outside "a //*\n++c*/ b" "++c*/ b" ∧
      compile "a //*\n++c*/ b" =
        .ok ⟨"a //*\n++c*/ b", .binary .div (.name "a") (.name "b")⟩) ∧
    Outside "a //*\n(b) + + c" "+ + c" ∧ Separator " " ∧ Separator "/*/ 1 // */" ∧
      compile "a //*\n(b) + + c" = .ok ⟨"a //*\n(b) + + c", .binary .add
        (.call (.name "a") [.single (.name "b")] false) (.unary .plus (.name "c"))⟩ ∧
      compile "a //*\n(b) +/*/ 1 // */+ c" =
        .ok ⟨"a //*\n(b) +/*/ 1", .binary .div (.name "a") (.literal (.number (.int 1)))⟩ := by
  have hline : Outside "a //*\n++c*/ b" "++c*/ b" :=
    .head rfl (.head rfl (.head rfl (.single rfl)))
  have hplace : Outside "a //*\n(b) + + c" "+ + c" :=
    .head rfl (.head rfl (.head rfl (.head rfl (.head rfl (.head rfl (.head rfl (.single rfl)))))))
  refine ⟨⟨hline, rfl⟩, hplace, .blank (by decide) .nil, ?_, rfl, rfl⟩
  exact @Separator.comment "/ 1 // " [] (by decide) .nil

end Guard

end GuardedText
