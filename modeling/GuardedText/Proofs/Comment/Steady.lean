import Mathlib.Tactic.ByContra
import GuardedText.Proofs.Comment.Reline

/-
  Scripts that are read alike with all line terminators. A line feed leaves the lexer in another mode
  than a terminator that it takes for white space, so two lexers that read a script and its relined text
  are not always in the same mode; they are in modes that read the same (`Alike`) as long as no slash
  tells them apart. `Steady` says of a script, place by place, that nothing in it does. Two lexers at
  such a place are `InStep`, and stay in step over every lexeme that is no line comment (`InStep.next`).
-/

namespace GuardedText

namespace Lexeme

/-! ## The next lexeme by what stands there -/

theorem regexLength?_slash {s : Text} {n : Nat} (h : regexLength? s = some n) :
    nextIs (oneOf "/") s = true := by
  cases s with
  | nil => cases h
  | cons c s =>
    unfold regexLength? at h
    simp only at h
    split at h
    · rename_i hslash
      rw [Bool.and_eq_true] at hslash
      rw [beq_iff_eq.1 hslash.1]
      rfl
    · cases h

/-- An operand, white space or a comment starts with white space, a slash or a mark. -/
theorem inOperand_eq_none_iff {s : Text} :
    inOperand s = none ↔ gap? s = none ∧ nextIs (oneOf "/") s = false := by
  unfold inOperand
  constructor
  · intro h
    split at h
    · cases h
    · rename_i hgap
      split at h
      · cases h
      · split at h
        · cases h
        · rename_i hslash
          exact ⟨hgap, Bool.eq_false_iff.2 hslash⟩
  · rintro ⟨hgap, hslash⟩
    rw [hgap]
    cases hregex : regexLength? s with
    | none => simp [hslash]
    | some n =>
      rw [regexLength?_slash hregex] at hslash
      cases hslash

theorem starts_cons {w : String} {c : CodePoint} {s : Text} {v : Text}
    (hw : Text.ofString w = CodePoint.slash :: v) (h : nextIs (oneOf "/") (c :: s) = false) :
    starts w (c :: s) = false := by
  have hc : (CodePoint.slash == c) = false := by
    refine beq_false_of_ne fun hc => ?_
    subst hc
    cases h
  rw [starts, hw, List.isPrefixOf_cons_cons, hc, Bool.false_and]

theorem starts_line_of_not_slash {s : Text} (h : nextIs (oneOf "/") s = false) :
    starts "//" s = false := by
  cases s with
  | nil => rfl
  | cons c s => exact starts_cons rfl h

/-- Where two slashes stand there is a line comment. -/
theorem gap?_of_starts {s : Text} (h : starts "//" s = true) :
    gap? s = some (.lineComment, run (fun c => c.val != 0x0A) s) := by
  obtain ⟨rest, rfl⟩ := exists_of_starts h
  rfl

theorem starts_line_of_gap {s : Text} (h : (gap? s).map Prod.fst ≠ some .lineComment) :
    starts "//" s = false := by
  refine Bool.eq_false_iff.2 fun hstarts => h ?_
  rw [gap?_of_starts hstarts]
  rfl

theorem startsGapOrSlash_of_inOperand {s : Text} {m : Match} (h : inOperand s = some m) :
    startsGapOrSlash s = true := by
  by_contra hnone
  rw [startsGapOrSlash, Bool.or_eq_true, not_or] at hnone
  obtain ⟨hnext, hmark⟩ := hnone
  cases s with
  | nil => cases h
  | cons c s =>
    have hnext : c.isBlank = false ∧ c ≠ CodePoint.slash := by simpa [nextIs] using hnext
    obtain ⟨hblank, hplain⟩ := hnext
    have hslash : nextIs (oneOf "/") (c :: s) = false := by
      simpa [nextIs, oneOf, Text.ofString] using hplain
    have hgap : gap? (c :: s) = none := by
      rw [gap?, if_neg (by simpa [nextIs] using hblank), if_neg hmark,
        starts_cons rfl hslash, starts_cons rfl hslash]
      rfl
    rw [inOperand_eq_none_iff.2 ⟨hgap, hslash⟩] at h
    cases h

/-- A stack in whose mode code is read and a slash divides. -/
def Plain (stack : Stack) : Prop :=
  stack.head? ≠ some .template ∧ stack.head? ≠ some .operand ∧ stack.head? ≠ some .spoiled

instance (stack : Stack) : Decidable (Plain stack) :=
  inferInstanceAs (Decidable (_ ∧ _ ∧ _))

variable {before : Option CodePoint} {stack : Stack} {s : Text} {m : Match}

theorem next_template (h : stack.head? = some .template) :
    next before stack s = (inTemplate s, stack) := by
  obtain ⟨below, rfl⟩ := List.head?_eq_some_iff.1 h
  rfl

theorem next_operand (h : inOperand s = some m) :
    next before (.operand :: stack) s = (m, .operand :: stack) := by
  rw [next, h]

/-- A stack in whose mode code is read, by the mode. -/
theorem next_plain (hstack : Plain stack) :
    next before stack s =
      if stack.head? == some .hole && nextIs (fun c => c.val == 0x7D) s then
        (⟨.other, 1, .leave⟩, stack)
      else inLine before stack s := by
  obtain ⟨htemplate, hoperand, hspoiled⟩ := hstack
  match stack with
  | [] => rfl
  | .code :: below => rfl
  | .hole :: below => rfl
  | .template :: below => exact absurd rfl htemplate
  | .operand :: below => exact absurd rfl hoperand
  | .spoiled :: below => exact absurd rfl hspoiled

theorem inLine_eq (hhash : hashbangLength? s = none) :
    inLine before stack s =
      match if before.all (·.val == 0x0A) then inOperand s else none with
      | some m => (m, .operand :: stack)
      | none => (inCode (before.any CodePoint.isWord) s, stack) := by
  unfold inLine
  rw [hhash, ite_self]
  cases hopens : inOperand s with
  | none => simp only [ite_self]
  | some m =>
    cases before.all (·.val == 0x0A) <;> simp [startsGapOrSlash_of_inOperand hopens]

/-- The modes without the expectation of an operand. -/
def Stack.base : Stack → Stack
  | .operand :: below => below
  | stack => stack

theorem base_of_plain (hstack : Plain stack) : stack.base = stack := by
  obtain ⟨-, hoperand, -⟩ := hstack
  unfold Stack.base
  split
  · exact absurd rfl hoperand
  · rfl

/-- What stands where no operand can is not read by the heuristic for the start of a line, and an
    operand that was expected is not waited for. -/
theorem next_token (htemplate : stack.head? ≠ some .template)
    (hspoiled : stack.head? ≠ some .spoiled) (hhash : hashbangLength? s = none)
    (h : inOperand s = none) :
    next before stack s =
      if stack.base.head? == some .hole && nextIs (fun c => c.val == 0x7D) s then
        (⟨.other, 1, .leave⟩, stack.base)
      else (inCode (before.any CodePoint.isWord) s, stack.base) := by
  by_cases hoperand : stack.head? = some .operand
  · obtain ⟨below, rfl⟩ := List.head?_eq_some_iff.1 hoperand
    rw [next, h, Stack.base, inLine_eq hhash, h, ite_self]
  · have hplain : Plain stack := ⟨htemplate, hoperand, hspoiled⟩
    rw [next_plain hplain, base_of_plain hplain, inLine_eq hhash, h, ite_self]

theorem inCode_gap {kind : LexemeKind} {n : Nat} (hgap : gap? s = some (kind, n))
    (afterWord : Bool) : inCode afterWord s = ⟨kind, n, .stay⟩ := by
  unfold inCode
  rw [hgap]

theorem inOperand_gap {kind : LexemeKind} {n : Nat} (hgap : gap? s = some (kind, n)) :
    inOperand s = some ⟨kind, n, .stay⟩ := by
  rw [inOperand, hgap]

/-- White space, a comment or a slash is no interpreter line and no end of a hole. -/
theorem not_mark_of_inOperand (h : inOperand s = some m) :
    hashbangLength? s = none ∧ nextIs (fun c => c.val == 0x7D) s = false := by
  have hstarts := startsGapOrSlash_of_inOperand h
  cases s with
  | nil => exact ⟨rfl, rfl⟩
  | cons c s =>
    have hne (d : CodePoint) (hd : startsGapOrSlash (d :: s) = false) : (d == c) = false := by
      refine beq_false_of_ne fun hc => ?_
      rw [← hc, hd] at hstarts
      cases hstarts
    have hmark : (CodePoint.ofChar '#' == c) = false := hne _ rfl
    have hbrace : c.val ≠ 0x7D := fun hc => by
      have hc : (0x7D : CodePoint) = c := Fin.ext hc.symm
      exact absurd (hne 0x7D rfl) (by simp [hc])
    refine ⟨?_, beq_false_of_ne hbrace⟩
    have hfirst (w : String) (v : Text) (hw : Text.ofString w = CodePoint.ofChar '#' :: v) :
        starts w (c :: s) = false := by
      rw [starts, hw, List.isPrefixOf_cons_cons, hmark, Bool.false_and]
    rw [hashbangLength?, hfirst "#!/" _ rfl, hfirst "#! /" _ rfl]
    rfl

/-- The modes after white space or a comment: at the start of a line an operand is expected. -/
def Stack.opened (before : Option CodePoint) (stack : Stack) : Stack :=
  if stack.head? = some .operand then stack
  else if before.all (·.val == 0x0A) then .operand :: stack
  else stack

theorem opened_cases (before : Option CodePoint) (htemplate : stack.head? ≠ some .template)
    (hspoiled : stack.head? ≠ some .spoiled) :
    stack.opened before = stack ∨ Plain stack ∧ stack.opened before = .operand :: stack := by
  unfold Stack.opened
  split
  · exact .inl rfl
  · rename_i hoperand
    split
    · exact .inr ⟨⟨htemplate, hoperand, hspoiled⟩, rfl⟩
    · exact .inl rfl

/-- White space and comments are the same lexeme in every mode in which code is read. -/
theorem next_gap (before : Option CodePoint) {kind : LexemeKind} {n : Nat}
    (hgap : gap? s = some (kind, n)) (htemplate : stack.head? ≠ some .template)
    (hspoiled : stack.head? ≠ some .spoiled) :
    next before stack s = (⟨kind, n, .stay⟩, stack.opened before) := by
  have hopens := inOperand_gap hgap
  unfold Stack.opened
  by_cases hoperand : stack.head? = some .operand
  · obtain ⟨below, rfl⟩ := List.head?_eq_some_iff.1 hoperand
    exact next_operand hopens
  · have hplain : Plain stack := ⟨htemplate, hoperand, hspoiled⟩
    obtain ⟨hhash, hbrace⟩ := not_mark_of_inOperand hopens
    rw [if_neg hoperand, next_plain hplain, hbrace, Bool.and_false, if_neg Bool.false_ne_true,
      inLine_eq hhash, hopens, inCode_gap hgap]
    by_cases hstart : before.all (·.val == 0x0A) = true
    · rw [if_pos hstart, if_pos hstart]
    · rw [if_neg hstart, if_neg hstart]

/-! ## Places in a script -/

/-- Where the lexer stands, and whether the ends of lines before it matter. -/
structure Spot where
  /-- The code point before. -/
  before : Option CodePoint := none
  /-- The modes. -/
  stack : Stack := [.code]
  /-- Whether the last lexeme other than white space and comments expects an operand after it. -/
  expects : Bool := false
  /-- Whether a line has ended since that lexeme. -/
  broken : Bool := false

namespace Spot

variable (p : Spot) (s : Text)

/-- The length of the lexeme that is read next. -/
def length : Nat := max (next p.before p.stack s).1.length 1

/-- The lexeme that is read next. -/
def piece : Text := s.take (p.length s)

/-- The modes after that lexeme. -/
def modes : Stack := (next p.before p.stack s).2.apply (next p.before p.stack s).1.shift

/-- White space or a comment that is read next. -/
def gap? : Option LexemeKind :=
  if p.stack.head? = some .template then none else (Lexeme.gap? s).map Prod.fst

/-- Where the lexer stands after the next lexeme. -/
def after : Spot where
  before := (p.piece s).getLast?
  stack := p.modes s
  expects := if (p.gap? s).isSome then p.expects else (p.modes s).head? == some .operand
  broken :=
    if (p.gap? s).isSome then
      p.broken || p.gap? s == some .lineComment || (p.piece s).contains 0x0A
    else (p.piece s).getLast? == some 0x0A

/-- Nothing that is read next depends on which terminator ends the lines. -/
structure Calm : Prop where
  /-- A slash that opens a regular expression opens one that closes in its line. -/
  closed : .spoiled ∉ p.modes s
  /-- A line comment stands in no template string. -/
  outside : p.gap? s = some .lineComment → p.stack.base = [.code]
  /-- No interpreter line is read, and no backslash at the end of a line. -/
  unmarked : p.stack.head? ≠ some .template →
    hashbangLength? s = none ∧ starts "\\\n" s = false
  /-- A slash that is the first lexeme of its line stands where an operand is expected. -/
  divided : p.stack.head? ≠ some .template → p.gap? s = none → nextIs (oneOf "/") s = true →
    p.broken = true → p.expects = true

instance : Decidable (p.Calm s) :=
  decidable_of_iff
    (.spoiled ∉ p.modes s ∧ (p.gap? s = some .lineComment → p.stack.base = [.code]) ∧
      (p.stack.head? ≠ some .template → hashbangLength? s = none ∧ starts "\\\n" s = false) ∧
      (p.stack.head? ≠ some .template → p.gap? s = none → nextIs (oneOf "/") s = true →
        p.broken = true → p.expects = true))
    ⟨fun ⟨hclosed, houtside, hunmarked, hdivided⟩ => ⟨hclosed, houtside, hunmarked, hdivided⟩,
      fun h => ⟨h.closed, h.outside, h.unmarked, h.divided⟩⟩

/-- All lexemes that are read from here on are calm. -/
def SteadyFrom : Nat → Spot → Text → Prop
  | 0, _, _ => True
  | _ + 1, _, [] => True
  | fuel + 1, p, c :: s =>
    p.Calm (c :: s) ∧ SteadyFrom fuel (p.after (c :: s)) ((c :: s).drop (p.length (c :: s)))

instance decidableSteadyFrom : ∀ (fuel : Nat) (p : Spot) (s : Text),
    Decidable (p.SteadyFrom fuel s)
  | 0, _, _ => isTrue trivial
  | _ + 1, _, [] => isTrue trivial
  | fuel + 1, p, c :: s =>
    have := decidableSteadyFrom fuel (p.after (c :: s)) ((c :: s).drop (p.length (c :: s)))
    inferInstanceAs (Decidable (_ ∧ _))

end Spot

/-- Nothing in a script depends on which terminator ends its lines, except where lines end. -/
def Steady (s : Text) : Prop := Spot.SteadyFrom s.length {} s

instance : DecidablePred Steady := fun s =>
  inferInstanceAs (Decidable (Spot.SteadyFrom s.length {} s))

/-! ## Two lexers in step -/

/-- The modes of two lexers that read the same from here on. -/
inductive Alike (expects : Bool) : Stack → Stack → Prop where
  | same {stack : Stack} : (expects = true → stack.head? = some .operand) →
      Alike expects stack stack
  | fewer {stack : Stack} : expects = false → Plain stack →
      Alike expects (.operand :: stack) stack
  | more {stack : Stack} : expects = false → Plain stack →
      Alike expects stack (.operand :: stack)

namespace Alike

variable {expects : Bool} {stack stack' : Stack}

theorem base_eq (h : Alike expects stack stack') : stack'.base = stack.base := by
  cases h with
  | same => rfl
  | fewer _ hplain => exact base_of_plain hplain
  | more _ hplain => exact (base_of_plain hplain).symm

theorem of_expects (h : Alike true stack stack') :
    stack' = stack ∧ stack.head? = some .operand := by
  cases h with
  | same hexpects => exact ⟨rfl, hexpects rfl⟩
  | fewer hexpects => cases hexpects
  | more hexpects => cases hexpects

theorem head_of_expects (h : Alike expects stack stack') (hexpects : expects = true) :
    stack.head? = some .operand := by
  subst hexpects
  exact h.of_expects.2

theorem of_template (h : Alike expects stack stack') (htemplate : stack.head? = some .template) :
    stack' = stack := by
  cases h with
  | same => rfl
  | fewer => cases htemplate
  | more _ hplain => exact absurd htemplate hplain.1

/-- The second lexer reads code where the first one does. -/
theorem head_ne (h : Alike expects stack stack') (htemplate : stack.head? ≠ some .template)
    (hspoiled : stack.head? ≠ some .spoiled) :
    stack'.head? ≠ some .template ∧ stack'.head? ≠ some .spoiled := by
  cases h with
  | same => exact ⟨htemplate, hspoiled⟩
  | fewer _ hplain => exact ⟨hplain.1, hplain.2.2⟩
  | more => exact ⟨nofun, nofun⟩

/-- White space and comments, after which one lexer may expect an operand. -/
theorem gap (h : Alike expects stack stack') {next next' : Stack}
    (hnext : next = stack ∨ Plain stack ∧ next = .operand :: stack)
    (hnext' : next' = stack' ∨ Plain stack' ∧ next' = .operand :: stack') :
    Alike expects next next' := by
  have hexpects (hplain : Plain stack) : expects = false := by
    cases h with
    | same hhead => exact Bool.eq_false_iff.2 fun he => hplain.2.1 (hhead he)
    | fewer he => exact he
    | more he => exact he
  rcases hnext with rfl | ⟨hplain, rfl⟩ <;> rcases hnext' with rfl | ⟨hplain', rfl⟩
  · exact h
  · cases h with
    | same hhead => exact .more (hexpects hplain') hplain'
    | fewer he => exact .same fun _ => rfl
    | more => exact absurd rfl hplain'.2.1
  · cases h with
    | same hhead => exact .fewer (hexpects hplain) hplain
    | fewer => exact absurd rfl hplain.2.1
    | more he => exact .same fun _ => rfl
  · cases h with
    | same hhead => exact .same fun _ => rfl
    | fewer => exact absurd rfl hplain.2.1
    | more => exact absurd rfl hplain'.2.1

end Alike

/-- A lexer of the text with `t` at its line ends is in step with one of the text. -/
structure InStep (t : CodePoint) (p : Spot) (before : Option CodePoint) (stack : Stack) : Prop where
  alike : Alike p.expects p.stack stack
  same : p.broken = false →
    stack = p.stack ∧ before = p.before.map (·.reline t) ∧ p.before ≠ some 0x0A
  word : before.any CodePoint.isWord = p.before.any CodePoint.isWord
  unspoiled : .spoiled ∉ p.stack

section

variable {t : CodePoint} (ht : t.isLineEnd = true) (hlf : t.val ≠ 0x0A) {p : Spot}

theorem InStep.code (h : InStep t p before stack) (hcode : p.stack.head? ≠ some .template) :
    p.stack.head? ≠ some .spoiled ∧ stack.head? ≠ some .template ∧
      stack.head? ≠ some .spoiled := by
  have hspoiled : p.stack.head? ≠ some .spoiled := fun hhead =>
    h.unspoiled (List.mem_of_mem_head? hhead)
  exact ⟨hspoiled, h.alike.head_ne hcode hspoiled⟩

/-- Where no line has ended the two lexers see the start of the text or neither sees one of a
    line. -/
theorem InStep.lineStart (h : InStep t p before stack) (hbroken : p.broken = false) :
    before.all (·.val == 0x0A) = p.before.all (·.val == 0x0A) := by
  obtain ⟨-, rfl, hbefore⟩ := h.same hbroken
  cases hp : p.before with
  | none => rfl
  | some c =>
    have hc : c.val ≠ 0x0A := by
      intro hc
      rw [hp] at hbefore
      exact hbefore (congrArg some (Fin.ext hc))
    rw [Option.map_some, CodePoint.reline_of_ne hc]

include ht

theorem any_reline {q : CodePoint → Bool} (hq : Blind q) (c : Option CodePoint) :
    (c.map (·.reline t)).any q = c.any q := by
  cases c with
  | none => rfl
  | some c => exact hq.reline ht c

/-- After a lexeme that both lexers read with the same modes. -/
theorem inStep_token (hgap : p.gap? s = none) (hclosed : .spoiled ∉ p.modes s) :
    InStep t (p.after s) (((p.piece s).reline t).getLast?) (p.modes s) := by
  have hafter : p.after s = ⟨(p.piece s).getLast?, p.modes s, (p.modes s).head? == some .operand,
      (p.piece s).getLast? == some 0x0A⟩ := by
    simp [Spot.after, hgap]
  rw [hafter, Text.getLast?_reline]
  refine ⟨.same fun hexpects => by simpa using hexpects, fun hbroken => ⟨rfl, rfl, ?_⟩,
    any_reline ht Blind.isWord _, hclosed⟩
  simpa using hbroken

/-- In a template string. -/
theorem InStep.next_template (h : InStep t p before stack)
    (htemplate : p.stack.head? = some .template) :
    Lexeme.next before stack (s.reline t) = Lexeme.next p.before p.stack s := by
  rw [h.alike.of_template htemplate, Lexeme.next_template htemplate,
    Lexeme.next_template htemplate, inTemplate_reline ht]

theorem inOperand_reline_none (h : inOperand s = none) : inOperand (s.reline t) = none := by
  obtain ⟨hgap, hslash⟩ := inOperand_eq_none_iff.1 h
  rw [inOperand_eq_none_iff, gap?_reline ht (starts_line_of_not_slash hslash),
    nextIs_oneOf_reline ht (by decide)]
  exact ⟨hgap, hslash⟩

include hlf

/-- A lexeme that is no white space, no comment and no slash. -/
theorem InStep.next_token (h : InStep t p before stack) (hcode : p.stack.head? ≠ some .template)
    (hhash : hashbangLength? s = none) (hsplice : starts "\\\n" s = false)
    (hnone : inOperand s = none) :
    Lexeme.next before stack (s.reline t) = Lexeme.next p.before p.stack s := by
  obtain ⟨hspoiled, hcode', hspoiled'⟩ := h.code hcode
  have hbrace : Blind fun c => c.val == 0x7D := .of_terminators (by decide)
  have hline := starts_line_of_not_slash (inOperand_eq_none_iff.1 hnone).2
  rw [Lexeme.next_token hcode hspoiled hhash hnone,
    Lexeme.next_token hcode' hspoiled' (hashbangLength?_reline ht hhash)
      (inOperand_reline_none ht hnone),
    h.alike.base_eq, h.word, nextIs_reline ht hbrace, inCode_reline ht hline hsplice hlf]

/-- A slash that is no comment. -/
theorem InStep.next_slash (h : InStep t p before stack) (hcalm : p.Calm s)
    (hcode : p.stack.head? ≠ some .template) (hgap : Lexeme.gap? s = none)
    (hslash : nextIs (oneOf "/") s = true) :
    Lexeme.next before stack (s.reline t) = Lexeme.next p.before p.stack s := by
  have hline : starts "//" s = false := starts_line_of_gap (by simp [hgap])
  obtain ⟨hhash, hsplice⟩ := hcalm.unmarked hcode
  obtain ⟨m, hm⟩ : ∃ m, inOperand s = some m := by
    refine Option.ne_none_iff_exists'.1 fun hnone => ?_
    rw [(inOperand_eq_none_iff.1 hnone).2] at hslash
    cases hslash
  have hm' (hclosed : m.shift ≠ .replace .spoiled) : inOperand (s.reline t) = some m :=
    inOperand_reline ht hline hm hclosed
  have hstack : stack = p.stack ∧ (p.stack.head? ≠ some .operand → p.broken = false) := by
    cases hbroken : p.broken with
    | false => exact ⟨(h.same hbroken).1, fun _ => rfl⟩
    | true =>
      have hexpects := hcalm.divided hcode (by simp [Spot.gap?, hgap]) hslash hbroken
      have halike := h.alike
      rw [hexpects] at halike
      exact ⟨halike.of_expects.1, fun hhead => absurd halike.of_expects.2 hhead⟩
  obtain ⟨rfl, hbroken⟩ := hstack
  have hclosed := hcalm.closed
  unfold Spot.modes at hclosed
  by_cases hoperand : p.stack.head? = some .operand
  · obtain ⟨below, hbelow⟩ := List.head?_eq_some_iff.1 hoperand
    rw [hbelow, next_operand hm] at hclosed ⊢
    refine next_operand (hm' fun hspoils => hclosed ?_)
    dsimp only
    rw [hspoils]
    exact List.mem_cons_self
  · have hplain : Plain p.stack := ⟨hcode, hoperand, (h.code hcode).1⟩
    have hbrace : Blind fun c => c.val == 0x7D := .of_terminators (by decide)
    have hhole := (not_mark_of_inOperand hm).2
    have hnext : next p.before p.stack s = inLine p.before p.stack s := by
      rw [next_plain hplain, hhole, Bool.and_false, if_neg Bool.false_ne_true]
    have hnext' : next before p.stack (s.reline t) = inLine before p.stack (s.reline t) := by
      rw [next_plain hplain, nextIs_reline ht hbrace, hhole, Bool.and_false,
        if_neg Bool.false_ne_true]
    rw [hnext', inLine_eq (hashbangLength?_reline ht hhash), h.lineStart (hbroken hoperand), h.word,
      inCode_reline ht hline hsplice hlf]
    rw [hnext, inLine_eq hhash, hm] at hclosed ⊢
    by_cases hstart : p.before.all (·.val == 0x0A) = true
    · rw [if_pos hstart] at hclosed
      rw [if_pos hstart, if_pos hstart, hm' fun hspoils => hclosed ?_]
      dsimp only
      rw [hspoils]
      exact List.mem_cons_self
    · rw [if_neg hstart, if_neg hstart]

omit hlf in
/-- White space or a block comment. -/
theorem InStep.next_gap (h : InStep t p before stack) (hcalm : p.Calm s)
    (hcode : p.stack.head? ≠ some .template) {kind : LexemeKind} {n : Nat}
    (hgap : Lexeme.gap? s = some (kind, n)) (hkind : kind ≠ .lineComment) :
    (Lexeme.next p.before p.stack s).1 = ⟨kind, n, .stay⟩ ∧
      Lexeme.next before stack (s.reline t) = (⟨kind, n, .stay⟩, stack.opened before) ∧
        InStep t (p.after s) (((p.piece s).reline t).getLast?) (stack.opened before) := by
  obtain ⟨hspoiled, hcode', hspoiled'⟩ := h.code hcode
  have hline : starts "//" s = false := starts_line_of_gap (by simp [hgap, hkind])
  have hgap' : Lexeme.gap? (s.reline t) = some (kind, n) := by rw [gap?_reline ht hline, hgap]
  have hnext := Lexeme.next_gap p.before hgap hcode hspoiled
  have hmodes : p.modes s = p.stack.opened p.before := by
    rw [Spot.modes, hnext]
    rfl
  have hafter : p.after s = ⟨(p.piece s).getLast?, p.stack.opened p.before, p.expects,
      p.broken || (p.piece s).contains 0x0A⟩ := by
    have hgapped : p.gap? s = some kind := by simp [Spot.gap?, hcode, hgap]
    have hother : (kind == .lineComment) = false := beq_false_of_ne hkind
    simp [Spot.after, hgapped, hother, hmodes]
  refine ⟨by rw [hnext], Lexeme.next_gap _ hgap' hcode' hspoiled', ?_⟩
  rw [hafter, Text.getLast?_reline]
  refine ⟨h.alike.gap (opened_cases _ hcode hspoiled) (opened_cases _ hcode' hspoiled'),
    fun hbroken => ?_, any_reline ht Blind.isWord _, ?_⟩
  · obtain ⟨hwhole, hpiece⟩ := Bool.or_eq_false_iff.1 hbroken
    refine ⟨?_, rfl, fun hlast => ?_⟩
    · rw [Stack.opened, Stack.opened, h.lineStart hwhole, (h.same hwhole).1]
    · have hmem := List.mem_of_getLast? hlast
      rw [List.contains_eq_mem, decide_eq_false_iff_not] at hpiece
      exact hpiece hmem
  · rw [← hmodes]
    exact hcalm.closed

include hlf

/-- Two lexers in step read the same lexeme, unless it is a line comment. -/
theorem InStep.next (h : InStep t p before stack) (hcalm : p.Calm s)
    (hline : p.gap? s ≠ some .lineComment) :
    (Lexeme.next before stack (s.reline t)).1 = (Lexeme.next p.before p.stack s).1 ∧
      InStep t (p.after s) (((p.piece s).reline t).getLast?)
        ((Lexeme.next before stack (s.reline t)).2.apply
          (Lexeme.next before stack (s.reline t)).1.shift) := by
  by_cases hcode : p.stack.head? = some .template
  · rw [h.next_template ht hcode]
    exact ⟨rfl, inStep_token ht (by simp [Spot.gap?, hcode]) hcalm.closed⟩
  · cases hgap : Lexeme.gap? s with
    | some found =>
      obtain ⟨kind, n⟩ := found
      have hkind : kind ≠ .lineComment := by simpa [Spot.gap?, hcode, hgap] using hline
      obtain ⟨hnext, hnext', hstep⟩ := h.next_gap ht hcalm hcode hgap hkind
      rw [hnext, hnext']
      exact ⟨rfl, hstep⟩
    | none =>
      have hnone : p.gap? s = none := by simp [Spot.gap?, hgap]
      have hnext : Lexeme.next before stack (s.reline t) = Lexeme.next p.before p.stack s := by
        cases hslash : nextIs (oneOf "/") s with
        | true => exact h.next_slash ht hlf hcalm hcode hgap hslash
        | false =>
          obtain ⟨hhash, hsplice⟩ := hcalm.unmarked hcode
          exact h.next_token ht hlf hcode hhash hsplice (inOperand_eq_none_iff.2 ⟨hgap, hslash⟩)
      rw [hnext]
      exact ⟨rfl, inStep_token ht hnone hcalm.closed⟩

end

end Lexeme

end GuardedText
