import Mathlib.Data.List.Basic
import Mathlib.Data.List.TakeWhile
import Mathlib.Data.Option.Basic
import GuardedText.Proofs.Comment.Steady

/-
  The directives of a script with other line terminators. The lexer ends a line comment at a line feed
  only, so in the relined text a comment takes the rest of the script with it, and that rest is read anew
  by a lexer that knows nothing of the modes before. By `Comment.find_reline` it finds the comments of
  the script with line feeds if the script is steady, and then the directives are the same
  (`Directive.scan_reline`). A line comment in the hole of a template string is where they are not:
  the text of the string after the hole is taken for code (`Directive.scan_reline_hole`).
-/

namespace GuardedText

open Lexeme

namespace Comment

/-- The comment with `t` at its line ends. -/
def reline (c : Comment) (t : CodePoint) : Comment :=
  if c.block then { c with text := c.text.reline t } else c

/-- The comments that are found from a place in a script on. -/
def foundFrom (again : Nat → Text → List Comment) :
    Nat → Option CodePoint → Stack → Nat → Text → List Comment
  | 0, _, _, _, _ => []
  | _ + 1, _, _, _, [] => []
  | fuel + 1, before, stack, offset, c :: s =>
    let m := (next before stack (c :: s)).1
    let n := max m.length 1
    let piece := (c :: s).take n
    ofLexeme again offset ⟨m.kind, 0, piece⟩ ++
      foundFrom again fuel piece.getLast? ((next before stack (c :: s)).2.apply m.shift)
        (offset + n) ((c :: s).drop n)

variable {again : Nat → Text → List Comment}

theorem flatMap_scanFrom (fuel : Nat) (before : Option CodePoint) (stack : Stack)
    (offset start : Nat) (s : Text) :
    (scanFrom fuel before stack start s).flatMap (ofLexeme again offset) =
      foundFrom again fuel before stack (offset + start) s := by
  induction fuel generalizing before stack start s with
  | zero => rfl
  | succ fuel ih =>
    cases s with
    | nil => rfl
    | cons c s =>
      rw [scanFrom, foundFrom]
      dsimp only
      rw [List.flatMap_cons, ih, ofLexeme_eq, Nat.add_assoc]

/-- The comments of a text, by the place where it starts. -/
theorem within_succ (k offset : Nat) (s : Text) :
    within (k + 1) offset s = foundFrom (within k) s.length none [.code] offset s :=
  flatMap_scanFrom ..

/-- A lexer that has as many steps as there are code points left reads to the end. -/
theorem foundFrom_fuel {f g : Nat} {s : Text} (hf : s.length ≤ f) (hg : s.length ≤ g)
    (before : Option CodePoint) (stack : Stack) (offset : Nat) :
    foundFrom again f before stack offset s = foundFrom again g before stack offset s := by
  induction f generalizing g before stack offset s with
  | zero =>
    obtain rfl := List.eq_nil_of_length_eq_zero (Nat.le_zero.1 hf)
    cases g <;> rfl
  | succ f ih =>
    cases s with
    | nil => cases g <;> rfl
    | cons c s =>
      obtain ⟨g, rfl⟩ : ∃ k, g = k + 1 := ⟨g - 1, by simp at hg; omega⟩
      simp only [List.length_cons] at hf hg
      rw [foundFrom, foundFrom, ih]
      · rw [List.length_drop, List.length_cons]
        omega
      · rw [List.length_drop, List.length_cons]
        omega

/-! ## After a line comment -/

variable {t : CodePoint} (ht : t.isLineEnd = true)

include ht

theorem isWord_lineEnd : CodePoint.isWord t = false := by
  rw [Blind.isWord t 0x0A ht rfl]
  decide

theorem isBlank_lineEnd : CodePoint.isBlank t = true := by
  rw [Blind.isBlank t 0x0A ht rfl]
  decide

/-- A text that is read anew is read as one where an operand is expected. -/
theorem foundFrom_fresh {s : Text} (hhash : hashbangLength? s = none) (fuel offset : Nat) :
    foundFrom again fuel none [.code] offset s =
      foundFrom again fuel (some t) [.operand, .code] offset s := by
  have hnext : next none [.code] s = next (some t) [.operand, .code] s := by
    have hcode : Plain [.code] := by decide
    cases hopens : inOperand s with
    | some m =>
      rw [next_operand hopens, next_plain hcode, (not_mark_of_inOperand hopens).2, Bool.and_false,
        if_neg Bool.false_ne_true, inLine_eq hhash, hopens]
      rfl
    | none =>
      rw [next_token (by decide) (by decide) hhash hopens,
        next_token (by decide) (by decide) hhash hopens, Option.any_some, isWord_lineEnd ht]
      rfl
  cases fuel with
  | zero => rfl
  | succ fuel =>
    cases s with
    | nil => rfl
    | cons c s => rw [foundFrom, hnext, foundFrom]

omit ht in
/-- White space where an operand is expected holds no comments. -/
theorem foundFrom_blank {c : CodePoint} {s : Text} (hc : c.isBlank = true) (fuel : Nat)
    (before : Option CodePoint) (offset : Nat) :
    foundFrom again (fuel + 1) before [.operand, .code] offset (c :: s) =
      foundFrom again fuel ((c :: s.takeWhile CodePoint.isBlank).getLast?) [.operand, .code]
        (offset + (run CodePoint.isBlank s + 1)) (s.drop (run CodePoint.isBlank s)) := by
  have hrun : run CodePoint.isBlank (c :: s) = run CodePoint.isBlank s + 1 := by
    simp [run, hc]
  have hgap : gap? (c :: s) = some (.other, run CodePoint.isBlank s + 1) := by
    rw [gap?, if_pos (by simpa [nextIs] using hc), hrun]
  have htake : s.take (run CodePoint.isBlank s) = s.takeWhile CodePoint.isBlank :=
    (List.prefix_iff_eq_take.1 (List.takeWhile_prefix _)).symm
  rw [foundFrom, next_operand (inOperand_gap hgap)]
  simp only [Stack.apply, Nat.max_eq_left (Nat.le_add_left 1 _), List.take_succ_cons,
    List.drop_succ_cons, htake]
  rfl

/-- The end of a line is read with the white space after it. -/
theorem foundFrom_lineEnd (before : Option CodePoint) (offset : Nat) (s : Text) :
    foundFrom again (s.length + 1) before [.operand, .code] offset (t :: s) =
      foundFrom again s.length (some t) [.operand, .code] (offset + 1) s := by
  rw [foundFrom_blank (isBlank_lineEnd ht)]
  cases s with
  | nil => rfl
  | cons c s =>
    cases hc : c.isBlank with
    | false => simp [run, hc]
    | true =>
      have hrun : run CodePoint.isBlank (c :: s) = run CodePoint.isBlank s + 1 := by
        simp [run, hc]
      rw [List.length_cons, foundFrom_blank hc, hrun, List.drop_succ_cons,
        List.takeWhile_cons_of_pos hc, List.getLast?_cons_cons, Nat.add_right_comm offset 1]
      have hrest : (s.drop (run CodePoint.isBlank s)).length ≤ s.length := by
        rw [List.length_drop]
        omega
      exact foundFrom_fuel (Nat.le_succ_of_le hrest) hrest ..

/-! ## Comments of both texts -/

omit ht in
/-- A line without a terminator is not split. -/
theorem splitLine_of_open {line : Text} (hline : ∀ c ∈ line, c.isLineEnd = false) :
    splitLine line = (line, none) := by
  induction line with
  | nil => rfl
  | cons c line ih =>
    obtain ⟨hc, hline⟩ := List.forall_mem_cons.1 hline
    have hnone : Text.afterLineEnd? (c :: line) = none := by simp [Text.afterLineEnd?, hc]
    rw [splitLine, hnone, ih hline]

/-- A line is split at a terminator that no line feed follows. -/
theorem splitLine_append {line more : Text} (hline : ∀ c ∈ line, c.isLineEnd = false)
    (hmore : ∀ c ∈ more, c.val ≠ 0x0A) :
    splitLine (line ++ t :: more) = (line, some more) := by
  induction line with
  | nil =>
    have hsome : Text.afterLineEnd? (t :: more) = some more := by
      cases more with
      | nil => simp [Text.afterLineEnd?, ht]
      | cons d more => simp [Text.afterLineEnd?, ht, hmore d List.mem_cons_self]
    rw [List.nil_append, splitLine, hsome]
  | cons c line ih =>
    obtain ⟨hc, hline⟩ := List.forall_mem_cons.1 hline
    have hnone : Text.afterLineEnd? (c :: (line ++ t :: more)) = none := by
      simp [Text.afterLineEnd?, hc]
    rw [List.cons_append, splitLine, hnone, ih hline]

omit ht in
theorem reline_of_ne {s : Text} (h : ∀ c ∈ s, c.val ≠ 0x0A) : s.reline t = s :=
  (List.map_congr_left fun c hc => CodePoint.reline_of_ne (h c hc) t).trans (List.map_id s)

omit ht in
/-- A lexeme that is no line comment. -/
theorem ofLexeme_reline {kind : LexemeKind} (hkind : kind ≠ .lineComment)
    (again' : Nat → Text → List Comment) (offset : Nat) (piece : Text) :
    ofLexeme again' offset ⟨kind, 0, piece.reline t⟩ =
      (ofLexeme again offset ⟨kind, 0, piece⟩).map (·.reline t) := by
  cases kind with
  | other => rfl
  | lineComment => exact absurd rfl hkind
  | blockComment => simp [ofLexeme, reline, Text.drop_reline, Text.take_reline]

omit ht in
/-- The comments of the next lexeme and those after it. -/
theorem foundFrom_cons (f : Nat) (p : Spot) (offset : Nat) (c : CodePoint) (s : Text) :
    foundFrom again (f + 1) p.before p.stack offset (c :: s) =
      ofLexeme again offset ⟨(next p.before p.stack (c :: s)).1.kind, 0, p.piece (c :: s)⟩ ++
        foundFrom again f (p.after (c :: s)).before (p.after (c :: s)).stack
          (offset + p.length (c :: s)) ((c :: s).drop (p.length (c :: s))) :=
  rfl

omit ht in
/-- A lexeme that is a line comment stands in code. -/
theorem gap?_of_kind {p : Spot} {s : Text}
    (h : (next p.before p.stack s).1.kind = .lineComment) : p.gap? s = some .lineComment := by
  have hgap := foundAsGap_next p.before p.stack s (by rw [h]; decide)
  by_cases hcode : p.stack.head? = some .template
  · rw [next_template hcode] at h
    have hother : (inTemplate s).kind = .other := by
      unfold inTemplate
      repeat' split
      all_goals rfl
    rw [hother] at h
    cases h
  · rw [Spot.gap?, if_neg hcode, hgap, h]
    rfl

omit ht in
/-- A line comment and what follows it. -/
theorem line_split {s : Text} {n : Nat} (h : gap? s = some (.lineComment, n)) :
    ∃ line, n = line.length ∧ 2 ≤ n ∧ (∀ c ∈ line, c.val ≠ 0x0A) ∧
      (s = line ∨ ∃ more, s = line ++ 0x0A :: more) := by
  obtain ⟨hstarts, rfl⟩ := gap?_lineComment h
  obtain ⟨rest, rfl⟩ := exists_of_starts hstarts
  refine ⟨_, rfl, run_line_pos rest, fun c hc => by simpa using List.mem_takeWhile_imp hc, ?_⟩
  have hsplit := List.takeWhile_append_dropWhile (p := fun c : CodePoint => c.val != 0x0A)
    (l := Text.ofString "//" ++ rest)
  have hnot := List.head?_dropWhile_not (fun c : CodePoint => c.val != 0x0A)
    (Text.ofString "//" ++ rest)
  cases hdrop : (Text.ofString "//" ++ rest).dropWhile fun c : CodePoint => c.val != 0x0A with
  | nil =>
    rw [hdrop, List.append_nil] at hsplit
    exact .inl hsplit.symm
  | cons c more =>
    rw [hdrop] at hsplit hnot
    have hlf : c.val = 0x0A := by simpa using hnot
    have hc : c = 0x0A := Fin.ext hlf
    exact .inr ⟨more, by rw [← hc, hsplit]⟩

omit ht in
/-- After the end of a line no interpreter line is read. -/
theorem hashbang_of_steady {f : Nat} {p : Spot} {more : Text}
    (hcode : p.stack.head? ≠ some .template) (hspoiled : p.stack.head? ≠ some .spoiled)
    (hsteady : p.SteadyFrom f (0x0A :: more)) (hf : more.length + 1 ≤ f) :
    hashbangLength? more = none := by
  cases more with
  | nil => rfl
  | cons c more =>
    obtain ⟨f, rfl⟩ : ∃ g, f = g + 2 := ⟨f - 2, by simp at hf; omega⟩
    cases hc : c.isBlank with
    | true =>
      have hgap : gap? (c :: more) = some (.other, run CodePoint.isBlank (c :: more)) := by
        rw [gap?, if_pos (by simpa [nextIs] using hc)]
      exact (not_mark_of_inOperand (inOperand_gap hgap)).1
    | false =>
      have hgap : gap? (0x0A :: c :: more) = some (.other, 1) := by
        have hlf : CodePoint.isBlank 0x0A = true := by decide
        rw [gap?, if_pos (by simpa [nextIs] using hlf)]
        simp [run, hlf, hc]
      have hnext := next_gap p.before hgap hcode hspoiled
      obtain ⟨-, hsteady⟩ := hsteady
      rw [Spot.length, hnext] at hsteady
      refine (hsteady.1.unmarked ?_).1
      change (p.modes (0x0A :: c :: more)).head? ≠ _
      rw [Spot.modes, hnext]
      rcases opened_cases p.before hcode hspoiled with hopened | ⟨-, hopened⟩
      · rw [hopened]
        exact hcode
      · rw [hopened]
        exact (Option.some_injective _).ne (by decide : Mode.operand ≠ .template)

omit ht in
/-- A line comment that the lexer ends at the end of its line. -/
theorem foundFrom_open {f : Nat} {before : Option CodePoint} {stack : Stack} {line rest : Text}
    (hgap : gap? (line ++ rest) = some (.lineComment, line.length))
    (hcode : stack.head? ≠ some .template) (hspoiled : stack.head? ≠ some .spoiled)
    (hline : ∀ c ∈ line, c.isLineEnd = false) (hlong : 2 ≤ line.length) (offset : Nat) :
    foundFrom again (f + 1) before stack offset (line ++ rest) =
      ⟨offset, offset + line.length, line.drop 2, false⟩ ::
        foundFrom again f line.getLast? (stack.opened before) (offset + line.length) rest := by
  have hnext := next_gap before hgap hcode hspoiled
  have htake : (line ++ rest).take line.length = line := List.take_left
  have hdrop : (line ++ rest).drop line.length = rest := List.drop_left
  obtain ⟨c, u, hu⟩ : ∃ c u, line ++ rest = c :: u := by
    refine List.exists_cons_of_ne_nil fun hnil => ?_
    rw [(List.append_eq_nil_iff.1 hnil).1] at hlong
    simp at hlong
  rw [hu] at hnext htake hdrop ⊢
  rw [foundFrom, hnext]
  dsimp only
  rw [Nat.max_eq_left (by omega), htake, hdrop, ofLexeme, splitLine_of_open hline]
  rfl

omit ht in
/-- After a line comment outside of template strings a lexer is in step with one that starts
    anew. -/
theorem alike_fresh {expects : Bool} {before : Option CodePoint} {stack : Stack}
    (hbase : stack.base = [.code]) (hexpects : expects = true → stack.head? = some .operand) :
    Alike expects (stack.opened before) [.operand, .code] := by
  by_cases hoperand : stack.head? = some .operand
  · obtain ⟨below, rfl⟩ := List.head?_eq_some_iff.1 hoperand
    obtain rfl : below = [.code] := hbase
    exact .same fun _ => rfl
  · have hstack : stack = [.code] := by
      rw [← hbase, Stack.base]
      rintro below rfl
      exact hoperand rfl
    subst hstack
    have hcode : Plain [.code] := by decide
    rcases opened_cases before hcode.1 hcode.2.2 with
      hopened | ⟨-, hopened⟩
    · rw [hopened]
      exact .more (Bool.eq_false_iff.2 fun he => hoperand (hexpects he)) (by decide)
    · rw [hopened]
      exact .same fun _ => rfl

/-- The line comment of the text with `t` at its line ends: what the lexer took with it is read
    anew. -/
theorem foundFrom_line {f k : Nat} {stack : Stack} {line more : Text}
    {n : Nat} (hgap : gap? (line ++ t :: more) = some (.lineComment, n))
    (hcode : stack.head? ≠ some .template) (hspoiled : stack.head? ≠ some .spoiled)
    (hline : ∀ c ∈ line, c.isLineEnd = false) (hmore : ∀ c ∈ more, c.val ≠ 0x0A)
    (hlf : t.val ≠ 0x0A) (hhash : hashbangLength? more = none) (offset : Nat)
    (before before' : Option CodePoint) :
    foundFrom (within (k + 1)) (f + 1) before stack offset (line ++ t :: more) =
      ⟨offset, offset + line.length, line.drop 2, false⟩ ::
        foundFrom (within k) (more.length + 1) before' [.operand, .code] (offset + line.length)
          (t :: more) := by
  have hnext := next_gap before hgap hcode hspoiled
  have hall : ∀ c ∈ line ++ t :: more, (c.val != 0x0A) = true := by
    simp only [List.mem_append, List.mem_cons, bne_iff_ne]
    rintro c (hc | rfl | hc)
    · intro h
      have hopen := hline c hc
      simp [CodePoint.isLineEnd, h] at hopen
    · exact hlf
    · exact hmore c hc
  have hn : n = (line ++ t :: more).length := by
    rw [(gap?_lineComment hgap).2, run, List.takeWhile_eq_self_iff.2 hall]
  have hsplit := splitLine_append ht hline hmore
  have hlength : (line ++ t :: more).length - more.length = line.length + 1 := by
    simp
    omega
  have hwithin : within (k + 1) (offset + 0 + (line.length + 1)) more =
      foundFrom (within k) (more.length + 1) before' [.operand, .code] (offset + line.length)
        (t :: more) := by
    rw [within_succ, foundFrom_fresh ht hhash, foundFrom_lineEnd ht]
    rfl
  have hfound : ofLexeme (within (k + 1)) offset ⟨.lineComment, 0, line ++ t :: more⟩ =
      ⟨offset, offset + line.length, line.drop 2, false⟩ ::
        within (k + 1) (offset + 0 + (line.length + 1)) more := by
    simp only [ofLexeme, hsplit, Option.elim_some, hlength]
    rfl
  obtain ⟨c, u, hu⟩ : ∃ c u, line ++ t :: more = c :: u :=
    List.exists_cons_of_ne_nil (by simp)
  rw [hu] at hnext hn hfound ⊢
  have hmax : max n 1 = (c :: u).length := by
    rw [hn, List.length_cons]
    omega
  rw [foundFrom, hnext]
  dsimp only
  rw [hmax, List.take_length, List.drop_length, hfound, hwithin]
  cases f <;> simp [foundFrom]

omit ht in
/-- Where the lexer stands after a line comment. -/
theorem after_lineComment {p : Spot} {line rest : Text}
    (hgap : gap? (line ++ rest) = some (.lineComment, line.length))
    (hcode : p.stack.head? ≠ some .template) (hspoiled : p.stack.head? ≠ some .spoiled)
    (hlong : 2 ≤ line.length) :
    p.length (line ++ rest) = line.length ∧
      p.modes (line ++ rest) = p.stack.opened p.before ∧
        p.after (line ++ rest) = ⟨line.getLast?, p.stack.opened p.before, p.expects, true⟩ := by
  have hnext := next_gap p.before hgap hcode hspoiled
  have hlength : p.length (line ++ rest) = line.length := by
    rw [Spot.length, hnext]
    change max line.length 1 = line.length
    omega
  have hmodes : p.modes (line ++ rest) = p.stack.opened p.before := by
    rw [Spot.modes, hnext]
    rfl
  have hpiece : p.piece (line ++ rest) = line := by
    rw [Spot.piece, hlength, List.take_left]
  have hgapped : p.gap? (line ++ rest) = some .lineComment := by
    rw [Spot.gap?, if_neg hcode, hgap]
    rfl
  refine ⟨hlength, hmodes, ?_⟩
  simp [Spot.after, hgapped, hmodes, hpiece]

omit ht in
/-- After a line comment the lexer of the other text is in step when it starts anew. -/
theorem inStep_afterLine {p : Spot} {before : Option CodePoint} {stack : Stack} {line rest : Text}
    (h : InStep t p before stack) (hcalm : p.Calm (line ++ rest))
    (hgap : gap? (line ++ rest) = some (.lineComment, line.length))
    (hcode : p.stack.head? ≠ some .template) (hlong : 2 ≤ line.length) :
    InStep t ⟨line.getLast?, p.stack.opened p.before, p.expects, true⟩ line.getLast?
      [.operand, .code] := by
  obtain ⟨-, hmodes, -⟩ := after_lineComment hgap hcode (h.code hcode).1 hlong
  have hgapped : p.gap? (line ++ rest) = some .lineComment := by
    rw [Spot.gap?, if_neg hcode, hgap]
    rfl
  refine ⟨alike_fresh (hcalm.outside hgapped) h.alike.head_of_expects,
    fun hbroken => absurd hbroken Bool.false_ne_true.symm, rfl, ?_⟩
  rw [← hmodes]
  exact hcalm.closed

/-- A line comment of two lexers in step, and what they find after it. -/
theorem foundFrom_reline_line (hlf : t.val ≠ 0x0A) {f f' k : Nat} {p : Spot}
    {before : Option CodePoint} {stack : Stack} {line more : Text} (h : InStep t p before stack)
    (hcode : p.stack.head? ≠ some .template)
    (hgap : gap? (line ++ 0x0A :: more) = some (.lineComment, line.length))
    (hline : ∀ c ∈ line, c.isLineEnd = false) (hlong : 2 ≤ line.length)
    (hhash : hashbangLength? more = none) (offset : Nat)
    (hmore : foundFrom (within k) (more.length + 1) line.getLast? [.operand, .code]
        (offset + line.length) (Text.reline (0x0A :: more) t) =
      (foundFrom again f line.getLast? (p.stack.opened p.before) (offset + line.length)
        (0x0A :: more)).map (·.reline t)) :
    foundFrom (within (k + 1)) (f' + 1) before stack offset ((line ++ 0x0A :: more).reline t) =
      (foundFrom again (f + 1) p.before p.stack offset (line ++ 0x0A :: more)).map
        (·.reline t) := by
  obtain ⟨hspoiled, hcode', hspoiled'⟩ := h.code hcode
  have hopen : ∀ c ∈ line, c.val ≠ 0x0A := by
    intro c hc hlf
    have hend := hline c hc
    simp [CodePoint.isLineEnd, hlf] at hend
  have hreline : (line ++ 0x0A :: more).reline t = line ++ t :: Text.reline more t := by
    conv_rhs => rw [← reline_of_ne (t := t) hopen]
    exact List.map_append
  have hstarts : starts "//" (line ++ t :: Text.reline more t) = true := by
    rw [← hreline, starts_reline ht (by decide), (gap?_lineComment hgap).1]
  have hlater := foundFrom_line (f := f') (k := k) ht (gap?_of_starts hstarts)
    hcode' hspoiled' hline (fun d => Text.ne_of_mem_reline hlf) hlf
    (hashbangLength?_reline ht hhash) offset before line.getLast?
  rw [Text.length_reline] at hlater
  rw [hreline, hlater, foundFrom_open hgap hcode hspoiled hline hlong, List.map_cons, ← hmore]
  rfl

/-- The comments of two lexers in step. -/
theorem foundFrom_reline (hlf : t.val ≠ 0x0A) {f f' k : Nat} {s : Text} {p : Spot}
    {before : Option CodePoint} {stack : Stack}
    (hplain : s.PlainLines)
    (h : InStep t p before stack) (hsteady : p.SteadyFrom f s) (hf : s.length ≤ f)
    (hf' : s.length ≤ f') (hk : s.length ≤ k) (offset : Nat) :
    foundFrom (within k) f' before stack offset (s.reline t) =
      (foundFrom again f p.before p.stack offset s).map (·.reline t) := by
  induction f generalizing f' k s p before stack offset with
  | zero =>
    obtain rfl := List.eq_nil_of_length_eq_zero (Nat.le_zero.1 hf)
    cases f' <;> rfl
  | succ f ih =>
    cases s with
    | nil => cases f' <;> rfl
    | cons c s =>
      obtain ⟨f', rfl⟩ : ∃ g, f' = g + 1 := ⟨f' - 1, by simp at hf'; omega⟩
      obtain ⟨hcalm, hsteady⟩ := hsteady
      by_cases hline : p.gap? (c :: s) = some .lineComment
      · have hcode : p.stack.head? ≠ some .template := by
          intro hcode
          simp [Spot.gap?, hcode] at hline
        obtain ⟨⟨kind, n⟩, hgap, hkind⟩ := Option.map_eq_some_iff.1
          (show (gap? (c :: s)).map Prod.fst = some .lineComment by
            simpa [Spot.gap?, hcode] using hline)
        obtain rfl : kind = .lineComment := hkind
        obtain ⟨hspoiled, hcode', hspoiled'⟩ := h.code hcode
        obtain ⟨line, rfl, hlong, hopen, hrest⟩ := line_split hgap
        have hends : ∀ d ∈ line, d.isLineEnd = false := by
          intro d hd
          refine Bool.eq_false_iff.2 fun hend => hopen d hd (hplain d ?_ hend)
          rcases hrest with hrest | ⟨more, hrest⟩ <;> rw [hrest]
          · exact hd
          · exact List.mem_append_left _ hd
        rcases hrest with hrest | ⟨more, hrest⟩
        · rw [← List.append_nil line] at hrest
          rw [hrest] at hgap ⊢
          have hkeep : (line ++ []).reline t = line ++ [] := by
            rw [List.append_nil, reline_of_ne hopen]
          rw [hkeep, foundFrom_open hgap hcode' hspoiled' hends hlong,
            foundFrom_open hgap hcode hspoiled hends hlong, List.map_cons]
          cases f' <;> cases f <;> rfl
        · rw [hrest] at hgap hsteady hf hf' hk hcalm hplain ⊢
          obtain ⟨hlength, hmodes, hafter⟩ := after_lineComment hgap hcode hspoiled hlong
          rw [hlength, hafter, List.drop_left] at hsteady
          have hstep := inStep_afterLine h hcalm hgap hcode hlong
          simp only [List.length_append, List.length_cons] at hf hf' hk
          have hopened : (p.stack.opened p.before).head? ≠ some .template := by
            rcases opened_cases p.before hcode hspoiled with heq | ⟨-, heq⟩ <;> rw [heq]
            · exact hcode
            · exact (Option.some_injective _).ne (by decide : Mode.operand ≠ .template)
          have hhash := hashbang_of_steady hopened
            (fun hhead => hstep.unspoiled (List.mem_of_mem_head? hhead)) hsteady (by omega)
          obtain ⟨k, rfl⟩ : ∃ j, k = j + 1 := ⟨k - 1, by omega⟩
          refine foundFrom_reline_line ht hlf h hcode hgap hends hlong hhash offset ?_
          refine ih (s := 0x0A :: more) (fun d hd => hplain d (List.mem_append_right _ hd)) hstep
            hsteady ?_ ?_ ?_ _
          all_goals rw [List.length_cons]
          all_goals omega
      · obtain ⟨hnext, hstep⟩ := h.next ht hlf hcalm hline
        have hkind : (next p.before p.stack (c :: s)).1.kind ≠ .lineComment :=
          fun hkind => hline (gap?_of_kind hkind)
        have hdrop : ((c :: s).drop (p.length (c :: s))).length ≤ s.length := by
          rw [List.length_drop, List.length_cons, Spot.length]
          omega
        simp only [List.length_cons] at hf hf' hk
        have hlater := ih (fun d hd => hplain d (List.mem_of_mem_drop hd)) hstep hsteady (by omega)
          (show _ ≤ f' by omega) (show _ ≤ k by omega) (offset + p.length (c :: s))
        rw [foundFrom_cons, List.map_append, ← ofLexeme_reline hkind (within k), ← hlater,
          Text.reline_cons, foundFrom, ← Text.reline_cons, hnext, Text.take_reline,
          Text.drop_reline]
        rfl

omit ht in
theorem inStep_start (t : CodePoint) : InStep t {} none [.code] :=
  ⟨.same nofun, fun _ => ⟨rfl, rfl, nofun⟩, rfl, by decide⟩

/-- A steady script has the same comments with other terminators. -/
theorem find_reline (hlf : t.val ≠ 0x0A) {s : Text}
    (hplain : s.PlainLines) (hsteady : Steady s) :
    find (s.reline t) = (find s).map (·.reline t) := by
  unfold find
  rw [within_succ, within_succ, Text.length_reline]
  exact foundFrom_reline ht hlf hplain (inStep_start t) hsteady (Nat.le_refl _) (Nat.le_refl _)
    (Nat.le_refl _) 0

end Comment

/-! ## Lines of both texts -/

namespace Text

variable {t : CodePoint} (ht : t.isLineEnd = true) (hlf : t.val ≠ 0x0A)

include ht

theorem isLineEnd_reline (c : CodePoint) : (c.reline t).isLineEnd = c.isLineEnd :=
  Blind.reline (p := CodePoint.isLineEnd) (fun _ _ hc hd => hc.trans hd.symm) ht c

omit ht in
/-- No line feed is left that could join a terminator before it. -/
theorem no_pair_reline (hlf : t.val ≠ 0x0A) (c d : CodePoint) :
    (c.val == 0x0D && (d.reline t).val == 0x0A) = false := by
  have hd : (d.reline t).val ≠ 0x0A :=
    ne_of_mem_reline (s := [d]) hlf List.mem_cons_self
  simp [hd]

omit ht in
/-- In a text whose lines end with line feeds no terminator has two characters. -/
theorem no_pair {c d : CodePoint} (hc : c.isLineEnd = true → c.val = 0x0A) :
    (c.val == 0x0D && d.val == 0x0A) = false := by
  refine Bool.eq_false_iff.2 fun hpair => ?_
  have hcr : c.val = 0x0D := by simpa using (Bool.and_eq_true_iff.1 hpair).1
  have hval := hc (by simp [CodePoint.isLineEnd, hcr])
  omega

omit ht in
theorem reline_of_open {c : CodePoint} (hc : ¬ c.isLineEnd = true) : c.reline t = c :=
  CodePoint.reline_of_ne (fun hval => hc (by simp [CodePoint.isLineEnd, hval])) t

theorem linesGo_reline (hlf : t.val ≠ 0x0A) {s : Text}
    (hplain : s.PlainLines) (line : Text) :
    linesGo line (s.reline t) = linesGo line s := by
  induction line, s using linesGo.induct with
  | case1 line => rfl
  | case2 line c hend => simp [linesGo, isLineEnd_reline ht, hend]
  | case3 line c hend => simp [linesGo, reline_of_open hend, hend]
  | case4 line c d s hend hpair =>
    rw [no_pair (hplain c List.mem_cons_self)] at hpair
    cases hpair
  | case5 line c d s hend hpair ih =>
    have hlater := ih fun c hc => hplain c (List.mem_cons_of_mem _ hc)
    rw [reline_cons] at hlater
    simp only [reline_cons, linesGo, isLineEnd_reline ht, hend, if_true, no_pair_reline hlf, hpair,
      hlater, Bool.false_eq_true, if_false]
  | case6 line c d s hend ih =>
    have hlater := ih fun c hc => hplain c (List.mem_cons_of_mem _ hc)
    rw [reline_cons] at hlater
    simp only [reline_cons, linesGo, reline_of_open hend, hend, hlater, Bool.false_eq_true,
      if_false]

theorem lineEnds_reline (hlf : t.val ≠ 0x0A) {s : Text}
    (hplain : s.PlainLines) (offset : Nat) :
    lineEnds offset (s.reline t) = lineEnds offset s := by
  induction offset, s using lineEnds.induct with
  | case1 offset => rfl
  | case2 offset c hend => simp [lineEnds, isLineEnd_reline ht, hend]
  | case3 offset c hend => simp [lineEnds, isLineEnd_reline ht, hend]
  | case4 offset c d s hend hpair =>
    rw [no_pair (hplain c List.mem_cons_self)] at hpair
    cases hpair
  | case5 offset c d s hend hpair ih =>
    have hlater := ih fun c hc => hplain c (List.mem_cons_of_mem _ hc)
    rw [reline_cons] at hlater
    simp only [reline_cons, lineEnds, isLineEnd_reline ht, hend, if_true, no_pair_reline hlf, hpair,
      hlater, Bool.false_eq_true, if_false]
  | case6 offset c d s hend ih =>
    have hlater := ih fun c hc => hplain c (List.mem_cons_of_mem _ hc)
    rw [reline_cons] at hlater
    simp only [reline_cons, lineEnds, isLineEnd_reline ht, hend, hlater, Bool.false_eq_true,
      if_false]

end Text

namespace Directive

theorem start_reline (c : Comment) (t : CodePoint) :
    (c.reline t).start = c.start ∧ (c.reline t).stop = c.stop := by
  unfold Comment.reline
  split <;> exact ⟨rfl, rfl⟩

/-- What a comment says does not depend on its terminators. -/
theorem ofComment?_reline {t : CodePoint} (ht : t.isLineEnd = true) (hlf : t.val ≠ 0x0A)
    {c : Comment} (hplain : c.text.PlainLines) :
    ofComment? (c.reline t).text (c.reline t).block = ofComment? c.text c.block := by
  unfold Comment.reline
  cases hblock : c.block with
  | false => simp [hblock]
  | true =>
    simp only [if_true, ofComment?, contentLine?, Text.lines, Text.linesGo_reline ht hlf hplain]

/-- The text of a comment stands in the script. -/
theorem mem_of_mem_comment {s : Text} {c : Comment} (hc : c ∈ Comment.find s) {d : CodePoint}
    (hd : d ∈ c.text) : d ∈ s := by
  obtain ⟨start, stop, -, -, -, hspelling⟩ := (Found.within (s.length + 1) 0 s).stand c hc
  have hmem : d ∈ c.spelling := by
    unfold Comment.spelling
    split <;> simp [hd]
  rw [← hspelling] at hmem
  exact List.mem_of_mem_drop (List.mem_of_mem_take hmem)

/-- A steady script whose lines end with line feeds has the same directives, at the same places, with
    any other terminator in their stead. -/
theorem scan_reline {s : Text} (hplain : s.PlainLines)
    (hsteady : Steady s) {t : CodePoint} (ht : t.isLineEnd = true) :
    scan (s.reline t) = scan s := by
  by_cases hlf : t.val = 0x0A
  · have hsame : s.reline t = s := by
      refine (List.map_congr_left fun c _ => ?_).trans (List.map_id s)
      by_cases hc : c.val = 0x0A
      · rw [CodePoint.reline, if_pos hc]
        exact Fin.ext (hlf.trans hc.symm)
      · exact CodePoint.reline_of_ne hc t
    rw [hsame]
  · unfold scan
    rw [Comment.find_reline ht hlf hplain hsteady, Text.lineStarts,
      Text.lineEnds_reline ht hlf hplain, ← Text.lineStarts, List.filterMap_map]
    refine List.filterMap_congr fun c hc => ?_
    obtain ⟨hstart, hstop⟩ := start_reline c t
    simp only [Function.comp_apply, hstart, hstop,
      ofComment?_reline ht hlf fun d hd => hplain d (mem_of_mem_comment hc hd)]

/-- Directives beside a template string with a hole, a division and a regular expression. -/
def steadySample : Text :=
  "/* #if A */`$\x7b/*a*/1\x7d`/2\n(\n// #elseif B\n/[/]x/)\n/**\n * #endif\n */"

theorem scan_reline_sample :
    steadySample.PlainLines ∧ Steady steadySample ∧
      (scan (steadySample.reline 0x0D)).map Directive.tag =
        [.ifTag, .elseifTag, .endifTag] ∧
      scan (steadySample.reline 0x0D) = scan steadySample := by
  have hplain : steadySample.PlainLines := by decide +kernel
  have hsteady : Steady steadySample := by decide +kernel
  have hscan := scan_reline hplain hsteady (t := 0x0D) rfl
  refine ⟨hplain, hsteady, ?_, hscan⟩
  rw [hscan]
  decide +kernel

/-- A line comment in the hole of a template string, which has the words of a directive after it. -/
def holeSample : Text := "`$\x7ba // c\n\x7d// #if A`"

theorem scan_reline_hole :
    holeSample.PlainLines ∧ scan holeSample = [] ∧
      scan (holeSample.reline 0x0D) = [⟨.ifTag, ⟨11, 20, ⟨2, 1⟩⟩, "A`"⟩] := by
  decide +kernel

end Directive

end GuardedText
