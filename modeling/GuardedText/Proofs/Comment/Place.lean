import Mathlib.Tactic.SplitIfs
import GuardedText.Directive

/-
  Where comments stand. A lexeme of a comment starts with a slash and ends with one, or at the end of
  its line, or at the end of the text (`CommentAt`). Lexemes follow one another, so the comments of a
  script are met in order and do not overlap (`Found.within`), and so are its directives
  (`Directive.scan_ordered`, `Directive.scan_commentAt`).
-/

namespace GuardedText

open Lexeme

/-- The slash. -/
abbrev CodePoint.slash : CodePoint := CodePoint.ofChar '/'

/-- A comment stands in `s` from `start` up to `stop`: it starts with a slash, does not hold the end of
    its last line, and ends with a slash or at the end of a line or of the text. -/
structure CommentAt (s : Text) (start stop : Nat) : Prop where
  nonempty : start < stop
  bounded : stop ≤ s.length
  slash : s[start]? = some CodePoint.slash
  last : ∃ c, s[stop - 1]? = some c ∧ c.isLineEnd = false
  ended : s[stop - 1]? = some CodePoint.slash ∨ stop = s.length ∨
    ∃ c, s[stop]? = some c ∧ c.isLineEnd = true

/-- What stands in a piece of a text also stands in the text, if the piece ends with a slash or at
    the end of a line. -/
theorem CommentAt.lift {s : Text} {start stop : Nat} (h : CommentAt s start stop)
    (before after : Text) (hs : s.getLast? = some CodePoint.slash ∨
      ∀ c, after.head? = some c → c.isLineEnd = true) :
    CommentAt (before ++ (s ++ after)) (before.length + start) (before.length + stop) := by
  have inside : ∀ i, i < s.length → (before ++ (s ++ after))[before.length + i]? = s[i]? := by
    intro i hi
    rw [List.getElem?_append_right (by omega), Nat.add_sub_cancel_left, List.getElem?_append_left hi]
  have hlt := h.nonempty
  have hle := h.bounded
  have last : before.length + stop - 1 = before.length + (stop - 1) := by omega
  refine ⟨by omega, by simp; omega, ?_, ?_, ?_⟩
  · rw [inside _ (by omega)]
    exact h.slash
  · rw [last, inside _ (by omega)]
    exact h.last
  · rcases h.ended with hend | hend | ⟨c, hc, hend⟩
    · left
      rw [last, inside _ (by omega)]
      exact hend
    · rcases hs with hs | hs
      · left
        rw [last, inside _ (by omega), hend, ← List.getLast?_eq_getElem?]
        exact hs
      · right
        cases after with
        | nil => left; simp; omega
        | cons c after =>
          refine Or.inr ⟨c, ?_, hs c rfl⟩
          rw [List.getElem?_append_right (by omega), Nat.add_sub_cancel_left,
            List.getElem?_append_right (by omega), hend]
          simp
    · refine Or.inr (Or.inr ⟨c, ?_, hend⟩)
      rw [inside _ (List.getElem?_eq_some_iff.1 hc).1]
      exact hc

/-- A comment with its marks. -/
def Comment.spelling (c : Comment) : Text :=
  if c.block then CodePoint.slash :: CodePoint.ofChar '*' ::
    (c.text ++ [CodePoint.ofChar '*', CodePoint.slash])
  else CodePoint.slash :: CodePoint.slash :: c.text

/-! ## The lexeme of a comment -/

theorem exists_of_starts {w : String} {s : Text} (h : starts w s = true) :
    ∃ rest, s = Text.ofString w ++ rest := by
  obtain ⟨rest, hrest⟩ := List.isPrefixOf_iff_prefix.1 h
  exact ⟨rest, hrest.symm⟩

theorem blockLength?_eq_some {s : Text} {n : Nat} (h : blockLength? s = some n) :
    ∃ middle rest, s = middle ++ (CodePoint.ofChar '*' :: CodePoint.slash :: rest) ∧
      n = middle.length + 2 := by
  induction s generalizing n with
  | nil => simp [blockLength?] at h
  | cons c s ih =>
    rw [blockLength?] at h
    split at h
    · rename_i hstar
      rw [Bool.and_eq_true, beq_iff_eq] at hstar
      obtain ⟨rfl, hnext⟩ := hstar
      cases s with
      | nil => simp [nextIs] at hnext
      | cons d s =>
        have hd : d = CodePoint.slash := by
          simpa [nextIs, oneOf, Text.ofString] using hnext
        refine ⟨[], s, by rw [hd]; rfl, by simpa using h.symm⟩
    · obtain ⟨m, hm, rfl⟩ := Option.map_eq_some_iff.1 h
      obtain ⟨middle, rest, rfl, rfl⟩ := ih hm
      exact ⟨c :: middle, rest, rfl, by simp⟩

/-- A line comment is the rest of its line. -/
theorem gap?_lineComment {s : Text} {n : Nat} (h : gap? s = some (.lineComment, n)) :
    starts "//" s = true ∧ n = run (fun c => c.val != 0x0A) s := by
  unfold gap? at h
  split_ifs at h with h1 h2 h3 h4
  · simp at h
  · simp at h
  · simp only [Option.some.injEq, Prod.mk.injEq, true_and] at h
    exact ⟨h3, h.symm⟩
  · simp at h

/-- A block comment stands between its marks. -/
theorem gap?_blockComment {s : Text} {n : Nat} (h : gap? s = some (.blockComment, n)) :
    ∃ middle rest, s = CodePoint.slash :: CodePoint.ofChar '*' ::
        (middle ++ (CodePoint.ofChar '*' :: CodePoint.slash :: rest)) ∧
      n = middle.length + 4 := by
  unfold gap? at h
  split_ifs at h with h1 h2 h3 h4
  · simp at h
  · simp at h
  · simp at h
  · obtain ⟨m, hm, he⟩ := Option.map_eq_some_iff.1 h
    obtain ⟨rest, rfl⟩ := exists_of_starts h4
    obtain ⟨middle, rest, hrest, rfl⟩ := blockLength?_eq_some hm
    refine ⟨middle, rest, ?_, by simpa using he.symm⟩
    rw [← hrest]
    rfl

/-- A lexeme that is a comment is found as a gap. -/
def FoundAsGap (s : Text) (m : Match) : Prop := m.kind ≠ .other → gap? s = some (m.kind, m.length)

theorem foundAsGap_other (s : Text) (n : Nat) (shift : Shift) :
    FoundAsGap s ⟨.other, n, shift⟩ := fun hk => absurd rfl hk

theorem foundAsGap_inOperand {s : Text} {m : Match} (h : inOperand s = some m) :
    FoundAsGap s m := by
  unfold inOperand at h
  split at h
  · rename_i kind n hgap
    cases h
    exact fun _ => hgap
  · split at h
    · cases h
      exact foundAsGap_other _ _ _
    · split at h
      · cases h
        exact foundAsGap_other _ _ _
      · cases h

theorem foundAsGap_inCode (afterWord : Bool) (s : Text) : FoundAsGap s (inCode afterWord s) := by
  unfold inCode
  cases hgap : gap? s with
  | some found => exact fun _ => hgap
  | none =>
    -- Every lexeme of code that is not a gap is of the kind `other`.
    dsimp only
    repeat' split
    all_goals exact foundAsGap_other _ _ _

theorem foundAsGap_inLine (before : Option CodePoint) (stack : Stack) (s : Text) :
    FoundAsGap s (inLine before stack s).1 := by
  unfold inLine
  dsimp only
  split
  · exact foundAsGap_other _ _ _
  · split
    · rename_i m hm
      split_ifs at hm
      exact foundAsGap_inOperand hm
    · exact foundAsGap_inCode _ _

theorem foundAsGap_inTemplate (s : Text) : FoundAsGap s (inTemplate s) := by
  unfold inTemplate
  repeat' split
  all_goals exact foundAsGap_other _ _ _

/-- A lexeme that is a comment is found as a gap, whatever the mode. -/
theorem foundAsGap_next (before : Option CodePoint) (stack : Stack) (s : Text) :
    FoundAsGap s (next before stack s).1 := by
  unfold next
  split
  · exact foundAsGap_other _ _ _
  · exact foundAsGap_inTemplate s
  · split
    · exact foundAsGap_other _ _ _
    · exact foundAsGap_inLine _ _ _
  · split
    · rename_i m hm
      exact foundAsGap_inOperand hm
    · split
      · exact foundAsGap_other _ _ _
      · exact foundAsGap_inLine _ _ _
  · exact foundAsGap_inLine _ _ _

/-! ## Lexemes in order -/

/-- A lexeme cut out of a text that starts at `start`. -/
structure CutOut (start : Nat) (s : Text) (x : Lexeme) : Prop where
  split : ∃ before after, s = before ++ (x.text ++ after) ∧ x.start = start + before.length ∧
    (x.kind ≠ .other → gap? (x.text ++ after) = some (x.kind, x.text.length))

theorem run_line_pos (rest : Text) :
    2 ≤ run (fun c => c.val != 0x0A) (Text.ofString "//" ++ rest) := by
  have hslash : (CodePoint.slash.val != 0x0A) = true := by decide
  show 2 ≤ (List.takeWhile _ (CodePoint.slash :: CodePoint.slash :: rest)).length
  rw [List.takeWhile_cons, if_pos hslash, List.takeWhile_cons, if_pos hslash]
  simp

/-- The length of a comment fits into the text it is found in. -/
theorem length_of_gap? {s : Text} {kind : LexemeKind} {n : Nat} (h : gap? s = some (kind, n))
    (hk : kind ≠ .other) : (s.take (max n 1)).length = n := by
  cases kind with
  | other => exact absurd rfl hk
  | lineComment =>
    obtain ⟨hstarts, rfl⟩ := gap?_lineComment h
    obtain ⟨rest, rfl⟩ := exists_of_starts hstarts
    have hle : run (fun c => c.val != 0x0A) (Text.ofString "//" ++ rest) ≤
        (Text.ofString "//" ++ rest).length := by
      unfold run
      exact (List.takeWhile_prefix _).length_le
    have hpos := run_line_pos rest
    rw [List.length_take]
    omega
  | blockComment =>
    obtain ⟨middle, rest, rfl, rfl⟩ := gap?_blockComment h
    rw [List.length_take]
    simp

theorem cutOut_scanFrom (fuel : Nat) (before : Option CodePoint) (stack : Stack) (start : Nat)
    (s : Text) : (∀ x ∈ scanFrom fuel before stack start s, CutOut start s x) ∧
      (scanFrom fuel before stack start s).Pairwise fun x y =>
        x.start + x.text.length ≤ y.start := by
  induction fuel generalizing before stack start s with
  | zero => simp [scanFrom]
  | succ fuel ih =>
    cases s with
    | nil => simp [scanFrom]
    | cons c s =>
      rw [scanFrom]
      dsimp only
      generalize hm : next before stack (c :: s) = found
      obtain ⟨m, stack'⟩ := found
      have hgap := foundAsGap_next before stack (c :: s)
      rw [hm] at hgap
      dsimp only at hgap ⊢
      obtain ⟨hcut, hpair⟩ := ih ((c :: s).take (max m.length 1)).getLast? (stack'.apply m.shift)
        (start + max m.length 1) ((c :: s).drop (max m.length 1))
      have htake := List.take_append_drop (max m.length 1) (c :: s)
      have hlen : ((c :: s).take (max m.length 1)).length ≤ max m.length 1 :=
        List.length_take_le _ _
      refine ⟨?_, List.pairwise_cons.2 ⟨?_, hpair⟩⟩
      · intro x hx
        rcases List.mem_cons.1 hx with rfl | hx
        · refine ⟨[], (c :: s).drop (max m.length 1), by simp [htake], by simp, ?_⟩
          intro hk
          rw [htake, length_of_gap? (hgap hk) hk]
          exact hgap hk
        · obtain ⟨left, right, hsplit, hstart, hkind⟩ := (hcut x hx).split
          refine ⟨(c :: s).take (max m.length 1) ++ left, right, ?_, ?_, hkind⟩
          · rw [List.append_assoc, ← hsplit, htake]
          · -- the rest is not empty, so the first lexeme has its full length
            have hfull : max m.length 1 ≤ (c :: s).length := by
              rcases Nat.le_total (max m.length 1) (c :: s).length with hle | hge
              · exact hle
              · rw [List.drop_eq_nil_of_le hge] at hx
                cases fuel <;> simp [scanFrom] at hx
            rw [hstart, List.length_append, List.length_take, Nat.min_eq_left hfull]
            omega
      · intro y hy
        obtain ⟨left, right, -, hstart, -⟩ := (hcut y hy).split
        dsimp only
        omega

/-! ## Comments in order -/

theorem afterLineEnd?_eq_some {s rest : Text} (h : Text.afterLineEnd? s = some rest) :
    ∃ mark, s = mark ++ rest ∧ ∃ c, mark.head? = some c ∧ c.isLineEnd = true := by
  cases s with
  | nil => simp [Text.afterLineEnd?] at h
  | cons c s =>
    unfold Text.afterLineEnd? at h
    dsimp only at h
    split at h
    · rename_i hend
      split at h
      · rename_i d tail
        split at h
        · cases h
          exact ⟨[c, d], rfl, c, rfl, hend⟩
        · cases h
          exact ⟨[c], rfl, c, rfl, hend⟩
      · cases h
        exact ⟨[c], rfl, c, rfl, hend⟩
    · cases h

/-- A line ends at a line terminator or with the text. -/
theorem splitLine_spec (s : Text) : ∃ mark, s = (Comment.splitLine s).1 ++
    (mark ++ (Comment.splitLine s).2.getD []) ∧
      (∀ rest, (Comment.splitLine s).2 = some rest →
        ∃ c, mark.head? = some c ∧ c.isLineEnd = true) ∧
      ((Comment.splitLine s).2 = none → mark = []) := by
  induction s with
  | nil => exact ⟨[], by simp [Comment.splitLine]⟩
  | cons c s ih =>
    rw [Comment.splitLine]
    split
    · rename_i rest hrest
      obtain ⟨mark, hmark, hend⟩ := afterLineEnd?_eq_some hrest
      exact ⟨mark, by simpa using hmark, fun _ _ => hend, by simp⟩
    · obtain ⟨mark, hs, hsome, hnone⟩ := ih
      exact ⟨mark, by simpa using hs, hsome, hnone⟩

/-- A line holds no line terminator. -/
theorem splitLine_open (s : Text) : ∀ c ∈ (Comment.splitLine s).1, c.isLineEnd = false := by
  induction s with
  | nil => simp [Comment.splitLine]
  | cons c s ih =>
    rw [Comment.splitLine]
    split
    · simp
    · rename_i hnone
      refine List.forall_mem_cons.2 ⟨?_, ih⟩
      unfold Text.afterLineEnd? at hnone
      dsimp only at hnone
      cases hend : c.isLineEnd with
      | false => rfl
      | true =>
        rw [if_pos hend] at hnone
        split at hnone
        · split at hnone <;> cases hnone
        · cases hnone

theorem splitLine_slash (s : Text) :
    Comment.splitLine (CodePoint.slash :: s) =
      (CodePoint.slash :: (Comment.splitLine s).1, (Comment.splitLine s).2) := by
  have hslash : CodePoint.slash.isLineEnd = false := by decide
  have hnone : Text.afterLineEnd? (CodePoint.slash :: s) = none := by
    unfold Text.afterLineEnd?
    dsimp only
    rw [hslash]
    rfl
  rw [Comment.splitLine, hnone]

theorem Text.slice_lift (s before after : Text) {start stop : Nat} (hstart : start ≤ stop)
    (hstop : stop ≤ s.length) :
    (before ++ (s ++ after)).slice (before.length + start) (before.length + stop) =
      s.slice start stop := by
  unfold Text.slice
  rw [List.drop_append, Nat.add_sub_add_left, List.drop_append_of_le_length (by omega),
    List.drop_eq_nil_of_le (Nat.le_add_right ..), List.nil_append, Nat.add_sub_cancel_left,
    List.take_append_of_le_length (by simp; omega)]

/-- Some comments stand in a text that starts at `offset`, in order and without overlap. -/
structure Found (offset : Nat) (s : Text) (comments : List Comment) : Prop where
  stand : ∀ c ∈ comments, ∃ start stop, c.start = offset + start ∧ c.stop = offset + stop ∧
    CommentAt s start stop ∧ s.slice start stop = c.spelling
  ordered : comments.Pairwise fun c d => c.stop ≤ d.start

theorem Found.nil (offset : Nat) (s : Text) : Found offset s [] := ⟨by simp, List.Pairwise.nil⟩

theorem Found.lift {offset : Nat} {s before : Text} {comments : List Comment}
    (h : Found (offset + before.length) s comments) (after : Text)
    (hs : s.getLast? = some CodePoint.slash ∨
      ∀ c, after.head? = some c → c.isLineEnd = true) :
    Found offset (before ++ (s ++ after)) comments := by
  refine ⟨?_, h.ordered⟩
  intro c hc
  obtain ⟨start, stop, hstart, hstop, hat, hspelling⟩ := h.stand c hc
  refine ⟨before.length + start, before.length + stop, by omega, by omega,
    hat.lift before after hs, ?_⟩
  rw [← hspelling]
  exact Text.slice_lift s before after (Nat.le_of_lt hat.nonempty) hat.bounded

theorem Found.bounds {offset : Nat} {s : Text} {comments : List Comment}
    (h : Found offset s comments) {c : Comment} (hc : c ∈ comments) :
    offset ≤ c.start ∧ c.stop ≤ offset + s.length := by
  obtain ⟨start, stop, hstart, hstop, hat, -⟩ := h.stand c hc
  have := hat.bounded
  exact ⟨by omega, by omega⟩

/-- A line comment, followed by what was found after its line. -/
theorem Found.line {offset : Nat} {rest : Text} {again : Nat → Text → List Comment}
    (hagain : ∀ offset s, Found offset s (again offset s)) :
    Found offset (CodePoint.slash :: CodePoint.slash :: rest)
      (Comment.ofLexeme again offset
        ⟨.lineComment, 0, CodePoint.slash :: CodePoint.slash :: rest⟩) := by
  obtain ⟨mark, hsplit, hsome, hnone⟩ := splitLine_spec rest
  have hopen := splitLine_open rest
  simp only [Comment.ofLexeme, splitLine_slash]
  generalize (Comment.splitLine rest).1 = line at *
  generalize (Comment.splitLine rest).2 = remainder at *
  have first : CommentAt (CodePoint.slash :: CodePoint.slash :: rest) 0 (line.length + 2) ∧
      Text.slice (CodePoint.slash :: CodePoint.slash :: rest) 0 (line.length + 2) =
        CodePoint.slash :: CodePoint.slash :: line := by
    refine ⟨⟨by omega, ?_, rfl, ?_, ?_⟩, ?_⟩
    · rw [hsplit]
      simp
    · rw [hsplit]
      cases hline : line.getLast? with
      | none =>
        rw [List.getLast?_eq_none_iff.1 hline]
        exact ⟨_, rfl, by decide⟩
      | some c =>
        obtain ⟨front, rfl⟩ := List.getLast?_eq_some_iff.1 hline
        exact ⟨c, by simp, hopen c (by simp)⟩
    · right
      cases remainder with
      | none =>
        left
        rw [hsplit, hnone rfl]
        simp
      | some more =>
        obtain ⟨c, hc, hend⟩ := hsome more rfl
        refine Or.inr ⟨c, ?_, hend⟩
        rw [hsplit, List.getElem?_cons_succ, List.getElem?_cons_succ,
          List.getElem?_append_right (by omega), Nat.sub_self]
        cases mark with
        | nil => simp at hc
        | cons d mark => simpa using hc
    · rw [hsplit]
      simp [Text.slice]
  cases remainder with
  | none =>
    refine ⟨?_, by simp⟩
    intro c hc
    simp only [Option.elim_none, List.mem_singleton] at hc
    subst hc
    exact ⟨0, line.length + 2, by simp, by simp, first⟩
  | some more =>
    simp only [Option.getD_some] at hsplit
    have place : (CodePoint.slash :: CodePoint.slash :: rest).length - more.length =
        (CodePoint.slash :: CodePoint.slash :: (line ++ mark)).length := by
      rw [hsplit]
      simp
      omega
    have later : Found offset (CodePoint.slash :: CodePoint.slash :: rest)
        (again (offset + 0 + ((CodePoint.slash :: CodePoint.slash :: rest).length - more.length))
          more) := by
      have := (hagain (offset + (CodePoint.slash :: CodePoint.slash :: (line ++ mark)).length)
        more).lift [] (Or.inr (by simp))
      rw [List.append_nil, List.cons_append, List.cons_append, List.append_assoc, ← hsplit] at this
      rw [place]
      exact this
    have after := fun c hc => ((hagain (offset + 0 +
      ((CodePoint.slash :: CodePoint.slash :: rest).length - more.length)) more).bounds (c := c) hc).1
    refine ⟨?_, List.pairwise_cons.2 ⟨?_, later.ordered⟩⟩
    · intro c hc
      rcases List.mem_cons.1 hc with rfl | hc
      · exact ⟨0, line.length + 2, by simp, by simp, first⟩
      · exact later.stand c hc
    · intro c hc
      have := after c hc
      rw [place] at this
      simp only [List.length_cons, List.length_append] at this ⊢
      omega

/-- A block comment is one comment. -/
theorem Found.block {offset : Nat} {middle : Text} {again : Nat → Text → List Comment} :
    Found offset (CodePoint.slash :: CodePoint.ofChar '*' ::
        (middle ++ [CodePoint.ofChar '*', CodePoint.slash]))
      (Comment.ofLexeme again offset ⟨.blockComment, 0, CodePoint.slash :: CodePoint.ofChar '*' ::
        (middle ++ [CodePoint.ofChar '*', CodePoint.slash])⟩) := by
  refine ⟨?_, by simp [Comment.ofLexeme]⟩
  intro c hc
  simp only [Comment.ofLexeme, List.mem_singleton] at hc
  subst hc
  refine ⟨0, middle.length + 4, by simp, by simp, ?_, ?_⟩
  · refine ⟨by omega, by simp, rfl, ⟨CodePoint.slash, ?_, by decide⟩, Or.inr (Or.inl (by simp))⟩
    simp
  · simp [Text.slice, Comment.spelling, List.take_of_length_le]

theorem ofLexeme_eq (again : Nat → Text → List Comment) (offset : Nat) (x : Lexeme) :
    Comment.ofLexeme again offset x =
      Comment.ofLexeme again (offset + x.start) ⟨x.kind, 0, x.text⟩ :=
  rfl

/-- A line comment starts with its mark and ends at the end of its line. -/
theorem line_of_gap? {text after : Text}
    (h : gap? (text ++ after) = some (.lineComment, text.length)) :
    (∃ rest, text = CodePoint.slash :: CodePoint.slash :: rest) ∧
      ∀ c, after.head? = some c → c.isLineEnd = true := by
  obtain ⟨hstarts, hrun⟩ := gap?_lineComment h
  obtain ⟨rest, hrest⟩ := exists_of_starts hstarts
  constructor
  · have hpos := run_line_pos rest
    rw [← hrest, ← hrun] at hpos
    match text with
    | [] | [_] => simp at hpos
    | c :: d :: text =>
      injection hrest with hc hrest
      injection hrest with hd
      exact ⟨text, by rw [hc, hd]; rfl⟩
  · -- what follows the longest run without a line feed starts with one
    intro c hc
    have hsplit := List.takeWhile_append_dropWhile (p := fun c : CodePoint => c.val != 0x0A)
      (l := text ++ after)
    have hafter := List.append_inj_right hsplit hrun.symm
    have hnot := List.head?_dropWhile_not (fun c : CodePoint => c.val != 0x0A) (text ++ after)
    rw [hafter, hc] at hnot
    simp only [bne_eq_false_iff_eq] at hnot
    simp [CodePoint.isLineEnd, hnot]

/-- A block comment starts and ends with its marks. -/
theorem block_of_gap? {text after : Text}
    (h : gap? (text ++ after) = some (.blockComment, text.length)) :
    ∃ middle, text = CodePoint.slash :: CodePoint.ofChar '*' ::
      (middle ++ [CodePoint.ofChar '*', CodePoint.slash]) := by
  obtain ⟨middle, rest, hrest, hlength⟩ := gap?_blockComment h
  have hsplit : text ++ after = (CodePoint.slash :: CodePoint.ofChar '*' :: (middle ++
      [CodePoint.ofChar '*', CodePoint.slash])) ++ rest := by
    rw [hrest]
    simp
  exact ⟨_, List.append_inj_left hsplit (by rw [hlength]; simp)⟩

/-- The comments of a lexeme stand in the lexeme. -/
theorem Found.ofLexeme (offset : Nat) {s : Text} {x : Lexeme} {again : Nat → Text → List Comment}
    (hagain : ∀ offset s, Found offset s (again offset s)) (hx : CutOut 0 s x) :
    Found offset s (Comment.ofLexeme again offset x) ∧
      ∀ c ∈ Comment.ofLexeme again offset x,
        offset + x.start ≤ c.start ∧ c.stop ≤ offset + (x.start + x.text.length) := by
  obtain ⟨kind, start, text⟩ := x
  obtain ⟨before, after, hsplit, hstart, hgap⟩ := hx.split
  dsimp only at hsplit hstart hgap
  rw [Nat.zero_add] at hstart
  subst hstart
  rw [ofLexeme_eq]
  dsimp only
  have key : kind ≠ .other → Found (offset + before.length) text
      (Comment.ofLexeme again (offset + before.length) ⟨kind, 0, text⟩) ∧
        (text.getLast? = some CodePoint.slash ∨
          ∀ c, after.head? = some c → c.isLineEnd = true) := by
    intro hk
    cases kind with
    | other => exact absurd rfl hk
    | lineComment =>
      obtain ⟨⟨rest, rfl⟩, hafter⟩ := line_of_gap? (hgap hk)
      exact ⟨Found.line hagain, Or.inr hafter⟩
    | blockComment =>
      obtain ⟨middle, rfl⟩ := block_of_gap? (hgap hk)
      refine ⟨Found.block, Or.inl (List.getLast?_eq_some_iff.2 ⟨CodePoint.slash ::
        CodePoint.ofChar '*' :: (middle ++ [CodePoint.ofChar '*']), ?_⟩)⟩
      rw [List.cons_append, List.cons_append, List.append_assoc]
      rfl
  cases kind with
  | other => exact ⟨Found.nil _ _, by simp [Comment.ofLexeme]⟩
  | lineComment =>
    obtain ⟨hfound, hend⟩ := key (by simp)
    refine ⟨by rw [hsplit]; exact hfound.lift after hend, ?_⟩
    intro c hc
    have := hfound.bounds hc
    omega
  | blockComment =>
    obtain ⟨hfound, hend⟩ := key (by simp)
    refine ⟨by rw [hsplit]; exact hfound.lift after hend, ?_⟩
    intro c hc
    have := hfound.bounds hc
    omega

/-- The comments of lexemes that follow one another. -/
theorem Found.flatMap {offset : Nat} {s : Text} {again : Nat → Text → List Comment}
    (hagain : ∀ offset s, Found offset s (again offset s)) {xs : List Lexeme}
    (hxs : ∀ x ∈ xs, CutOut 0 s x)
    (hordered : xs.Pairwise fun x y => x.start + x.text.length ≤ y.start) :
    Found offset s (xs.flatMap (Comment.ofLexeme again offset)) := by
  refine ⟨?_, ?_⟩
  · intro c hc
    obtain ⟨x, hx, hcx⟩ := List.mem_flatMap.1 hc
    exact (Found.ofLexeme offset hagain (hxs x hx)).1.stand c hcx
  · induction xs with
    | nil => simp
    | cons x xs ih =>
      obtain ⟨hfirst, hrest⟩ := List.pairwise_cons.1 hordered
      have hx := Found.ofLexeme offset hagain (hxs x (by simp))
      rw [List.flatMap_cons]
      refine List.pairwise_append.2
        ⟨hx.1.ordered, ih (fun y hy => hxs y (by simp [hy])) hrest, ?_⟩
      intro c hc d hd
      obtain ⟨y, hy, hdy⟩ := List.mem_flatMap.1 hd
      have h1 := (hx.2 c hc).2
      have h2 := ((Found.ofLexeme offset hagain (hxs y (by simp [hy]))).2 d hdy).1
      have h3 := hfirst y hy
      omega

theorem Found.within (fuel offset : Nat) (s : Text) :
    Found offset s (Comment.within fuel offset s) := by
  induction fuel generalizing offset s with
  | zero => exact Found.nil _ _
  | succ fuel ih =>
    have hcut := cutOut_scanFrom s.length none [.code] 0 s
    exact Found.flatMap ih hcut.1 hcut.2

/-! ## Directives in order -/

/-- Every directive of a script is a comment in it. -/
theorem Directive.scan_commentAt {source : Text} {d : Directive} (h : d ∈ Directive.scan source) :
    CommentAt source d.span.start d.span.stop := by
  obtain ⟨c, hc, hd⟩ := List.mem_filterMap.1 h
  obtain ⟨found, -, rfl⟩ := Option.map_eq_some_iff.1 hd
  obtain ⟨start, stop, hstart, hstop, hat, -⟩ :=
    (Found.within (source.length + 1) 0 source).stand c hc
  rw [Nat.zero_add] at hstart hstop
  dsimp only
  rw [hstart, hstop]
  exact hat

/-- The directives of a script are met in order and do not overlap. -/
theorem Directive.scan_ordered (source : Text) :
    (Directive.scan source).Pairwise fun d e => d.span.stop ≤ e.span.start := by
  refine List.pairwise_filterMap.2 ?_
  refine (Found.within (source.length + 1) 0 source).ordered.imp ?_
  intro c e h d hd d' hd'
  obtain ⟨found, -, rfl⟩ := Option.map_eq_some_iff.1 hd
  obtain ⟨found', -, rfl⟩ := Option.map_eq_some_iff.1 hd'
  exact h

end GuardedText
