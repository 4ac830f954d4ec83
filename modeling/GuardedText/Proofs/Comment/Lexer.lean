import GuardedText.Proofs.Comment.Place
import GuardedText.Proofs.Text.Position

/-
  Comments and directives by any lexer. A lexer cuts a text into lexemes that follow one another and
  concatenate to it; which of them are comments it alone decides, so a lexeme counts as a comment only
  if it is spelled like one. What a line comment kept after a line terminator is lexed again as a text
  of its own. That ends, because the rest is shorter (`Comment.foundIn_unique`), and whatever the
  lexer the comments follow one another and are spelled in the text where they say
  (`Lexer.finds_in_order`). The comments of a script are those by its own lexer
  (`Comment.foundBy_script`).
-/

namespace GuardedText

/-! ## Lexers -/

/-- Lexemes follow one another from an offset on and concatenate to a text. -/
def Lexeme.Tile (start : Nat) (s : Text) : List Lexeme → Prop
  | [] => s = []
  | x :: xs =>
    x.start = start ∧ ∃ rest, s = x.text ++ rest ∧ Tile (start + x.text.length) rest xs

/-- A lexer cuts every text into lexemes that follow one another and concatenate to it. -/
structure Lexer where
  /-- The lexemes of a text. -/
  lexemes : Text → List Lexeme
  tile : ∀ s, Lexeme.Tile 0 s (lexemes s)

/-- Whether a lexeme is spelled as comments of its kind are. -/
def Lexeme.isSpelled (x : Lexeme) : Bool :=
  match x.kind with
  | .other => false
  | .lineComment => starts "//" x.text
  | .blockComment => starts "/*" x.text && Text.endsWith x.text "*/" && decide (4 ≤ x.text.length)

namespace Comment

/-- The comments that a lexer finds in a text at `offset`, if `again` finds those in the rest of a
line comment. -/
def foundOnce (lexer : Lexer) (again : Nat → Text → List Comment) (offset : Nat) (s : Text) :
    List Comment :=
  ((lexer.lexemes s).filter Lexeme.isSpelled).flatMap (ofLexeme again offset)

/-- The comments that a lexer finds in a text at `offset`, lexed again at most `fuel` times over. -/
def foundWithin (lexer : Lexer) : Nat → Nat → Text → List Comment
  | 0, _, _ => []
  | fuel + 1, offset, s => foundOnce lexer (foundWithin lexer fuel) offset s

/-- The comments that a lexer finds in a text at `offset`. -/
def foundIn (lexer : Lexer) (offset : Nat) (s : Text) : List Comment :=
  foundWithin lexer (s.length + 1) offset s

/-- The comments that a lexer finds in a text. -/
def foundBy (lexer : Lexer) (s : Text) : List Comment := foundIn lexer 0 s

/-- A lexer reads a lexeme at a place: it is one of the text, or of what a line comment of the text
kept after a line terminator. -/
inductive Reads (lexer : Lexer) : Nat → Text → Nat → Lexeme → Prop where
  | first {offset : Nat} {s : Text} {x : Lexeme} (hx : x ∈ lexer.lexemes s) :
    Reads lexer offset s (offset + x.start) x
  | again {offset place : Nat} {s line more : Text} {x y : Lexeme} (hx : x ∈ lexer.lexemes s)
    (hkind : x.kind = .lineComment) (hline : splitLine x.text = (line, some more))
    (hy : Reads lexer (offset + x.start + (x.text.length - more.length)) more place y) :
    Reads lexer offset s place y

end Comment

/-- The directives among some comments of a script. -/
def Directive.among (source : Text) (comments : List Comment) : List Directive :=
  comments.filterMap fun comment =>
    (ofComment? comment.text comment.block).map fun (tag, payload) =>
      { tag, payload
        span := ⟨comment.start, comment.stop,
          Position.locate (Text.lineStarts source) comment.start⟩ }

/-- The directives that a lexer finds in a script. -/
def Directive.scanBy (lexer : Lexer) (source : Text) : List Directive :=
  among source (Comment.foundBy lexer source)

/-! ## Lexemes of a text -/

namespace Lexeme.Tile

variable {start : Nat} {s : Text} {xs : List Lexeme}

/-- A lexeme stands in the text where it starts. -/
theorem split (h : Tile start s xs) {x : Lexeme} (hx : x ∈ xs) :
    ∃ before after, s = before ++ (x.text ++ after) ∧ x.start = start + before.length := by
  induction xs generalizing start s with
  | nil => cases hx
  | cons y ys ih =>
    obtain ⟨hstart, rest, rfl, hrest⟩ := h
    rcases List.mem_cons.1 hx with rfl | hx
    · exact ⟨[], rest, rfl, hstart⟩
    · obtain ⟨before, after, rfl, hplace⟩ := ih hrest hx
      refine ⟨y.text ++ before, after, (List.append_assoc ..).symm, ?_⟩
      rw [hplace, List.length_append, Nat.add_assoc]

/-- Each lexeme stops where the next one starts, or earlier. -/
theorem ordered (h : Tile start s xs) :
    xs.Pairwise fun x y => x.start + x.text.length ≤ y.start := by
  induction xs generalizing start s with
  | nil => exact List.Pairwise.nil
  | cons x xs ih =>
    obtain ⟨hstart, rest, rfl, hrest⟩ := h
    refine List.pairwise_cons.2 ⟨fun y hy => ?_, ih hrest⟩
    obtain ⟨before, after, -, hplace⟩ := hrest.split hy
    omega

end Lexeme.Tile

theorem Lexeme.tile_scanFrom {fuel : Nat} {s : Text} (hfuel : s.length ≤ fuel)
    (before : Option CodePoint) (stack : Stack) (start : Nat) :
    Tile start s (scanFrom fuel before stack start s) := by
  induction fuel generalizing before stack start s with
  | zero =>
    rw [List.length_eq_zero_iff.1 (Nat.le_zero.1 hfuel)]
    exact rfl
  | succ fuel ih =>
    cases s with
    | nil => exact rfl
    | cons c s =>
      rw [scanFrom]
      generalize next before stack (c :: s) = found
      obtain ⟨m, stack'⟩ := found
      dsimp only
      refine ⟨rfl, (c :: s).drop (max m.length 1), (List.take_append_drop ..).symm, ?_⟩
      dsimp only
      by_cases hshort : max m.length 1 ≤ (c :: s).length
      · rw [List.length_take, Nat.min_eq_left hshort]
        refine ih ?_ _ _ _
        rw [List.length_drop]
        rw [List.length_cons] at hfuel ⊢
        omega
      · -- the last lexeme takes all that is left
        rw [List.drop_eq_nil_of_le (by omega)]
        cases fuel <;> exact rfl

/-- The lexer of scripts. -/
def Lexer.script : Lexer where
  lexemes := Lexeme.scan
  tile s := Lexeme.tile_scanFrom (Nat.le_refl s.length) none [.code] 0

namespace Comment

variable {lexer : Lexer}

/-! ## Lexing again -/

/-- A line that a terminator ends, the terminator and the rest. -/
theorem splitLine_eq_some {s line more : Text} (h : splitLine s = (line, some more)) :
    ∃ mark, s = line ++ (mark ++ more) ∧ ∃ c, mark.head? = some c ∧ c.isLineEnd = true := by
  obtain ⟨mark, hs, hsome, -⟩ := splitLine_spec s
  rw [h] at hs hsome
  exact ⟨mark, hs, hsome more rfl⟩

/-- What is left of a line comment after a line terminator is shorter. -/
theorem length_lt_of_splitLine {s line more : Text} (h : splitLine s = (line, some more)) :
    more.length < s.length := by
  obtain ⟨mark, rfl, c, hc, -⟩ := splitLine_eq_some h
  cases mark with
  | nil => cases hc
  | cons d mark =>
    simp only [List.length_append, List.length_cons]
    omega

theorem ofLexeme_congr {again again' : Nat → Text → List Comment} {x : Lexeme}
    (h : ∀ offset more, more.length < x.text.length → again offset more = again' offset more)
    (offset : Nat) : ofLexeme again offset x = ofLexeme again' offset x := by
  unfold ofLexeme
  cases x.kind with
  | other | blockComment => rfl
  | lineComment =>
    dsimp only
    cases hline : splitLine x.text with
    | mk line remainder =>
      cases remainder with
      | none => rfl
      | some more => simp only [Option.elim_some, h _ more (length_lt_of_splitLine hline)]

/-- Only what is shorter than the text is lexed again. -/
theorem foundOnce_congr {again again' : Nat → Text → List Comment} {s : Text}
    (h : ∀ offset more, more.length < s.length → again offset more = again' offset more)
    (offset : Nat) : foundOnce lexer again offset s = foundOnce lexer again' offset s := by
  rw [foundOnce, foundOnce, List.flatMap_def, List.flatMap_def]
  congr 1
  refine List.map_congr_left fun x hx => ofLexeme_congr (fun offset more hmore => ?_) offset
  obtain ⟨before, after, hs, -⟩ := (lexer.tile s).split (List.mem_filter.1 hx).1
  refine h offset more (Nat.lt_of_lt_of_le hmore ?_)
  rw [hs, List.length_append, List.length_append]
  omega

/-- Lexing more often than a text is long finds nothing more. -/
theorem foundWithin_fuel {n m : Nat} {s : Text} (hn : s.length < n) (hm : s.length < m)
    (offset : Nat) : foundWithin lexer n offset s = foundWithin lexer m offset s := by
  induction n generalizing m s offset with
  | zero => omega
  | succ n ih =>
    cases m with
    | zero => omega
    | succ m =>
      exact foundOnce_congr (fun place more hmore => ih (by omega) (by omega) place) offset

/-- The comments of a text are those that one pass finds, with the comments of each rest. -/
theorem foundIn_eq (offset : Nat) (s : Text) :
    foundIn lexer offset s = foundOnce lexer (foundIn lexer) offset s :=
  foundOnce_congr (fun _ _ hmore => foundWithin_fuel hmore (Nat.lt_succ_self _) _) offset

/-- Nothing else is put together from passes that way: lexing again comes to an end. -/
theorem foundIn_unique {again : Nat → Text → List Comment}
    (hagain : ∀ offset s, again offset s = foundOnce lexer again offset s) :
    again = foundIn lexer := by
  have hfuel : ∀ fuel offset s, s.length < fuel → again offset s = foundIn lexer offset s := by
    intro fuel
    induction fuel with
    | zero => intro offset s h; omega
    | succ fuel ih =>
      intro offset s h
      rw [hagain, foundIn_eq]
      exact foundOnce_congr (fun place more hmore => ih place more (by omega)) offset
  funext offset s
  exact hfuel (s.length + 1) offset s (Nat.lt_succ_self _)

/-! ## Where comments stand -/

/-- A lexeme that is read stands in the text at the place where it is read. -/
theorem Reads.split {offset place : Nat} {s : Text} {x : Lexeme} (h : Reads lexer offset s place x) :
    ∃ before after, s = before ++ (x.text ++ after) ∧ place = offset + before.length := by
  induction h with
  | @first offset s x hx =>
    obtain ⟨before, after, hs, hplace⟩ := (lexer.tile s).split hx
    exact ⟨before, after, hs, by omega⟩
  | @again offset place s line more x y hx hkind hline hy ih =>
    obtain ⟨before, after, hs, hplace⟩ := (lexer.tile s).split hx
    obtain ⟨front, behind, hmore, hfront⟩ := ih
    obtain ⟨mark, hmark, -⟩ := splitLine_eq_some hline
    refine ⟨before ++ (line ++ (mark ++ front)), behind ++ after, ?_, ?_⟩
    · rw [hs, hmark, hmore]
      simp only [List.append_assoc]
    · rw [hfront, hmark, hmore]
      simp only [List.length_append]
      omega

/-- A comment is spelled at the start of a lexeme that is read there. A block comment is all of its
lexeme; a line comment holds no line terminator, and is all of its lexeme or stops at one. -/
structure Spelled (c : Comment) (x : Lexeme) (extra : Text) : Prop where
  kind : x.kind = if c.block then .blockComment else .lineComment
  text : x.text = c.spelling ++ extra
  stop : c.stop = c.start + c.spelling.length
  block : c.block = true → extra = []
  line : c.block = false → ∀ d ∈ c.text, d.isLineEnd = false
  ended : ∀ d, extra.head? = some d → d.isLineEnd = true

/-- Comments stand in a text at `offset`, in order and without overlap. -/
structure Stand (lexer : Lexer) (offset : Nat) (s : Text) (comments : List Comment) : Prop where
  read : ∀ c ∈ comments, ∃ x extra, Reads lexer offset s c.start x ∧ c.Spelled x extra
  ordered : comments.Pairwise fun c d => c.stop ≤ d.start

theorem length_spelling (c : Comment) : 0 < c.spelling.length := by
  unfold spelling
  split <;> simp

/-- A comment that is read lies in the text. -/
theorem Stand.bounds {offset : Nat} {s : Text} {comments : List Comment}
    (h : Stand lexer offset s comments) {c : Comment} (hc : c ∈ comments) :
    offset ≤ c.start ∧ c.start < c.stop ∧ c.stop ≤ offset + s.length := by
  obtain ⟨x, extra, hread, hspelled⟩ := h.read c hc
  obtain ⟨before, after, hs, hplace⟩ := hread.split
  have hstop := hspelled.stop
  have hpos := c.length_spelling
  have hlength : s.length = before.length + (c.spelling.length + extra.length + after.length) := by
    rw [hs, hspelled.text]
    simp only [List.length_append]
  omega

theorem Stand.nil (offset : Nat) (s : Text) : Stand lexer offset s [] := ⟨by simp, List.Pairwise.nil⟩

/-- A lexeme with the marks of a block comment has its text between them. -/
theorem exists_middle {text : Text} (hopen : Lexeme.starts "/*" text = true)
    (hclose : Text.endsWith text "*/" = true) (hlength : 4 ≤ text.length) :
    ∃ middle, text = CodePoint.slash :: CodePoint.ofChar '*' ::
      (middle ++ [CodePoint.ofChar '*', CodePoint.slash]) := by
  obtain ⟨rest, rfl⟩ := exists_of_starts hopen
  obtain ⟨front, hfront⟩ := List.isSuffixOf_iff_suffix.1 hclose
  have hrest : (Text.ofString "*/").length ≤ rest.length := by
    rw [List.length_append] at hlength
    exact Nat.le_of_add_le_add_left (a := (Text.ofString "/*").length) hlength
  obtain ⟨middle, hmiddle⟩ := List.suffix_of_suffix_length_le ⟨front, hfront⟩
    (List.suffix_append (Text.ofString "/*") rest) hrest
  exact ⟨middle, by rw [← hmiddle]; rfl⟩

section

variable {again : Nat → Text → List Comment} {s : Text} {x : Lexeme}

/-- A lexeme of a block comment is one comment. -/
theorem stand_block (offset : Nat) (hx : x ∈ lexer.lexemes s) (hkind : x.kind = .blockComment)
    (hspelled : x.isSpelled = true) : Stand lexer offset s (ofLexeme again offset x) ∧
      ∀ c ∈ ofLexeme again offset x, offset + x.start ≤ c.start ∧
        c.stop ≤ offset + x.start + x.text.length := by
  rw [Lexeme.isSpelled, hkind] at hspelled
  simp only [Bool.and_eq_true, decide_eq_true_eq] at hspelled
  obtain ⟨middle, htext⟩ := exists_middle hspelled.1.1 hspelled.1.2 hspelled.2
  have hcomments : ofLexeme again offset x =
      [⟨offset + x.start, offset + x.start + (middle.length + 4), middle, true⟩] := by
    simp [ofLexeme, hkind, htext]
  rw [hcomments]
  refine ⟨⟨?_, List.pairwise_singleton _ _⟩, ?_⟩
  · refine List.forall_mem_singleton.2 ⟨x, [], .first hx, hkind, ?_, ?_, fun _ => rfl, by simp,
      by simp⟩
    · rw [htext, List.append_nil]
      rfl
    · simp [spelling]
  · refine List.forall_mem_singleton.2 ⟨Nat.le_refl _, ?_⟩
    simp [htext]

/-- A lexeme of a line comment is one comment, with those of its rest. -/
theorem stand_line (hagain : ∀ offset s, Stand lexer offset s (again offset s)) (offset : Nat)
    (hx : x ∈ lexer.lexemes s) (hkind : x.kind = .lineComment) (hspelled : x.isSpelled = true) :
    Stand lexer offset s (ofLexeme again offset x) ∧
      ∀ c ∈ ofLexeme again offset x, offset + x.start ≤ c.start ∧
        c.stop ≤ offset + x.start + x.text.length := by
  rw [Lexeme.isSpelled, hkind] at hspelled
  obtain ⟨rest, htext⟩ := exists_of_starts hspelled
  replace htext : x.text = CodePoint.slash :: CodePoint.slash :: rest := htext
  obtain ⟨mark, hsplit, hsome, hnone⟩ := splitLine_spec rest
  have hopen := splitLine_open rest
  have hline : splitLine x.text =
      (CodePoint.slash :: CodePoint.slash :: (splitLine rest).1, (splitLine rest).2) := by
    rw [htext, splitLine_slash, splitLine_slash]
  simp only [ofLexeme, hkind, hline, List.length_cons]
  generalize (splitLine rest).1 = line at *
  generalize (splitLine rest).2 = remainder at *
  have hspelled : Spelled ⟨offset + x.start, offset + x.start + (line.length + 1 + 1), line, false⟩
      x (mark ++ remainder.getD []) := by
    refine ⟨hkind, ?_, by simp [spelling], by simp, fun _ => hopen, fun d hd => ?_⟩
    · rw [htext, hsplit]
      rfl
    · cases remainder with
      | none =>
        rw [hnone rfl] at hd
        cases hd
      | some more =>
        obtain ⟨c, hc, hend⟩ := hsome more rfl
        rw [List.head?_append, hc] at hd
        cases hd
        exact hend
  have hlength : x.text.length = line.length + 2 + (mark.length + (remainder.getD []).length) := by
    rw [htext, hsplit]
    simp only [List.length_cons, List.length_append]
    omega
  cases remainder with
  | none =>
    refine ⟨⟨?_, List.pairwise_singleton _ _⟩, ?_⟩
    · exact List.forall_mem_singleton.2 ⟨x, _, .first hx, hspelled⟩
    · refine List.forall_mem_singleton.2 ⟨Nat.le_refl _, ?_⟩
      dsimp only
      omega
  | some more =>
    rw [Option.elim_some]
    have hrest := hagain (offset + x.start + (x.text.length - more.length)) more
    rw [Option.getD_some] at hlength
    refine ⟨⟨?_, List.pairwise_cons.2 ⟨fun c hc => ?_, hrest.ordered⟩⟩, ?_⟩
    · refine List.forall_mem_cons.2 ⟨⟨x, _, .first hx, hspelled⟩, fun c hc => ?_⟩
      obtain ⟨y, extra, hread, hc⟩ := hrest.read c hc
      exact ⟨y, extra, .again hx hkind hline hread, hc⟩
    · have := (hrest.bounds hc).1
      dsimp only
      omega
    · refine List.forall_mem_cons.2 ⟨⟨Nat.le_refl _, ?_⟩, fun c hc => ?_⟩
      · dsimp only
        omega
      · have := hrest.bounds hc
        omega

/-- The comments of a text that is lexed once stand in it, if those of every rest do. -/
theorem stand_foundOnce (hagain : ∀ offset s, Stand lexer offset s (again offset s)) (offset : Nat)
    (s : Text) : Stand lexer offset s (foundOnce lexer again offset s) := by
  have hlexeme : ∀ x ∈ (lexer.lexemes s).filter Lexeme.isSpelled,
      Stand lexer offset s (ofLexeme again offset x) ∧ ∀ c ∈ ofLexeme again offset x,
        offset + x.start ≤ c.start ∧ c.stop ≤ offset + x.start + x.text.length := by
    intro x hx
    obtain ⟨hx, hspelled⟩ := List.mem_filter.1 hx
    cases hkind : x.kind with
    | other =>
      rw [Lexeme.isSpelled, hkind] at hspelled
      cases hspelled
    | lineComment => exact stand_line hagain offset hx hkind hspelled
    | blockComment => exact stand_block offset hx hkind hspelled
  have hordered := (lexer.tile s).ordered.filter Lexeme.isSpelled
  unfold foundOnce
  generalize (lexer.lexemes s).filter Lexeme.isSpelled = xs at hlexeme hordered
  induction xs with
  | nil => exact .nil offset s
  | cons x xs ih =>
    obtain ⟨hfirst, hrest⟩ := List.pairwise_cons.1 hordered
    obtain ⟨hx, hxs⟩ := List.forall_mem_cons.1 hlexeme
    have hlater := ih hxs hrest
    rw [List.flatMap_cons]
    refine ⟨fun c hc => ?_, List.pairwise_append.2 ⟨hx.1.ordered, hlater.ordered, ?_⟩⟩
    · exact (List.mem_append.1 hc).elim (hx.1.read c) (hlater.read c)
    · intro c hc d hd
      obtain ⟨y, hy, hdy⟩ := List.mem_flatMap.1 hd
      have := (hx.2 c hc).2
      have := ((hxs y hy).2 d hdy).1
      have := hfirst y hy
      omega

end

/-- The comments that a lexer finds in a text stand in it. -/
theorem stand_foundIn (lexer : Lexer) (offset : Nat) (s : Text) :
    Stand lexer offset s (foundIn lexer offset s) := by
  have hwithin : ∀ fuel offset s, Stand lexer offset s (foundWithin lexer fuel offset s) := by
    intro fuel
    induction fuel with
    | zero => exact .nil
    | succ fuel ih => exact stand_foundOnce ih
  exact hwithin _ offset s

/-! ## The lexer of scripts -/

/-- The lexer of scripts spells its comments. -/
theorem isSpelled_of_mem_scan {s : Text} {x : Lexeme} (hx : x ∈ Lexeme.scan s)
    (hkind : x.kind ≠ .other) : x.isSpelled = true := by
  obtain ⟨before, after, -, -, hgap⟩ :=
    ((cutOut_scanFrom s.length none [.code] 0 s).1 x hx).split
  replace hgap := hgap hkind
  unfold Lexeme.isSpelled
  cases hcase : x.kind with
  | other => exact absurd hcase hkind
  | lineComment =>
    rw [hcase] at hgap
    obtain ⟨⟨rest, htext⟩, -⟩ := line_of_gap? hgap
    rw [htext]
    exact List.isPrefixOf_iff_prefix.2 ⟨rest, rfl⟩
  | blockComment =>
    rw [hcase] at hgap
    obtain ⟨middle, htext⟩ := block_of_gap? hgap
    simp only [Bool.and_eq_true, decide_eq_true_eq]
    refine ⟨⟨?_, ?_⟩, ?_⟩
    · rw [htext]
      exact List.isPrefixOf_iff_prefix.2 ⟨middle ++ Text.ofString "*/", rfl⟩
    · rw [htext]
      exact List.isSuffixOf_iff_suffix.2 ⟨CodePoint.slash :: CodePoint.ofChar '*' :: middle, rfl⟩
    · simp [htext]

theorem flatMap_filter_isSpelled {xs : List Lexeme}
    (hxs : ∀ x ∈ xs, x.kind ≠ .other → x.isSpelled = true) (again : Nat → Text → List Comment)
    (offset : Nat) :
    (xs.filter Lexeme.isSpelled).flatMap (ofLexeme again offset) =
      xs.flatMap (ofLexeme again offset) := by
  induction xs with
  | nil => rfl
  | cons x xs ih =>
    obtain ⟨hx, hrest⟩ := List.forall_mem_cons.1 hxs
    rw [List.filter_cons]
    split
    · rw [List.flatMap_cons, List.flatMap_cons, ih hrest]
    · rename_i hnot
      have hkind : x.kind = .other := by
        by_contra hkind
        exact hnot (hx hkind)
      rw [List.flatMap_cons, ih hrest, ofLexeme, hkind]
      rfl

theorem foundWithin_script (fuel offset : Nat) (s : Text) :
    foundWithin .script fuel offset s = within fuel offset s := by
  induction fuel generalizing offset s with
  | zero => rfl
  | succ fuel ih =>
    have hagain : foundWithin .script fuel = within fuel := by
      funext place more
      exact ih place more
    rw [foundWithin, hagain, foundOnce, within]
    exact flatMap_filter_isSpelled (fun x => isSpelled_of_mem_scan) _ _

/-- The comments of a script are those that its own lexer finds. -/
theorem foundBy_script (s : Text) : foundBy .script s = find s :=
  foundWithin_script (s.length + 1) 0 s

/-- A line comment of a script is read up to the end of its line. -/
theorem Reads.script_ended {offset place : Nat} {s : Text} {x : Lexeme}
    (h : Reads .script offset s place x) (hkind : x.kind = .lineComment) :
    ∃ before after, s = before ++ (x.text ++ after) ∧ place = offset + before.length ∧
      ∀ d, after.head? = some d → d.isLineEnd = true := by
  have hlexeme : ∀ {s : Text} {x : Lexeme}, x ∈ Lexeme.scan s → x.kind = .lineComment →
      ∃ before after, s = before ++ (x.text ++ after) ∧ x.start = before.length ∧
        ∀ d, after.head? = some d → d.isLineEnd = true := by
    intro s x hx hkind
    obtain ⟨before, after, hs, hstart, hgap⟩ :=
      ((cutOut_scanFrom s.length none [.code] 0 s).1 x hx).split
    rw [hkind] at hgap
    exact ⟨before, after, hs, by omega, (line_of_gap? (hgap (by simp))).2⟩
  induction h with
  | @first offset s x hx =>
    obtain ⟨before, after, hs, hstart, hended⟩ := hlexeme hx hkind
    exact ⟨before, after, hs, by omega, hended⟩
  | @again offset place s line more x y hx hkind' hline hy ih =>
    obtain ⟨before, after, hs, hstart, hended⟩ := hlexeme hx hkind'
    obtain ⟨front, behind, hmore, hfront, hbehind⟩ := ih hkind
    obtain ⟨mark, hmark, -⟩ := splitLine_eq_some hline
    refine ⟨before ++ (line ++ (mark ++ front)), behind ++ after, ?_, ?_, fun d hd => ?_⟩
    · rw [hs, hmark, hmore]
      simp only [List.append_assoc]
    · rw [hfront, hmark, hmore]
      simp only [List.length_append]
      omega
    · cases behind with
      | nil => exact hended d hd
      | cons b behind => exact hbehind d hd

/-- What a comment of a text is, and what stands after it. -/
theorem Spelled.place {s : Text} {c : Comment} {x : Lexeme} {extra : Text} (h : c.Spelled x extra)
    {before after : Text} (hs : s = before ++ (x.text ++ after)) (hstart : c.start = before.length) :
    s.slice c.start c.stop = c.spelling ∧ s[c.stop]? = (extra ++ after).head? := by
  have hsplit : s = before ++ (c.spelling ++ (extra ++ after)) := by
    rw [hs, h.text, List.append_assoc]
  rw [hsplit, h.stop, hstart]
  constructor
  · have := Text.slice_lift c.spelling before (extra ++ after) (Nat.zero_le _) (Nat.le_refl _)
    rw [Nat.add_zero] at this
    rw [this]
    simp [Text.slice]
  · rw [List.getElem?_append_right (Nat.le_add_right ..), Nat.add_sub_cancel_left,
      List.getElem?_append_right (Nat.le_refl _), Nat.sub_self, List.head?_eq_getElem?]

/-- A line comment of a script stops at the end of its line or of the script. -/
theorem ended_of_mem_find {s : Text} {c : Comment} (hc : c ∈ find s) (hline : c.block = false)
    {d : CodePoint} (hd : s[c.stop]? = some d) : d.isLineEnd = true := by
  rw [← foundBy_script] at hc
  obtain ⟨x, extra, hread, hspelled⟩ := (stand_foundIn .script 0 s).read c hc
  have hkind := hspelled.kind
  rw [hline, if_neg Bool.false_ne_true] at hkind
  obtain ⟨before, after, hs, hplace, hended⟩ := hread.script_ended hkind
  rw [(hspelled.place hs (by omega)).2] at hd
  cases extra with
  | nil => exact hended d hd
  | cons e extra => exact hspelled.ended d hd

end Comment

namespace Directive

/-- The directives of a script are those that its own lexer finds. -/
theorem scanBy_script (source : Text) : scanBy .script source = scan source := by
  rw [scanBy, Comment.foundBy_script]
  rfl

/-- A directive of a script is a comment that its lexer finds, with the position of its start. -/
theorem mem_scanBy {lexer : Lexer} {source : Text} {d : Directive}
    (h : d ∈ scanBy lexer source) : ∃ c ∈ Comment.foundBy lexer source,
      d.span.start = c.start ∧ d.span.stop = c.stop ∧
        ofComment? c.text c.block = some (d.tag, d.payload) ∧
        d.span.position.Locates source d.span.start := by
  obtain ⟨c, hc, hd⟩ := List.mem_filterMap.1 h
  obtain ⟨⟨tag, payload⟩, hfound, rfl⟩ := Option.map_eq_some_iff.1 hd
  exact ⟨c, hc, rfl, rfl, hfound, Position.locates_locate source c.start⟩

theorem scanBy_ordered (lexer : Lexer) (source : Text) :
    (scanBy lexer source).Pairwise fun d e => d.span.stop ≤ e.span.start := by
  refine List.pairwise_filterMap.2 ((Comment.stand_foundIn lexer 0 source).ordered.imp ?_)
  intro c e h d hd d' hd'
  obtain ⟨found, -, rfl⟩ := Option.map_eq_some_iff.1 hd
  obtain ⟨found', -, rfl⟩ := Option.map_eq_some_iff.1 hd'
  exact h

end Directive

/-- Whatever the lexer, lexing again comes to an end, in the one list of comments that passes over a
text and its rests are put together to. The comments have something in them, follow one another and
are spelled, marks included, where they stand; a line comment holds no line terminator and stops at
one, or where the lexeme stops in which it was read. So the directives follow one another too, each
at the position of its start. The lexer of scripts finds the comments and directives of scripts. -/
theorem Lexer.finds_in_order (lexer : Lexer) (source : Text) :
    (∀ again : Nat → Text → List Comment,
      (∀ offset s, again offset s = Comment.foundOnce lexer again offset s) ↔
        again = Comment.foundIn lexer) ∧
    (Comment.foundBy lexer source).Pairwise (fun c d => c.stop ≤ d.start) ∧
    (∀ c ∈ Comment.foundBy lexer source, c.start < c.stop ∧ c.stop ≤ source.length ∧
      source.slice c.start c.stop = c.spelling ∧
      (c.block = false → (∀ d ∈ c.text, d.isLineEnd = false) ∧
        ((∃ d, source[c.stop]? = some d ∧ d.isLineEnd = true) ∨
          ∃ x, Comment.Reads lexer 0 source c.start x ∧ c.stop = c.start + x.text.length))) ∧
    (Directive.scanBy lexer source).Pairwise (fun d e => d.span.stop ≤ e.span.start) ∧
    (∀ d ∈ Directive.scanBy lexer source, d.span.start < d.span.stop ∧
      d.span.stop ≤ source.length ∧ d.span.position.Locates source d.span.start) ∧
    Comment.foundBy .script source = Comment.find source ∧
    Directive.scanBy .script source = Directive.scan source := by
  have hstand := Comment.stand_foundIn lexer 0 source
  refine ⟨fun again => ⟨Comment.foundIn_unique, ?_⟩, hstand.ordered, fun c hc => ?_,
    Directive.scanBy_ordered lexer source, fun d hd => ?_, Comment.foundBy_script source,
    Directive.scanBy_script source⟩
  · rintro rfl
    exact Comment.foundIn_eq
  · obtain ⟨-, hlt, hle⟩ := hstand.bounds hc
    obtain ⟨x, extra, hread, hspelled⟩ := hstand.read c hc
    obtain ⟨before, after, hsource, hplace⟩ := hread.split
    obtain ⟨hslice, hnext⟩ := hspelled.place hsource (by omega)
    refine ⟨hlt, by omega, hslice, fun hline => ⟨hspelled.line hline, ?_⟩⟩
    cases extra with
    | nil => exact Or.inr ⟨x, hread, by rw [hspelled.text, List.append_nil, hspelled.stop]⟩
    | cons e extra => exact Or.inl ⟨e, hnext, hspelled.ended e rfl⟩
  · obtain ⟨c, hc, hstart, hstop, -, hposition⟩ := Directive.mem_scanBy hd
    obtain ⟨-, hlt, hle⟩ := hstand.bounds hc
    exact ⟨by omega, by omega, hposition⟩

end GuardedText
