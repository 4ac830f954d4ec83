import Mathlib.Data.List.TakeWhile
import GuardedText.Directive

/-
  What the text of a comment says. A line comment is looked at as a whole, a block comment at its
  first line with something in it (`Directive.ContentLine`). That line is a directive if it is white
  space, the number sign, the word of a tag, and then nothing more or white space first
  (`Directive.Parts`); no line is one in two ways (`Directive.Parts.unique`). Exactly such texts are
  taken for directives (`Directive.ofComment?_grammar`).
-/

namespace GuardedText

/-! ## Lines -/

namespace Text

/-- A line terminator, and what it is followed by: CR LF, or LF, CR, LS or PS alone. -/
inductive Terminates : Text → Text → Prop where
  | pair {c d : CodePoint} {rest : Text} (hc : c.val = 0x0D) (hd : d.val = 0x0A) :
    Terminates [c, d] rest
  | single {c : CodePoint} {rest : Text} (hc : c.isLineEnd = true)
    (hrest : ∀ d, rest.head? = some d → ¬ (c.val = 0x0D ∧ d.val = 0x0A)) : Terminates [c] rest

/-- A text falls into lines: none of them has a line terminator in it, and one stands between each
two. -/
inductive Splits : Text → List Text → Prop where
  | last {line : Text} (hline : ∀ c ∈ line, c.isLineEnd = false) : Splits line [line]
  | line {line mark rest : Text} {lines : List Text} (hline : ∀ c ∈ line, c.isLineEnd = false)
    (hmark : Terminates mark rest) (hrest : Splits rest lines) :
    Splits (line ++ (mark ++ rest)) (line :: lines)

theorem linesGo_cons_open {c : CodePoint} (hc : c.isLineEnd = false) (line s : Text) :
    linesGo line (c :: s) = linesGo (c :: line) s := by
  cases s <;> simp [linesGo, hc]

theorem linesGo_append_open {start : Text} (hstart : ∀ c ∈ start, c.isLineEnd = false)
    (line s : Text) : linesGo line (start ++ s) = linesGo (start.reverse ++ line) s := by
  induction start generalizing line with
  | nil => rfl
  | cons c start ih =>
    obtain ⟨hc, hrest⟩ := List.forall_mem_cons.1 hstart
    rw [List.cons_append, linesGo_cons_open hc, ih hrest, List.reverse_cons, List.append_assoc]
    rfl

theorem linesGo_terminates {mark rest : Text} (h : Terminates mark rest) (line : Text) :
    linesGo line (mark ++ rest) = line.reverse :: linesGo [] rest := by
  cases h with
  | @pair c d rest hc hd => simp [linesGo, CodePoint.isLineEnd, hc, hd]
  | @single c rest hc hrest =>
    cases rest with
    | nil => simp [linesGo, hc]
    | cons d rest =>
      have hpair : (c.val == 0x0D && d.val == 0x0A) = false := by
        rw [Bool.eq_false_iff]
        simpa using hrest d rfl
      simp [linesGo, hc, hpair]

theorem Splits.lines_eq {s : Text} {ls : List Text} (h : Splits s ls) : lines s = ls := by
  unfold lines
  induction h with
  | @last line hline =>
    have := linesGo_append_open hline [] []
    rw [List.append_nil, List.append_nil] at this
    rw [this, linesGo, List.reverse_reverse]
  | @line line mark rest ls hline hmark hrest ih =>
    rw [linesGo_append_open hline, linesGo_terminates hmark, List.append_nil, List.reverse_reverse,
      ih]

theorem splits_linesGo {line : Text} (s : Text) (hline : ∀ c ∈ line, c.isLineEnd = false) :
    Splits (line.reverse ++ s) (linesGo line s) := by
  have hopen : ∀ {line : Text}, (∀ c ∈ line, c.isLineEnd = false) →
      ∀ c ∈ line.reverse, c.isLineEnd = false := fun h c hc => h c (List.mem_reverse.1 hc)
  induction line, s using linesGo.induct with
  | case1 line =>
    rw [linesGo, List.append_nil]
    exact .last (hopen hline)
  | case2 line c hend =>
    rw [linesGo, if_pos hend]
    have hmark : Terminates [c] [] := .single hend (by simp)
    exact .line (hopen hline) hmark (.last (by simp))
  | case3 line c hend =>
    rw [linesGo, if_neg hend, ← List.reverse_cons]
    exact .last (hopen (List.forall_mem_cons.2 ⟨Bool.eq_false_iff.2 hend, hline⟩))
  | case4 line c d s hend hpair ih =>
    rw [linesGo, if_pos hend, if_pos hpair]
    rw [Bool.and_eq_true, beq_iff_eq, beq_iff_eq] at hpair
    exact .line (hopen hline) (.pair hpair.1 hpair.2) (ih (by simp))
  | case5 line c d s hend hpair ih =>
    rw [linesGo, if_pos hend, if_neg hpair]
    have hmark : Terminates [c] (d :: s) := by
      refine .single hend fun e he => ?_
      cases he
      simpa using hpair
    exact .line (hopen hline) hmark (ih (by simp))
  | case6 line c d s hend ih =>
    have := ih (List.forall_mem_cons.2 ⟨Bool.eq_false_iff.2 hend, hline⟩)
    rw [List.reverse_cons, List.append_assoc] at this
    rw [linesGo, if_neg hend]
    exact this

/-- A text falls into its lines and no others. -/
theorem splits_iff {s : Text} {ls : List Text} : Splits s ls ↔ lines s = ls := by
  refine ⟨Splits.lines_eq, ?_⟩
  rintro rfl
  have hnil : ∀ c ∈ ([] : Text), c.isLineEnd = false := by simp
  exact splits_linesGo s hnil

theorem takeWhile_of_ends {p : CodePoint → Bool} {lead rest : Text} (hlead : ∀ c ∈ lead, p c = true)
    (hrest : ∀ c, rest.head? = some c → p c = false) : (lead ++ rest).takeWhile p = lead := by
  rw [List.takeWhile_append_of_pos hlead]
  cases rest with
  | nil => simp
  | cons c rest => simp [hrest c rfl]

theorem dropWhile_of_ends {p : CodePoint → Bool} {lead rest : Text} (hlead : ∀ c ∈ lead, p c = true)
    (hrest : ∀ c, rest.head? = some c → p c = false) : (lead ++ rest).dropWhile p = rest := by
  rw [List.dropWhile_append_of_pos hlead]
  cases rest with
  | nil => rfl
  | cons c rest => simp [hrest c rfl]

theorem head?_dropWhile_eq_false {p : CodePoint → Bool} {s : Text} {c : CodePoint}
    (h : (s.dropWhile p).head? = some c) : p c = false := by
  have := List.head?_dropWhile_not p s
  rw [h] at this
  simpa using this

end Text

namespace Directive

/-! ## The line looked at -/

/-- What is left of a line of a block comment: its indentation goes, and one star after it. -/
inductive Uncovered : Text → Text → Prop where
  | star {indent left : Text} (hindent : ∀ c ∈ indent, c.isBlank = true) :
    Uncovered (indent ++ CodePoint.ofChar '*' :: left) left
  | bare {indent left : Text} (hindent : ∀ c ∈ indent, c.isBlank = true)
    (hleft : ∀ c, left.head? = some c → c.isBlank = false ∧ c ≠ CodePoint.ofChar '*') :
    Uncovered (indent ++ left) left

theorem uncovered_iff {line left : Text} : Uncovered line left ↔ uncover line = left := by
  have hstar : (CodePoint.ofChar '*').isBlank = false := by decide
  constructor
  · rintro (hindent | ⟨hindent, hleft⟩)
    · have : Text.after? "*" (CodePoint.ofChar '*' :: left) = some left :=
        Text.after?_eq_some_iff.2 rfl
      rw [uncover, Text.dropWhile_of_ends hindent (by simp [hstar])]
      simp [this]
    · have : Text.after? "*" left = none := by
        rw [Option.eq_none_iff_forall_ne_some]
        intro rest hrest
        rw [Text.after?_eq_some_iff] at hrest
        exact (hleft _ (congrArg List.head? hrest)).2 rfl
      rw [uncover, Text.dropWhile_of_ends hindent fun c hc => (hleft c hc).1]
      simp [this]
  · rintro rfl
    have hline := List.takeWhile_append_dropWhile (p := CodePoint.isBlank) (l := line)
    have hindent : ∀ c ∈ line.takeWhile CodePoint.isBlank, c.isBlank = true := fun c =>
      List.mem_takeWhile_imp
    rw [uncover]
    cases hrest : Text.after? "*" (line.dropWhile CodePoint.isBlank) with
    | some rest =>
      have hstars : Uncovered (_ ++ CodePoint.ofChar '*' :: rest) rest := .star hindent
      rwa [show CodePoint.ofChar '*' :: rest = line.dropWhile CodePoint.isBlank from
        (Text.after?_eq_some_iff.1 hrest).symm, hline] at hstars
    | none =>
      have hleft : ∀ c, (line.dropWhile CodePoint.isBlank).head? = some c →
          c ≠ CodePoint.ofChar '*' := by
        rintro _ hc rfl
        obtain ⟨rest, hrest'⟩ := List.head?_eq_some_iff.1 hc
        rw [Text.after?_eq_some_iff.2 hrest'] at hrest
        cases hrest
      have hbare := Uncovered.bare hindent fun c hc =>
        ⟨Text.head?_dropWhile_eq_false hc, hleft c hc⟩
      rwa [hline] at hbare

/-- The line of a comment that may hold a directive. -/
inductive ContentLine : Text → Bool → Text → Prop where
  /-- A line comment as a whole. -/
  | whole (text : Text) : ContentLine text false text
  /-- What is left of the first line of a block comment of which anything but white space is
  left. -/
  | first {text line left : Text} {before after : List Text}
    (hlines : Text.Splits text (before ++ line :: after)) (hline : Uncovered line left)
    (hleft : ∃ c ∈ left, c.isBlank = false)
    (hbefore : ∀ l ∈ before, ∀ u, Uncovered l u → ∀ c ∈ u, c.isBlank = true) :
    ContentLine text true left

theorem contentLine?_eq_some_iff {text line : Text} {block : Bool} :
    contentLine? text block = some line ↔ ContentLine text block line := by
  cases block with
  | false =>
    constructor
    · intro h
      cases h
      exact .whole text
    · rintro ⟨⟩
      rfl
  | true =>
    rw [contentLine?, if_pos rfl, List.find?_map, Option.map_eq_some_iff]
    constructor
    · rintro ⟨raw, hraw, rfl⟩
      obtain ⟨hleft, before, after, hlines, hbefore⟩ := List.find?_eq_some_iff_append.1 hraw
      refine .first (Text.splits_iff.2 hlines) (uncovered_iff.2 rfl) (by simpa using hleft) ?_
      intro l hl u hu
      rw [← uncovered_iff.1 hu]
      simpa using hbefore l hl
    · rintro (_ | ⟨hlines, hline, hleft, hbefore⟩)
      refine ⟨_, List.find?_eq_some_iff_append.2 ⟨?_, _, _, Text.splits_iff.1 hlines, ?_⟩,
        uncovered_iff.1 hline⟩
      · simpa [uncovered_iff.1 hline] using hleft
      · intro l hl
        simpa using hbefore l hl _ (uncovered_iff.2 rfl)

/-! ## The parts of a directive -/

/-- A line is a directive: white space, the number sign, the word of a tag, and then nothing more or
white space first. -/
structure Parts (line indent : Text) (tag : Tag) (rest : Text) : Prop where
  /-- The line is these parts in a row. -/
  line_eq : line = indent ++ CodePoint.ofChar '#' :: (Text.ofString tag.word ++ rest)
  /-- The first is white space. -/
  blank : ∀ c ∈ indent, c.isBlank = true
  /-- The word ends where the rest begins. -/
  apart : ∀ c, rest.head? = some c → c.isBlank = true

theorem isBlank_of_mem_word (tag : Tag) : ∀ c ∈ Text.ofString tag.word, c.isBlank = false := by
  -- Checked over the letters: the code points are too many to go through.
  have hall : (Text.ofString tag.word).all fun c => !c.isBlank := by
    cases tag <;> decide
  intro c hc
  simpa using List.all_eq_true.1 hall c hc

theorem word_injective {tag tag' : Tag} (h : Text.ofString tag.word = Text.ofString tag'.word) :
    tag = tag' := by
  revert h
  cases tag <;> cases tag' <;> decide

namespace Parts

variable {line indent indent' rest rest' : Text} {tag tag' : Tag}

theorem indent_eq (h : Parts line indent tag rest) : indent = line.takeWhile CodePoint.isBlank := by
  have hsign : (CodePoint.ofChar '#').isBlank = false := by decide
  rw [h.line_eq, Text.takeWhile_of_ends h.blank (by simp [hsign])]

theorem word_eq (h : Parts line indent tag rest) :
    Text.ofString tag.word =
      ((Text.ofString tag.word ++ rest).takeWhile fun c => !c.isBlank) := by
  refine (Text.takeWhile_of_ends (fun c hc => ?_) fun c hc => ?_).symm
  · rw [isBlank_of_mem_word tag c hc]
    rfl
  · rw [h.apart c hc]
    rfl

/-- A line is a directive in one way at most. -/
theorem unique (h : Parts line indent tag rest) (h' : Parts line indent' tag' rest') :
    indent = indent' ∧ tag = tag' ∧ rest = rest' := by
  have hindent : indent = indent' := h.indent_eq.trans h'.indent_eq.symm
  have hline := h.line_eq.symm.trans h'.line_eq
  rw [hindent] at hline
  have htail := List.tail_eq_of_cons_eq (List.append_cancel_left hline)
  have hword : Text.ofString tag.word = Text.ofString tag'.word := by
    rw [h.word_eq, h'.word_eq, htail]
  rw [hword] at htail
  exact ⟨hindent, word_injective hword, List.append_cancel_left htail⟩

end Parts

theorem payload?_eq_some_iff {rest payload : Text} : payload? rest = some payload ↔
    (∀ c, rest.head? = some c → c.isBlank = true) ∧ rest.dropWhile CodePoint.isBlank = payload := by
  cases rest with
  | nil => simp [payload?]
  | cons c rest => simp [payload?]

theorem parts_of_ofLine? {line payload : Text} {tag : Tag} (h : ofLine? line = some (tag, payload)) :
    ∃ indent rest, Parts line indent tag rest ∧ rest.dropWhile CodePoint.isBlank = payload := by
  obtain ⟨s, hs, htag⟩ := Option.bind_eq_some_iff.1 h
  obtain ⟨tag', -, hfound⟩ := List.exists_of_findSome?_eq_some htag
  obtain ⟨payload', hpayload, hpair⟩ := Option.map_eq_some_iff.1 hfound
  obtain ⟨rfl, rfl⟩ := Prod.mk.inj hpair
  obtain ⟨rest, hrest, hpayload⟩ := Option.bind_eq_some_iff.1 hpayload
  obtain ⟨hapart, hpayload⟩ := payload?_eq_some_iff.1 hpayload
  have hline : line = line.takeWhile CodePoint.isBlank ++ line.dropWhile CodePoint.isBlank :=
    List.takeWhile_append_dropWhile.symm
  rw [Text.after?_eq_some_iff.1 hs, Text.after?_eq_some_iff.1 hrest] at hline
  exact ⟨_, rest, ⟨hline, fun c => List.mem_takeWhile_imp, hapart⟩, hpayload⟩

theorem ofLine?_eq_some_iff {line payload : Text} {tag : Tag} :
    ofLine? line = some (tag, payload) ↔ ∃ indent rest,
      Parts line indent tag rest ∧ rest.dropWhile CodePoint.isBlank = payload := by
  refine ⟨parts_of_ofLine?, ?_⟩
  rintro ⟨indent, rest, hparts, rfl⟩
  have hsign : (CodePoint.ofChar '#').isBlank = false := by decide
  have hafter : Text.after? "#" (line.dropWhile CodePoint.isBlank) =
      some (Text.ofString tag.word ++ rest) := by
    rw [hparts.line_eq, Text.dropWhile_of_ends hparts.blank (by simp [hsign])]
    exact Text.after?_eq_some_iff.2 rfl
  -- Some tag is found, though it has to be seen that no other comes before this one.
  have hsome : (ofLine? line).isSome := by
    rw [ofLine?, hafter, Option.bind_some, List.findSome?_isSome_iff]
    refine ⟨tag, by cases tag <;> simp, ?_⟩
    rw [Text.after?_eq_some_iff.2 rfl, Option.bind_some,
      payload?_eq_some_iff.2 ⟨hparts.apart, rfl⟩]
    rfl
  obtain ⟨⟨tag', payload'⟩, hfound⟩ := Option.isSome_iff_exists.1 hsome
  obtain ⟨indent', rest', hparts', hpayload⟩ := parts_of_ofLine? hfound
  obtain ⟨-, rfl, rfl⟩ := hparts.unique hparts'
  rw [hfound, hpayload]

/-! ## The grammar -/

theorem dropWhile_isBlank_eq_iff {rest payload : Text} :
    rest.dropWhile CodePoint.isBlank = payload ↔ ∃ gap, rest = gap ++ payload ∧
      (∀ c ∈ gap, c.isBlank = true) ∧ ∀ c, payload.head? = some c → c.isBlank = false := by
  constructor
  · rintro rfl
    exact ⟨_, List.takeWhile_append_dropWhile.symm, fun c => List.mem_takeWhile_imp,
      fun c => Text.head?_dropWhile_eq_false⟩
  · rintro ⟨gap, rfl, hgap, hpayload⟩
    exact Text.dropWhile_of_ends hgap hpayload

theorem ContentLine.unique {text line line' : Text} {block : Bool} (h : ContentLine text block line)
    (h' : ContentLine text block line') : line = line' :=
  Option.some.inj ((contentLine?_eq_some_iff.2 h).symm.trans (contentLine?_eq_some_iff.2 h'))

/-- Exactly the comments whose content line is white space, the number sign, the word of a tag and
then nothing more or white space first are directives. The line has these parts in one way, and the
payload is what stands after the word and the white space that follows it. -/
theorem ofComment?_grammar (text : Text) (block : Bool) :
    (∀ tag payload, ofComment? text block = some (tag, payload) ↔
      ∃ line indent rest gap, ContentLine text block line ∧ Parts line indent tag rest ∧
        rest = gap ++ payload ∧ (∀ c ∈ gap, c.isBlank = true) ∧
        ∀ c, payload.head? = some c → c.isBlank = false) ∧
    (∀ line line' indent indent' tag tag' rest rest',
      ContentLine text block line → Parts line indent tag rest →
      ContentLine text block line' → Parts line' indent' tag' rest' →
      line = line' ∧ indent = indent' ∧ tag = tag' ∧ rest = rest') ∧
    (ofComment? text block = none ↔
      ∀ line indent tag rest, ContentLine text block line → ¬ Parts line indent tag rest) := by
  have hfound : ∀ tag payload, ofComment? text block = some (tag, payload) ↔
      ∃ line indent rest, ContentLine text block line ∧ Parts line indent tag rest ∧
        rest.dropWhile CodePoint.isBlank = payload := by
    intro tag payload
    simp only [ofComment?, Option.bind_eq_some_iff, contentLine?_eq_some_iff, ofLine?_eq_some_iff,
      exists_and_left]
  refine ⟨fun tag payload => ?_, ?_, ?_⟩
  · simp only [hfound, dropWhile_isBlank_eq_iff, exists_and_left]
  · rintro line line' indent indent' tag tag' rest rest' hline hparts hline' hparts'
    obtain rfl := hline.unique hline'
    exact ⟨rfl, hparts.unique hparts'⟩
  · rw [Option.eq_none_iff_forall_ne_some]
    constructor
    · intro h line indent tag rest hline hparts
      exact h _ ((hfound tag _).2 ⟨line, indent, rest, hline, hparts, rfl⟩)
    · rintro h ⟨tag, payload⟩ hsome
      obtain ⟨line, indent, rest, hline, hparts, -⟩ := (hfound tag payload).1 hsome
      exact h line indent tag rest hline hparts

example : ofComment? "*\n * #elseif  a\n * #else" true =
    some (.elseifTag, Text.ofString "a") := by decide +kernel

end Directive

end GuardedText
