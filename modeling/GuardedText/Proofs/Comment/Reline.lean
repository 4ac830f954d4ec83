import Mathlib.Tactic.SplitIfs
import GuardedText.Proofs.Comment.Place

/-
  Lexemes and line terminators. `Text.reline` writes another terminator at every line feed. Most
  lengths that the lexer measures are the same after that, because the classes of characters that it
  looks for take all terminators for the same (`Blind`). A line feed means more than the other
  terminators in four places: it ends a line comment, an interpreter line and the attempt to read a
  regular expression, and a slash after it may open one. Where none of them is met the lexer cuts off
  the same lexeme (`Lexeme.next_reline`).
-/

namespace GuardedText

namespace CodePoint

/-- The code point, or `t` if it is a line feed. -/
def reline (c t : CodePoint) : CodePoint := if c.val = 0x0A then t else c

theorem reline_of_ne {c : CodePoint} (h : c.val ≠ 0x0A) (t : CodePoint) : c.reline t = c :=
  if_neg h

theorem lineEnd_cases {c : CodePoint} (h : c.isLineEnd = true) :
    c = 0x0A ∨ c = 0x0D ∨ c = 0x2028 ∨ c = 0x2029 := by
  simp only [isLineEnd, Bool.or_eq_true, beq_iff_eq] at h
  rcases h with ((h | h) | h) | h
  · exact .inl (Fin.ext h)
  · exact .inr (.inl (Fin.ext h))
  · exact .inr (.inr (.inl (Fin.ext h)))
  · exact .inr (.inr (.inr (Fin.ext h)))

end CodePoint

namespace Text

/-- The text with `t` at every line feed. -/
def reline (s : Text) (t : CodePoint) : Text := s.map (CodePoint.reline · t)

/-- The line feed is the only terminator in the text. -/
def PlainLines (s : Text) : Prop := ∀ c ∈ s, c.isLineEnd = true → c.val = 0x0A

instance (s : Text) : Decidable (PlainLines s) :=
  decidable_of_iff (s.all fun c => !c.isLineEnd || c.val == 0x0A) (by
    simp [PlainLines, Decidable.imp_iff_not_or])

variable (t c : CodePoint) (s : Text)

@[simp]
theorem reline_nil : reline [] t = [] := rfl

@[simp]
theorem reline_cons : reline (c :: s) t = c.reline t :: s.reline t := rfl

@[simp]
theorem length_reline : (s.reline t).length = s.length := List.length_map _

theorem drop_reline (n : Nat) : (s.reline t).drop n = reline (s.drop n) t := List.map_drop.symm

theorem take_reline (n : Nat) : (s.reline t).take n = reline (s.take n) t := List.map_take.symm

@[simp]
theorem isEmpty_reline : (s.reline t).isEmpty = s.isEmpty := by cases s <;> rfl

theorem getLast?_reline : (s.reline t).getLast? = s.getLast?.map (CodePoint.reline · t) :=
  List.getLast?_map

theorem ne_of_mem_reline {t c : CodePoint} {s : Text} (ht : t.val ≠ 0x0A) (h : c ∈ s.reline t) :
    c.val ≠ 0x0A := by
  obtain ⟨d, -, rfl⟩ := List.mem_map.1 h
  unfold CodePoint.reline
  split <;> assumption

end Text

/-- A class of characters that holds all line terminators or none. -/
def Blind (p : CodePoint → Bool) : Prop :=
  ∀ c d : CodePoint, c.isLineEnd = true → d.isLineEnd = true → p c = p d

namespace Blind

theorem of_terminators {p : CodePoint → Bool}
    (h : p 0x0D = p 0x0A ∧ p 0x2028 = p 0x0A ∧ p 0x2029 = p 0x0A) : Blind p := by
  have hlf : ∀ c : CodePoint, c.isLineEnd = true → p c = p 0x0A := by
    intro c hc
    rcases CodePoint.lineEnd_cases hc with rfl | rfl | rfl | rfl
    · rfl
    · exact h.1
    · exact h.2.1
    · exact h.2.2
  intro c d hc hd
  rw [hlf c hc, hlf d hd]

theorem isBlank : Blind CodePoint.isBlank := of_terminators (by decide)

theorem isWord : Blind CodePoint.isWord := of_terminators (by decide +kernel)

theorem isHex : Blind CodePoint.isHex := of_terminators (by decide)

theorem isAsciiDigit : Blind CodePoint.isAsciiDigit := of_terminators (by decide)

theorem startsIdentifier : Blind Lexeme.startsIdentifier := of_terminators (by decide +kernel)

theorem continuesIdentifier : Blind Lexeme.continuesIdentifier :=
  of_terminators (by decide +kernel)

/-- One code point that ends no line. -/
theorem beq {q : CodePoint} (hq : q.isLineEnd = false) : Blind (· == q) := by
  have hne : ∀ c : CodePoint, c.isLineEnd = true → (c == q) = false := by
    intro c hc
    refine beq_false_of_ne fun hcq => ?_
    rw [hcq, hq] at hc
    cases hc
  intro c d hc hd
  dsimp only
  rw [hne c hc, hne d hd]

theorem oneOf {w : String} (hw : (Text.ofString w).all (!·.isLineEnd) = true) :
    Blind (Lexeme.oneOf w) := by
  have hnone : ∀ c : CodePoint, c.isLineEnd = true → Lexeme.oneOf w c = false := by
    intro c hc
    refine Bool.eq_false_iff.2 fun hmem => ?_
    have hplain := List.all_eq_true.1 hw c (List.contains_iff_mem.1 hmem)
    rw [hc] at hplain
    cases hplain
  intro c d hc hd
  rw [hnone c hc, hnone d hd]

theorem reline {p : CodePoint → Bool} (hp : Blind p) {t : CodePoint} (ht : t.isLineEnd = true)
    (c : CodePoint) : p (c.reline t) = p c := by
  unfold CodePoint.reline
  split
  · rename_i hc
    exact hp t c ht (by simp [CodePoint.isLineEnd, hc])
  · rfl

end Blind

namespace Lexeme

/-! ## Characters and runs of them -/

variable {t : CodePoint} (ht : t.isLineEnd = true)

include ht

theorem run_reline {p : CodePoint → Bool} (hp : Blind p) (s : Text) :
    run p (s.reline t) = run p s := by
  unfold run Text.reline
  rw [List.takeWhile_map, List.length_map]
  congr 2
  funext c
  exact hp.reline ht c

theorem nextIs_reline {p : CodePoint → Bool} (hp : Blind p) (s : Text) :
    nextIs p (s.reline t) = nextIs p s := by
  cases s with
  | nil => rfl
  | cons c s => exact hp.reline ht c

theorem isPrefixOf_reline {w : Text} (hw : ∀ c ∈ w, c.isLineEnd = false) (s : Text) :
    w.isPrefixOf (s.reline t) = w.isPrefixOf s := by
  induction w generalizing s with
  | nil => simp
  | cons a w ih =>
    obtain ⟨ha, hw⟩ := List.forall_mem_cons.1 hw
    cases s with
    | nil => rfl
    | cons c s =>
      rw [Text.reline_cons, List.isPrefixOf_cons_cons, List.isPrefixOf_cons_cons, ih hw]
      have hc := (Blind.beq ha).reline ht c
      rw [Bool.beq_comm, hc, Bool.beq_comm]

theorem starts_reline {w : String} (hw : (Text.ofString w).all (!·.isLineEnd) = true) (s : Text) :
    starts w (s.reline t) = starts w s :=
  isPrefixOf_reline ht (by simpa using hw) s

theorem nextIs_oneOf_reline {w : String} (hw : (Text.ofString w).all (!·.isLineEnd) = true)
    (s : Text) : nextIs (oneOf w) (s.reline t) = nextIs (oneOf w) s :=
  nextIs_reline ht (Blind.oneOf hw) s

theorem run_oneOf_reline {w : String} (hw : (Text.ofString w).all (!·.isLineEnd) = true)
    (s : Text) : run (oneOf w) (s.reline t) = run (oneOf w) s :=
  run_reline ht (Blind.oneOf hw) s

/-! ## Lengths that no terminator decides -/

theorem blockLength?_reline (s : Text) : blockLength? (s.reline t) = blockLength? s := by
  induction s with
  | nil => rfl
  | cons c s ih =>
    have hc : (c.reline t == CodePoint.ofChar '*') = (c == CodePoint.ofChar '*') :=
      (Blind.beq (by decide)).reline ht c
    rw [Text.reline_cons, blockLength?, blockLength?, hc, ih, nextIs_oneOf_reline ht (by decide)]

theorem digitsFrom?_reline {p : CodePoint → Bool} (hp : Blind p) (skip : Nat) (s : Text) :
    digitsFrom? skip p (s.reline t) = digitsFrom? skip p s := by
  simp (disch := decide) only [digitsFrom?, Text.drop_reline, run_reline ht hp,
    nextIs_oneOf_reline ht]

theorem exponentLength_reline (s : Text) : exponentLength (s.reline t) = exponentLength s := by
  simp (disch := decide) only [exponentLength, Text.drop_reline, run_reline ht Blind.isAsciiDigit,
    nextIs_oneOf_reline ht]

theorem decimalLength?_reline (s : Text) : decimalLength? (s.reline t) = decimalLength? s := by
  simp (disch := decide) only [decimalLength?, Text.drop_reline, run_reline ht Blind.isAsciiDigit,
    nextIs_oneOf_reline ht, exponentLength_reline ht]

theorem numberLength?_reline (s : Text) : numberLength? (s.reline t) = numberLength? s := by
  have hoctal : Blind (CodePoint.between '0' '7') := .of_terminators (by decide)
  have hbinary : Blind (CodePoint.between '0' '1') := .of_terminators (by decide)
  simp (disch := decide) only [numberLength?, Text.drop_reline, run_reline ht Blind.isAsciiDigit,
    nextIs_oneOf_reline ht, starts_reline ht, digitsFrom?_reline ht hoctal,
    digitsFrom?_reline ht hbinary, digitsFrom?_reline ht Blind.isHex, decimalLength?_reline ht]

/-- A backslash before a line feed is an operator, before other terminators it is not. -/
theorem operatorLength?_reline {s : Text} (hs : starts "\\\n" s = false) (hlf : t.val ≠ 0x0A) :
    operatorLength? (s.reline t) = operatorLength? s := by
  have hnone : starts "\\\n" (s.reline t) = false := by
    refine Bool.eq_false_iff.2 fun hstarts => ?_
    obtain ⟨rest, hrest⟩ := exists_of_starts hstarts
    have hmem : (0x0A : CodePoint) ∈ s.reline t := by
      rw [hrest]
      exact List.mem_append_left _ (by decide)
    exact Text.ne_of_mem_reline hlf hmem rfl
  have hgrowing : growing.find? (starts · (s.reline t)) = growing.find? (starts · s) := by
    simp (disch := decide) only [growing, List.find?, starts_reline ht]
  simp (disch := decide) only [operatorLength?, hs, hnone, hgrowing, starts_reline ht,
    Text.drop_reline, nextIs_oneOf_reline ht]

theorem spelledLength?_reline (s : Text) : spelledLength? (s.reline t) = spelledLength? s := by
  simp (disch := decide) only [spelledLength?, Text.drop_reline, Text.take_reline, starts_reline ht,
    run_reline ht Blind.isHex]

theorem identifierRest_reline (fuel : Nat) (s : Text) :
    identifierRest fuel (s.reline t) = identifierRest fuel s := by
  induction fuel generalizing s with
  | zero => rfl
  | succ fuel ih =>
    simp only [identifierRest, nextIs_reline ht Blind.continuesIdentifier, Text.drop_reline, ih,
      spelledLength?_reline ht]

theorem identifierLength?_reline (s : Text) :
    identifierLength? (s.reline t) = identifierLength? s := by
  simp only [identifierLength?, nextIs_reline ht Blind.startsIdentifier, spelledLength?_reline ht,
    Text.length_reline, Text.drop_reline, identifierRest_reline ht]

theorem methodLength?_reline (s : Text) : methodLength? (s.reline t) = methodLength? s := by
  have hfirst : Blind fun c => c.isAsciiLetter || c.val == 0x5F || c.val == 0x24 :=
    .of_terminators (by decide)
  have hrest : Blind fun c => c.isWord || c == '?' || c == '.' || c == '$' :=
    .of_terminators (by decide +kernel)
  simp (disch := decide) only [methodLength?, nextIs_reline ht hfirst, run_reline ht hrest,
    Text.drop_reline, starts_reline ht]

/-- A word is the same, for no terminator is part of one. -/
theorem takeWhile_isWord_reline (s : Text) :
    (s.reline t).takeWhile CodePoint.isWord = s.takeWhile CodePoint.isWord := by
  induction s with
  | nil => rfl
  | cons c s ih =>
    rw [Text.reline_cons, List.takeWhile_cons, List.takeWhile_cons, Blind.isWord.reline ht, ih]
    split
    · rename_i hword
      have hc : c.val ≠ 0x0A := by
        intro hc
        obtain rfl : c = 0x0A := Fin.ext hc
        exact absurd hword (by decide)
      rw [CodePoint.reline, if_neg hc]
    · rfl

theorem word?_reline (afterWord : Bool) (s : Text) :
    word? afterWord (s.reline t) = word? afterWord s := by
  simp only [word?, takeWhile_isWord_reline ht, methodLength?_reline ht,
    identifierLength?_reline ht]

theorem beq_reline {q : CodePoint} (hq : q.isLineEnd = false) (c : CodePoint) :
    (c.reline t == q) = (c == q) := (Blind.beq hq).reline ht c

theorem val_beq_reline {n : Nat} (hn : n ≠ 0x0A ∧ n ≠ 0x0D ∧ n ≠ 0x2028 ∧ n ≠ 0x2029)
    (c : CodePoint) : ((c.reline t).val == n) = (c.val == n) := by
  have hvals : ∀ d : CodePoint, d.isLineEnd = true → (d.val == n) = false := by
    intro d hd
    refine beq_false_of_ne fun hdn => ?_
    rcases CodePoint.lineEnd_cases hd with rfl | rfl | rfl | rfl
    · exact hn.1 hdn.symm
    · exact hn.2.1 hdn.symm
    · exact hn.2.2.1 hdn.symm
    · exact hn.2.2.2 hdn.symm
  unfold CodePoint.reline
  split
  · rename_i hc
    rw [hvals t ht, hvals c (by simp [CodePoint.isLineEnd, hc])]
  · rfl

theorem quotedLength?_reline {quote : CodePoint} (hquote : quote.isLineEnd = false) (s : Text) :
    quotedLength? quote (s.reline t) = quotedLength? quote s := by
  have hbackslash := val_beq_reline ht (show 0x5C ≠ 0x0A ∧ _ by decide)
  induction s using quotedLength?.induct quote with
  | case1 => rfl
  | case2 c s hend =>
    rw [Text.reline_cons, quotedLength?.eq_def, quotedLength?.eq_def]
    simp [beq_reline ht hquote, hend]
  | case3 c hend hescape d s ih =>
    rw [Text.reline_cons, Text.reline_cons, quotedLength?.eq_def,
      quotedLength?.eq_def quote (c :: _)]
    simp [beq_reline ht hquote, hbackslash, hend, hescape, ih]
  | case4 c hend hescape =>
    rw [Text.reline_cons, quotedLength?.eq_def, quotedLength?.eq_def quote (c :: _)]
    simp [beq_reline ht hquote, hbackslash, hend, hescape]
  | case5 c s hend hescape ih =>
    rw [Text.reline_cons, quotedLength?.eq_def, quotedLength?.eq_def quote (c :: _)]
    simp [beq_reline ht hquote, hbackslash, hend, hescape, ih]

/-! ## Regular expressions -/

/-- A character class that closes in its line. -/
theorem classLength?_reline {s : Text} {n : Nat} (h : classLength? s = some n) :
    classLength? (s.reline t) = some n := by
  have hbackslash := val_beq_reline ht (show 0x5C ≠ 0x0A ∧ _ by decide)
  have hbracket := val_beq_reline ht (show 0x5D ≠ 0x0A ∧ _ by decide)
  induction s using classLength?.induct generalizing n with
  | case1 => cases h
  | case2 c s hend =>
    rw [classLength?.eq_def] at h
    rw [Text.reline_cons, classLength?.eq_def]
    simpa [hbracket, hend] using h
  | case3 c hend hescape d s ih =>
    rw [classLength?.eq_def] at h
    simp only [hend, hescape, if_true, if_false, Bool.false_eq_true] at h
    obtain ⟨m, hm, rfl⟩ := Option.map_eq_some_iff.1 h
    rw [Text.reline_cons, Text.reline_cons, classLength?.eq_def]
    simp [hbracket, hbackslash, hend, hescape, ih hm]
  | case4 c hend hescape =>
    rw [classLength?.eq_def] at h
    simp [hend, hescape] at h
  | case5 c s hend hescape hlf =>
    rw [classLength?.eq_def] at h
    simp [hend, hescape, hlf] at h
  | case6 c s hend hescape hlf ih =>
    rw [classLength?.eq_def] at h
    simp only [hend, hescape, hlf, if_false, Bool.false_eq_true] at h
    obtain ⟨m, hm, rfl⟩ := Option.map_eq_some_iff.1 h
    rw [Text.reline_cons, classLength?.eq_def, CodePoint.reline_of_ne (by simpa using hlf)]
    simp [hend, hescape, hlf, ih hm]

/-- A regular expression that closes in its line. -/
theorem patternLength?_reline {fuel : Nat} {s : Text} {n : Nat}
    (h : patternLength? fuel s = some n) : patternLength? fuel (s.reline t) = some n := by
  have hbackslash := val_beq_reline ht (show 0x5C ≠ 0x0A ∧ _ by decide)
  have hbracket := val_beq_reline ht (show 0x5B ≠ 0x0A ∧ _ by decide)
  have hslash := beq_reline ht (show (CodePoint.ofChar '/').isLineEnd = false by decide)
  induction fuel, s using patternLength?.induct generalizing n with
  | case1 => simp [patternLength?] at h
  | case2 => simp [patternLength?] at h
  | case3 fuel c s hend =>
    rw [patternLength?.eq_def] at h
    rw [Text.reline_cons, patternLength?.eq_def]
    simpa [hslash, hend] using h
  | case4 fuel c hend hescape d s ih =>
    rw [patternLength?.eq_def] at h
    simp only [hend, hescape, if_true, if_false, Bool.false_eq_true] at h
    obtain ⟨m, hm, rfl⟩ := Option.map_eq_some_iff.1 h
    rw [Text.reline_cons, Text.reline_cons, patternLength?.eq_def]
    simp [hslash, hbackslash, hend, hescape, ih hm]
  | case5 fuel c hend hescape =>
    rw [patternLength?.eq_def] at h
    simp [hend, hescape] at h
  | case6 fuel c s hend hescape hopen ih =>
    rw [patternLength?.eq_def] at h
    simp only [hend, hescape, hopen, if_true, if_false, Bool.false_eq_true] at h
    obtain ⟨k, hk, h⟩ := Option.bind_eq_some_iff.1 h
    obtain ⟨m, hm, rfl⟩ := Option.map_eq_some_iff.1 h
    rw [Text.reline_cons, patternLength?.eq_def]
    simp [hslash, hbackslash, hbracket, hend, hescape, hopen, classLength?_reline ht hk,
      Text.drop_reline, ih k hm]
  | case7 fuel c s hend hescape hopen hlf =>
    rw [patternLength?.eq_def] at h
    simp [hend, hescape, hopen, hlf] at h
  | case8 fuel c s hend hescape hopen hlf ih =>
    rw [patternLength?.eq_def] at h
    simp only [hend, hescape, hopen, hlf, if_false, Bool.false_eq_true] at h
    obtain ⟨m, hm, rfl⟩ := Option.map_eq_some_iff.1 h
    rw [Text.reline_cons, patternLength?.eq_def, CodePoint.reline_of_ne (by simpa using hlf)]
    simp [hend, hescape, hopen, hlf, ih hm]

theorem regexLength?_reline {s : Text} {n : Nat} (h : regexLength? s = some n) :
    regexLength? (s.reline t) = some n := by
  cases s with
  | nil => cases h
  | cons c s =>
    unfold regexLength? at h ⊢
    simp only at h
    split at h
    · rename_i hslash
      obtain ⟨m, hm, h⟩ := Option.bind_eq_some_iff.1 h
      rw [Text.reline_cons]
      have hopen : (CodePoint.ofChar '/').isLineEnd = false := by decide
      simp (disch := decide) only [beq_reline ht hopen,
        nextIs_oneOf_reline ht, hslash, if_true, Text.length_reline, patternLength?_reline ht hm,
        Option.bind_some, Text.drop_reline, run_oneOf_reline ht, nextIs_reline ht Blind.isWord]
      exact h
    · cases h

/-! ## Lexemes that no terminator decides -/

/-- White space, a mark or a block comment. -/
theorem gap?_reline {s : Text} (hline : starts "//" s = false) :
    gap? (s.reline t) = gap? s := by
  simp (disch := decide) only [gap?, nextIs_reline ht Blind.isBlank, run_reline ht Blind.isBlank,
    starts_reline ht, Text.drop_reline, blockLength?_reline ht, hline, Bool.false_eq_true, if_false]

theorem inCode_reline {s : Text} (hline : starts "//" s = false) (hsplice : starts "\\\n" s = false)
    (hlf : t.val ≠ 0x0A) (afterWord : Bool) :
    inCode afterWord (s.reline t) = inCode afterWord s := by
  have hname : Blind fun c => c.isAsciiLetter || c.val == 0x5F := .of_terminators (by decide)
  cases s with
  | nil => rfl
  | cons c s =>
    unfold inCode
    simp (disch := decide) only [gap?_reline ht hline, numberLength?_reline ht, starts_reline ht,
      operatorLength?_reline ht hsplice hlf, nextIs_oneOf_reline ht, word?_reline ht]
    simp (disch := decide) only [Text.reline_cons, val_beq_reline ht, beq_reline ht,
      nextIs_reline ht hname, run_reline ht Blind.isWord]
    by_cases hquote : (c.val == 0x22 || c.val == 0x27) = true
    · have hc : c.isLineEnd = false := by
        refine Bool.eq_false_iff.2 fun hend => ?_
        rcases CodePoint.lineEnd_cases hend with rfl | rfl | rfl | rfl <;>
          exact absurd hquote (by decide)
      have hplain : c.val ≠ 0x0A := fun hc => by simp [hc] at hquote
      simp only [CodePoint.reline_of_ne hplain, quotedLength?_reline ht hc]
    · simp only [hquote, if_false, Bool.false_eq_true]

theorem inTemplate_reline (s : Text) : inTemplate (s.reline t) = inTemplate s := by
  have hopen : Blind fun c => c.val == 0x7B := .of_terminators (by decide)
  have hplain : Blind fun c => c.val != 0x60 && c.val != 0x5C && c.val != 0x24 :=
    .of_terminators (by decide)
  cases s with
  | nil => rfl
  | cons c s =>
    unfold inTemplate
    rw [run_reline ht hplain]
    simp (disch := decide) only [Text.reline_cons, val_beq_reline ht, beq_reline ht,
      nextIs_reline ht hopen, Text.isEmpty_reline]

/-- What stands where an operand is expected, if it is no slash that spoils its line. -/
theorem inOperand_reline {s : Text} {m : Match} (hline : starts "//" s = false)
    (h : inOperand s = some m) (hm : m.shift ≠ .replace .spoiled) :
    inOperand (s.reline t) = some m := by
  unfold inOperand at h ⊢
  rw [gap?_reline ht hline]
  split at h
  · exact h
  · split at h
    · rename_i n hregex
      rw [regexLength?_reline ht hregex]
      exact h
    · split at h
      · cases h
        exact absurd rfl hm
      · cases h

theorem hashbangLength?_reline {s : Text} (h : hashbangLength? s = none) :
    hashbangLength? (s.reline t) = none := by
  unfold hashbangLength? at h ⊢
  simp (disch := decide) only [starts_reline ht]
  split at h
  · cases h
  · rename_i hmark
    rw [if_neg hmark]

end Lexeme

end GuardedText
