import GuardedText.Proofs.Guard.Again
import GuardedText.Proofs.Text.Numeral

/-
  Numerals of natural numbers in guards. The numeral of a number is read as a whole wherever no
  word, digit or point goes on with it (`Token.number?_ofNat`), and its value is the number
  (`Spelling.number_ofNat`). So it compiles to the number (`Guard.compile_ofNat`). At the start of an
  entry of an object it is read as a key and nothing else (`derives_entry_ofNat`), and what it stands
  for is the numeral again (`buildEntries_ofNat`), whatever the value under it is
  (`Guard.compile_keyed`).
-/

namespace GuardedText

open Token

namespace CodePoint

variable {c : CodePoint}

/-- What holds of ten digits holds of each. -/
theorem of_isAsciiDigit (h : c.isAsciiDigit = true) (p : CodePoint → Bool)
    (hp : (Text.ofString "0123456789").all p = true) : p c = true := by
  have hdigit := Numeral.of_ascii (val_lt_of_isAsciiDigit h)
    (fun c => !c.isAsciiDigit || oneOf "0123456789" c) (by decide +kernel)
  exact of_oneOf (by simpa [h] using hdigit) p hp

theorem announcedRadix?_of_isAsciiDigit (h : c.isAsciiDigit = true) :
    Numeral.announcedRadix? c = none := by
  simpa using of_isAsciiDigit h (fun c => (Numeral.announcedRadix? c).isNone) (by decide)

end CodePoint

namespace Token

/-! ## Reading a numeral -/

/-- A code point that would go on with a numeral: part of a word, a digit or a point. -/
def goesOn (c : CodePoint) : Bool := c.isWordOrDollar || oneOf "." c

section

variable {k : Nat} {c d : CodePoint} {r t : Text}

/-- No radix is announced in a numeral or right behind it. -/
theorem announcedRadix?_ofNat (hr : nextIs goesOn r = false) (h : Text.ofNat k ++ r = c :: d :: t) :
    Numeral.announcedRadix? d = none := by
  obtain ⟨e, w, hw⟩ := List.exists_cons_of_ne_nil (Text.ofNat_ne_nil k)
  rw [hw, List.cons_append] at h
  have hrest : w ++ r = d :: t := (List.cons.inj h).2
  cases w with
  | cons d' w =>
    have hd : d' ∈ Text.ofNat k := by simp [hw]
    rw [← (List.cons.inj hrest).1]
    exact CodePoint.announcedRadix?_of_isAsciiDigit (Text.isAsciiDigit_of_mem_ofNat hd)
  | nil =>
    rw [List.nil_append] at hrest
    rw [hrest] at hr
    have hmark : oneOf "xXoObB" d = false := oneOf_eq_false (p := goesOn) (by decide) hr
    simp [oneOf, Text.ofString] at hmark
    simp [Numeral.announcedRadix?, hmark]

theorem radixLength?_eq_none {s : Text}
    (h : ∀ c d t, s = c :: d :: t → Numeral.announcedRadix? d = none) : radixLength? s = none := by
  unfold radixLength?
  split
  · rename_i c d t
    have hd := h c d t rfl
    unfold Numeral.announcedRadix? at hd
    split_ifs at hd with hx ho hb
    simp [hx, ho, hb]
  · rfl

theorem exponentLength_eq_zero (hr : nextIs goesOn r = false) : exponentLength r = 0 := by
  cases r with
  | nil => rfl
  | cons c r =>
    have hmark : oneOf "eE" c = false := oneOf_eq_false (p := goesOn) (by decide) hr
    simp [oneOf, Text.ofString] at hmark
    simp [exponentLength, hmark]

/-- The numeral of a number is read up to its end. -/
theorem number?_ofNat (k : Nat) (hr : nextIs goesOn r = false) :
    number? (Text.ofNat k ++ r) = some (Text.ofNat k, r) := by
  have hdigits : ∀ c ∈ Text.ofNat k, c.isDecimal = true := fun c hc =>
    CodePoint.isDecimal_of_isAsciiDigit (Text.isAsciiDigit_of_mem_ofNat hc)
  have hstop : nextIs CodePoint.isWordOrDollar r = false ∧ nextIs (oneOf ".") r = false := by
    cases r with
    | nil => exact ⟨rfl, rfl⟩
    | cons c r => simpa [nextIs, goesOn] using hr
  have hrest : r.takeWhile CodePoint.isDecimal = [] := by
    cases r with
    | nil => rfl
    | cons c r =>
      refine List.takeWhile_cons_of_neg fun hc => ?_
      have hword : c.isWordOrDollar = false := hstop.1
      rw [isWordOrDollar_of_isDecimal hc] at hword
      cases hword
  have hrun : runLength CodePoint.isDecimal (Text.ofNat k ++ r) = (Text.ofNat k).length := by
    rw [runLength, List.takeWhile_append_of_pos hdigits, hrest, List.append_nil]
  have hlengths : decimalLengths (Text.ofNat k ++ r) =
      [(Text.ofNat k).length, (Text.ofNat k).length] := by
    have hne : ((Text.ofNat k).length == 0) = false := by
      simp [Text.ofNat_ne_nil]
    simp [decimalLengths, hrun, hne, hstop.2, exponentLength_eq_zero hr]
  rw [number?, radixLength?_eq_none fun c d t => announcedRadix?_ofNat hr, hlengths]
  simp [hstop.1]

end

end Token

/-! ## The value of a numeral -/

namespace Numeral

theorem natural?_ofNat {k : Nat} (hk : k < 10 ^ maxDigits) :
    natural? 10 (Text.ofNat k) = some k := by
  have hgroup : CodePoint.ofChar '_' ∉ Text.ofNat k := fun hc =>
    absurd (Text.isAsciiDigit_of_mem_ofNat hc) (by decide)
  have hvalues : (Text.ofNat k).mapM (fun c => (c.decimalValue?.or c.digitValue?).filter (· < 10)) =
      some ((Text.ofNat k).map fun c => c.val - 0x30) := by
    refine Text.mapM_digits fun c hc => ?_
    have hc := CodePoint.decimalValue?_of_isAsciiDigit (Text.isAsciiDigit_of_mem_ofNat hc)
    simpa [hc] using decimalValue?_lt hc
  have hvalue := read_ofNat_iff.2 ⟨hk, rfl⟩
  obtain ⟨c, w, hw⟩ := List.exists_cons_of_ne_nil (Text.ofNat_ne_nil k)
  simp only [natural?, ungrouped?_eq_some hgroup, Option.bind_some, hvalues]
  rw [hw, List.map_cons] at hvalue ⊢
  exact congrArg Except.toOption hvalue

theorem not_isBlank_ofNat {k : Nat} {c : CodePoint} (hc : c ∈ Text.ofNat k) : c.isBlank = false :=
  not_isBlank_of_isDecimal (CodePoint.isDecimal_of_isAsciiDigit (Text.isAsciiDigit_of_mem_ofNat hc))

theorem integer?_ofNat {k : Nat} (hk : k < 10 ^ maxDigits) :
    integer? 10 (Text.ofNat k) = some (k : Int) := by
  have hdigits : (Text.ofNat k).all CodePoint.isDecimal = true := List.all_eq_true.2 fun c hc =>
    CodePoint.isDecimal_of_isAsciiDigit (Text.isAsciiDigit_of_mem_ofNat hc)
  simp [integer?, strip_eq fun c => not_isBlank_ofNat, sign_of_decimals hdigits, natural?_ofNat hk]

end Numeral

/-- A numeral of a guard stands for its number. -/
theorem Spelling.number_ofNat {k : Nat} (hk : k < 10 ^ Numeral.maxDigits) :
    Spelling.number (Text.ofNat k) = .ok (.int k) := by
  have hmarks : (Text.ofNat k).any (fun c => c == '.' || c == 'e' || c == 'E') = false := by
    rw [List.any_eq_false]
    intro c hc
    have := CodePoint.of_isAsciiDigit (Text.isAsciiDigit_of_mem_ofNat hc)
      (fun c => !(c == '.' || c == 'e' || c == 'E')) (by decide)
    simpa using this
  have hdecimal : Spelling.decimal (Text.ofNat k) = .ok (.int k) := by
    rw [Spelling.decimal, hmarks, if_neg Bool.false_ne_true, Numeral.integer?_ofNat hk]
    rfl
  unfold Spelling.number
  split
  · rename_i c d t h
    have hradix := announcedRadix?_ofNat (k := k) (r := []) rfl (by rw [List.append_nil, h])
    rw [hradix, ite_self]
    exact hdecimal
  · exact hdecimal

/-! ## Guards that are a numeral -/

namespace Guard

/-- A plain text that starts with no white space or comment and is an expression as a whole. -/
theorem compile_of_derives {c : CodePoint} {s : Text} {tree : Tree} {e : Expr}
    (hplain : Plain (c :: s)) (hhead : (!isSpace c && !oneOf "/" c) = true)
    (hkind : startsStatement c = false) (h : Derives false .expression (c :: s) tree [])
    (hbuild : tree.build = .ok e) : compile (c :: s) = .ok ⟨c :: s, e⟩ := by
  refine (compile_iff hplain _).2
    ⟨statementKind?_of_head hkind s, ⟨tree, h, hbuild⟩, [], .inl (.here []), ?_⟩
  rw [List.append_nil]
  exact (Gap.eq_skip .refl (stuck_of_head hhead)).symm

theorem plain_of_not_mem {s : Text} (h : CodePoint.ofChar '/' ∉ s) : Plain s :=
  ⟨fun hw => h (hw.subset (by decide)), fun hw => h (hw.subset (by decide))⟩

/-- The numeral of a number compiles to the number. -/
theorem compile_ofNat {k : Nat} (hk : k < 10 ^ Numeral.maxDigits) :
    compile (Text.ofNat k) = .ok ⟨Text.ofNat k, .literal (.number (.int k))⟩ := by
  have hslash : CodePoint.ofChar '/' ∉ Text.ofNat k := fun hc =>
    absurd (Text.isAsciiDigit_of_mem_ofNat hc) (by decide)
  have hnumber := number?_ofNat k (r := []) rfl
  rw [List.append_nil] at hnumber
  have hderives : Derives false .expression (Text.ofNat k) (.number (Text.ofNat k)) [] :=
    (Derives.of_primary (.number ⟨_, .here _, hnumber⟩)).alone
  have hbuild : (Tree.number (Text.ofNat k)).build = .ok (.literal (.number (.int k))) := by
    rw [Tree.build, Build.number, Spelling.number_ofNat hk]
    rfl
  obtain ⟨c, w, hw, hdigit⟩ := Text.exists_ofNat_cons k
  have hhead := CodePoint.of_isAsciiDigit hdigit (fun c => !isSpace c && !oneOf "/" c) (by decide)
  have hkind := CodePoint.of_isAsciiDigit hdigit (!startsStatement ·) (by decide)
  generalize Text.ofNat k = t at *
  subst hw
  exact compile_of_derives (plain_of_not_mem hslash) hhead (by simpa using hkind) hderives hbuild

end Guard

/-! ## Numerals as keys -/

/-- Where nothing is left out, a token is read at the start of the text. -/
theorem Token.reads_of_stuck {α : Type} {full : Bool} {find : Text → Option α} {s : Text} {a : α}
    (h : afterGap? s = none) : Reads full find s a ↔ find s = some a := by
  constructor
  · rintro ⟨t, ⟨hgap, -⟩, ht⟩
    rwa [hgap.eq_of_stuck h] at ht
  · exact fun hs => ⟨s, ⟨.refl, fun _ => h⟩, hs⟩

/-- An entry of an object that starts with the numeral of a number has it as its key. -/
theorem derives_entry_ofNat {full : Bool} {k : Nat} {r u : Text} {entry : TreeEntry}
    (hr : nextIs goesOn r = false) :
    Derives full .entry (Text.ofNat k ++ r) entry u ↔
      ∃ v value, Reads full (symbol? ":") r v ∧ Derives full .assignment v value u ∧
        entry = .number (Text.ofNat k) value := by
  have hnumber := number?_ofNat k hr
  obtain ⟨c, w, hw, hdigit⟩ := Text.exists_ofNat_cons k
  have hstuck : afterGap? (Text.ofNat k ++ r) = none := by
    rw [hw, List.cons_append]
    exact stuck_of_head
      (CodePoint.of_isAsciiDigit hdigit (fun c => !isSpace c && !oneOf "/" c) (by decide))
  have hname {n t : Text} : anyName? (Text.ofNat k ++ r) ≠ some (n, t) := by
    have hstart := CodePoint.of_isAsciiDigit hdigit (!startsName ·) (by decide)
    rw [hw, List.cons_append, anyName?, if_neg (by simpa using hstart)]
    exact (Option.some_ne_none _).symm
  have hsymbol {w' : String} {t : Text}
      (hw' : (Text.ofString w').head?.any (fun c => !c.isAsciiDigit) = true) :
      symbol? w' (Text.ofNat k ++ r) ≠ some t := by
    rw [hw, List.cons_append, symbol?_eq_none hw' (by simp [hdigit])]
    exact (Option.some_ne_none _).symm
  constructor
  · intro h
    cases h with
    | named hk => exact absurd ((reads_of_stuck hstuck).1 hk) hname
    | shorthand hn =>
      have hany := (Option.filter_eq_some_iff.1 ((reads_of_stuck hstuck).1 hn)).1
      exact absurd hany hname
    | stringKey hk =>
      obtain ⟨d, ds, hd, hquote⟩ := isQuote_of_string? ((reads_of_stuck hstuck).1 hk)
      rw [hw] at hd
      obtain ⟨rfl, -⟩ := List.cons.inj hd
      simpa [hquote] using CodePoint.of_isAsciiDigit hdigit (!isQuote ·) (by decide)
    | computed hq => exact absurd ((reads_of_stuck hstuck).1 hq) (hsymbol (by decide))
    | spreadEntry hdots => exact absurd ((reads_of_stuck hstuck).1 hdots) (hsymbol (by decide))
    | numberKey hk hcolon hvalue =>
      have hsame := (reads_of_stuck hstuck).1 hk
      rw [hnumber] at hsame
      cases hsame
      exact ⟨_, _, hcolon, hvalue, rfl⟩
  · rintro ⟨v, value, hcolon, hvalue, rfl⟩
    exact .numberKey ((reads_of_stuck hstuck).2 hnumber) hcolon hvalue

/-- The key of an entry that is spelled with a numeral is that numeral. -/
theorem buildEntries_ofNat {k : Nat} (hk : k < 10 ^ Numeral.maxDigits) (value : Tree)
    (entries : List TreeEntry) :
    buildEntries (.number (Text.ofNat k) value :: entries) = (do
      let e ← value.build
      return .named (Text.ofNat k) e :: (← buildEntries entries)) := by
  have hkey : Build.key (Text.ofNat k) = .ok (Text.ofNat k) := by
    have hwrite : (Num.int k).write = .ok (Text.ofNat k) :=
      Num.write_of_isWritable (Num.isWritable_int.2 hk)
    rw [Build.key, Build.number, Spelling.number_ofNat hk]
    exact congrArg (Except.mapError fun _ => Rejection.badLiteral) hwrite
  rw [buildEntries, hkey]
  rfl

namespace Guard

/-- An object with one entry. -/
def keyed (key code : Text) : Text :=
  Text.ofString "(\x7b" ++ (key ++ (Text.ofString ":(" ++ (code ++ Text.ofString " )\x7d)")))

/-- What holds all along a part of a text and nowhere before some place starts behind the place. -/
theorem infix_of_append {w a s : Text} {p : CodePoint → Bool} (hw : w.all p = true) (hne : w ≠ [])
    (ha : ∀ c ∈ a, p c = false) (h : w <:+: a ++ s) : w <:+: s := by
  induction a with
  | nil => exact h
  | cons c a ih =>
    rcases List.infix_cons_iff.1 h with h | h
    · obtain ⟨d, ds, rfl⟩ := List.exists_cons_of_ne_nil hne
      obtain ⟨rfl, -⟩ := List.cons_prefix_cons.1 h
      rw [List.all_cons, ha _ List.mem_cons_self] at hw
      cases hw
    · exact ih (fun d hd => ha d (List.mem_cons_of_mem c hd)) h

/-- A plain text stays plain between texts without slashes and asterisks. -/
theorem plain_between {a s b : Text} (h : Plain s) (ha : ∀ c ∈ a, oneOf "/*" c = false)
    (hb : ∀ c ∈ b, oneOf "/*" c = false) : Plain (a ++ (s ++ b)) := by
  have inner {w : Text} (hw : w.all (oneOf "/*") = true) (hne : w ≠ [])
      (hin : w <:+: a ++ (s ++ b)) : w <:+: s := by
    have hin := infix_of_append hw hne ha hin
    rw [← List.reverse_infix, List.reverse_append] at hin
    rw [← List.reverse_infix]
    have hb : ∀ c ∈ b.reverse, oneOf "/*" c = false := fun c hc => hb c (List.mem_reverse.1 hc)
    exact infix_of_append (by rwa [List.all_reverse]) (by simpa) hb hin
  exact ⟨fun hw => h.noSlash (inner (by decide) (by decide) hw),
    fun hw => h.noAsterisk (inner (by decide) (by decide) hw)⟩

theorem plain_keyed {code : Text} (h : Plain code) (k : Nat) :
    Plain (keyed (Text.ofNat k) code) := by
  have hsplit : keyed (Text.ofNat k) code =
      (Text.ofString "(\x7b" ++ (Text.ofNat k ++ Text.ofString ":(")) ++
        (code ++ Text.ofString " )\x7d)") := by
    simp [keyed]
  have hmark {t : Text} (ht : t.all (fun c => !oneOf "/*" c) = true) :
      ∀ c ∈ t, oneOf "/*" c = false := fun c hc => by simpa using List.all_eq_true.1 ht c hc
  rw [hsplit]
  refine plain_between h (fun c hc => ?_) (hmark (by decide))
  rcases List.mem_append.1 hc with hc | hc
  · exact hmark (by decide) c hc
  · rcases List.mem_append.1 hc with hc | hc
    · simpa using CodePoint.of_isAsciiDigit (Text.isAsciiDigit_of_mem_ofNat hc)
        (fun c => !oneOf "/*" c) (by decide)
    · exact hmark (by decide) c hc

/-- A guard with a numeral as a key, whatever guard stands under it. -/
theorem compile_keyed {k : Nat} (hk : k < 10 ^ Numeral.maxDigits) {s : Text} {g : Guard} (h : compile s = .ok g)
    (hplain : Plain g.code) :
    compile (keyed (Text.ofNat k) g.code) =
      .ok ⟨keyed (Text.ofNat k) g.code, .object [.named (Text.ofNat k) g.expr.parenthesized]⟩ := by
  obtain ⟨tree, t, ht, hderives, hbuild, hskip⟩ := tail_of_compile h
  obtain ⟨tree, hderives, hbuild⟩ := bare_of_derives ht hskip hderives hbuild
  -- A space ends the code, so that it is read in the object as it is read alone.
  have hcode : Derives false .expression (g.code ++ Text.ofString " )\x7d)") tree
      (Text.ofString " )\x7d)") := by
    have hfence : Fence (Text.ofString " )\x7d)") := fence_cons (by decide)
    exact (derives_append_iff hfence (u := [])).2 hderives
  have hspace : At false (Text.ofString " )\x7d)") (Text.ofString ")\x7d)") :=
    (At.here _).skipped (by decide)
  have hvalue : Derives false .assignment
      (Text.ofString "(" ++ (g.code ++ Text.ofString " )\x7d)")) (.paren tree)
      (Text.ofString "\x7d)") :=
    .of_primary (.paren ⟨_, .here _, symbol?_eq_some.2 rfl⟩ hcode ⟨_, hspace, by decide⟩)
  have hentry : Derives false .entry
      (Text.ofNat k ++ (Text.ofString ":(" ++ (g.code ++ Text.ofString " )\x7d)")))
      (.number (Text.ofNat k) (.paren tree)) (Text.ofString "\x7d)") :=
    (derives_entry_ofNat rfl).2 ⟨_, _, ⟨_, .here _, symbol?_eq_some.2 rfl⟩, hvalue, rfl⟩
  have hobject : Derives false .expression
      (Text.ofString "\x7b" ++ (Text.ofNat k ++ (Text.ofString ":(" ++
        (g.code ++ Text.ofString " )\x7d)"))))
      (.object [.number (Text.ofNat k) (.paren tree)]) (Text.ofString ")") :=
    (Derives.of_primary (.object ⟨_, .here _, symbol?_eq_some.2 rfl⟩
      (.lastEntry hentry ⟨_, .here _, by decide⟩))).alone
  have hderives : Derives false .expression (keyed (Text.ofNat k) g.code)
      (.paren (.object [.number (Text.ofNat k) (.paren tree)])) [] :=
    (Derives.of_primary (.paren ⟨_, .here _, symbol?_eq_some.2 rfl⟩ hobject
      ⟨_, .here _, by decide⟩)).alone
  have hbuild : (Tree.paren (.object [.number (Text.ofNat k) (.paren tree)])).build =
      .ok (.object [.named (Text.ofNat k) g.expr.parenthesized]) := by
    rw [Tree.build, Tree.build, buildEntries_ofNat hk, Tree.build, hbuild]
    rfl
  exact compile_of_derives (plain_keyed hplain k) (by decide) (by decide) hderives hbuild

end Guard

end GuardedText
