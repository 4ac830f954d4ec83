import GuardedText.Builtin.Json
import GuardedText.Proofs.Guard.Again
import GuardedText.Proofs.Json.Escape

/-
  Strings spelled out as literals. A literal spells its string one code point after the other, each
  by a piece that neither ends the literal nor joins the pieces next to it (`Spelling.Piece`), and a
  text of such pieces between quotes compiles to the string (`Guard.compile_coded`). The text of
  a string in JSON is one, and so are the numbers of its code points in braces.
-/

namespace GuardedText

open Token

namespace Spelling

/-- `w` spells `c` in a literal between quotes `q`, whatever stands behind it. -/
structure Piece (q c : CodePoint) (w : Text) : Prop where
  nonempty : w ≠ []
  passes : ∀ r, bodyLength? q (w ++ r) = (bodyLength? q r).map (· + w.length)
  spells : ∀ fuel r, unescape (fuel + 1) (w ++ r) = (unescape fuel r).map (c :: ·)

/-- A text that spells a string piece by piece. -/
inductive Coded (q : CodePoint) : Text → Text → Prop where
  | nil : Coded q [] []
  | cons {c : CodePoint} {w s body : Text} : Piece q c w → Coded q s body →
      Coded q (c :: s) (w ++ body)

/-- A text that spells each code point of a string as its number in braces. -/
inductive Numbered : Text → Text → Prop where
  | nil : Numbered [] []
  | cons {c : CodePoint} {ds s body : Text} {vs : List Nat} : ds ≠ [] →
      List.Forall₂ (fun d v => CodePoint.hexValue? d = some v) ds vs →
      Numeral.ofDigits 16 vs = c.val → Numbered s body →
      Numbered (c :: s) (Text.ofString "\\u\x7b" ++ (ds ++ (Text.ofString "\x7d" ++ body)))

/-! ## Pieces -/

section

variable {q c : CodePoint}

/-- A code point that stands for itself between quotes `q`. -/
def isPlain (q c : CodePoint) : Bool :=
  c != q && c.val != 0x5C && c.val != 0x0A && c.val != 0x0D

theorem bodyLength?_plain {w : Text} (h : w.all (isPlain q) = true) (r : Text) :
    bodyLength? q (w ++ r) = (bodyLength? q r).map (· + w.length) := by
  induction w with
  | nil => simp
  | cons c w ih =>
    rw [List.all_cons, Bool.and_eq_true] at h
    have hc := h.1
    simp only [isPlain, Bool.and_eq_true, bne_iff_ne, ne_eq] at hc
    rw [List.cons_append, bodyLength?.eq_def]
    simp [hc, ih h.2, Option.map_map, Function.comp_def, Nat.add_assoc]

theorem isPlain_backslash (h : q ≠ CodePoint.ofChar '\\') (d : CodePoint) (r : Text) :
    bodyLength? q (CodePoint.ofChar '\\' :: d :: r) = (bodyLength? q r).map (· + 2) := by
  have hval : (CodePoint.ofChar '\\').val = 0x5C := by decide
  rw [bodyLength?.eq_def]
  simp [hval, Ne.symm h]

theorem piece_plain (h : isPlain q c = true) : Piece q c [c] := by
  refine ⟨List.cons_ne_nil _ _, bodyLength?_plain (by simp [h]), fun fuel r => ?_⟩
  simp only [isPlain, Bool.and_eq_true, bne_iff_ne, ne_eq] at h
  have hslash : (c.val == 0x5C) = false := beq_eq_false_iff_ne.2 h.1.1.2
  simp only [List.cons_append, List.nil_append, unescape, hslash, Bool.false_eq_true, if_false]
  cases unescape fuel r <;> rfl

theorem piece_simple (hq : q ≠ CodePoint.ofChar '\\') {d : CodePoint} (hd : d.val ≠ 0x0D)
    (hspelled : ∀ r, spelled? (d :: r) = none) (hc : simple d = [c]) :
    Piece q c [CodePoint.ofChar '\\', d] := by
  have hval : ((CodePoint.ofChar '\\').val == 0x5C) = true := by decide
  refine ⟨List.cons_ne_nil _ _, fun r => isPlain_backslash hq d r, fun fuel r => ?_⟩
  simp only [List.cons_append, List.nil_append, unescape, hval, if_true, hspelled]
  cases r with
  | nil =>
    cases fuel <;> simp [hc, unescape] <;> rfl
  | cons e r =>
    have hpair : ((d.val == 0x0D) && (e.val == 0x0A)) = false := by simp [hd]
    simp only [hpair, hc, Bool.false_eq_true, if_false]
    cases unescape fuel (e :: r) <;> rfl

theorem piece_number (hq : q ≠ CodePoint.ofChar '\\') {d : CodePoint} {w : Text}
    (hw : w.all (isPlain q) = true)
    (hspelled : ∀ r, spelled? (d :: (w ++ r)) = some (c.val, r)) :
    Piece q c (CodePoint.ofChar '\\' :: d :: w) := by
  have hval : ((CodePoint.ofChar '\\').val == 0x5C) = true := by decide
  refine ⟨List.cons_ne_nil _ _, fun r => ?_, fun fuel r => ?_⟩
  · rw [List.cons_append, List.cons_append, isPlain_backslash hq, bodyLength?_plain hw]
    simp [Option.map_map, Function.comp_def, Nat.add_assoc]
  · have hcode : codePoint c.val = .ok c := by
      rw [codePoint, dif_pos c.isLt]
    simp only [List.cons_append, unescape, hval, if_true, hspelled, hcode]
    cases unescape fuel r <;> rfl

/-! ## Texts of pieces -/

theorem Coded.bodyLength? {s body : Text} (h : Coded q s body) (r : Text) :
    bodyLength? q (body ++ q :: r) = some body.length := by
  induction h with
  | nil =>
    rw [List.nil_append, Token.bodyLength?.eq_def]
    simp
  | cons hpiece _ ih =>
    rw [List.append_assoc, hpiece.passes, ih, Option.map_some, List.length_append, Nat.add_comm]

theorem Coded.unescape {s body : Text} (h : Coded q s body) {fuel : Nat}
    (hfuel : body.length ≤ fuel) : unescape fuel body = .ok s := by
  induction h generalizing fuel with
  | nil => cases fuel <;> rfl
  | @cons c w s body hpiece _ ih =>
    have := List.length_pos_iff.2 hpiece.nonempty
    rw [List.length_append] at hfuel
    obtain ⟨fuel, rfl⟩ : ∃ k, fuel = k + 1 := ⟨fuel - 1, by omega⟩
    rw [hpiece.spells, ih (by omega)]
    rfl

/-! ## Numbers of code points -/

theorem digits_hex {ds : Text} {vs : List Nat}
    (h : List.Forall₂ (fun d v => CodePoint.hexValue? d = some v) ds vs) (r : Text) :
    Numeral.digits 16 (ds ++ (0x7D : CodePoint) :: r) = (vs, (0x7D : CodePoint) :: r) := by
  induction h with
  | nil => rfl
  | cons hd _ ih =>
    obtain ⟨hdigit, hlt⟩ := Option.filter_eq_some_iff.1 hd
    rw [List.cons_append, Numeral.digits]
    simp only [hdigit, of_decide_eq_true hlt, if_true, ih]

theorem spelled?_braced {ds : Text} {vs : List Nat} (hne : ds ≠ [])
    (h : List.Forall₂ (fun d v => CodePoint.hexValue? d = some v) ds vs) (r : Text) :
    spelled? (Text.ofString "u\x7b" ++ (ds ++ (Text.ofString "\x7d" ++ r))) =
      some (Numeral.ofDigits 16 vs, r) := by
  have hvs : vs.isEmpty = false := by
    cases h with
    | nil => exact absurd rfl hne
    | cons => rfl
  have hbraced : bracedHex? (Text.ofString "\x7b" ++ (ds ++ (Text.ofString "\x7d" ++ r))) =
      some (Numeral.ofDigits 16 vs, r) := by
    have hopen (x : Text) : Text.ofString "\x7b" ++ x = (0x7B : CodePoint) :: x := rfl
    have hclose (x : Text) : Text.ofString "\x7d" ++ x = (0x7D : CodePoint) :: x := rfl
    have hbraces : ((0x7B : CodePoint).val == 0x7B && (0x7D : CodePoint).val == 0x7D) = true := by
      decide
    rw [Bool.and_eq_true] at hbraces
    rw [hopen, bracedHex?]
    simp only [hbraces, if_true, hclose, digits_hex h, hvs, Bool.not_false, Bool.and_self]
  have hread (x : Text) : spelled? (Text.ofString "u" ++ x) =
      (bracedHex? x).or (hexDigits? 4 0 x) := rfl
  refine (hread (Text.ofString "\x7b" ++ (ds ++ (Text.ofString "\x7d" ++ r)))).trans ?_
  rw [hbraced]
  rfl

theorem isPlain_hex {ds : Text} {vs : List Nat}
    (h : List.Forall₂ (fun d v => CodePoint.hexValue? d = some v) ds vs) (hq : isQuote q = true) :
    ds.all (isPlain q) = true := by
  induction h with
  | nil => rfl
  | @cons d v ds vs hd _ ih =>
    rw [List.all_cons, ih, Bool.and_true]
    have hdigit : d.isHex = true := by
      rw [CodePoint.isHex, hd]
      rfl
    have hascii : d.val < 128 := by
      refine Numeral.ascii_of_digitValue? ?_
      rw [(Option.filter_eq_some_iff.1 hd).1]
      rfl
    have := Numeral.of_ascii hascii (fun d => !d.isHex || (isPlain 0x22 d && isPlain 0x27 d))
      (by decide +kernel)
    simp only [hdigit, Bool.not_true, Bool.false_or] at this
    exact of_isQuote hq (isPlain · d) this

theorem ne_backslash (hq : isQuote q = true) : q ≠ CodePoint.ofChar '\\' := by
  rintro rfl
  cases hq

theorem Numbered.coded {s body : Text} (h : Numbered s body) (hq : isQuote q = true) :
    Coded q s body := by
  induction h with
  | nil => exact .nil
  | @cons c ds s body vs hne hds hvalue _ ih =>
    have hplain : (Text.ofString "\x7b" ++ (ds ++ Text.ofString "\x7d")).all (isPlain q) = true := by
      rw [List.all_append, List.all_append, isPlain_hex hds hq,
        of_isQuote hq (fun q => (Text.ofString "\x7b").all (isPlain q)) (by decide),
        of_isQuote hq (fun q => (Text.ofString "\x7d").all (isPlain q)) (by decide)]
      rfl
    have hpiece := piece_number (q := q) (c := c) (d := 'u') (ne_backslash hq) hplain fun r => by
      have := spelled?_braced hne hds r
      rw [hvalue] at this
      simpa [Text.ofString] using this
    simpa [Text.ofString] using Coded.cons hpiece ih

/-! ## Strings in JSON -/

theorem hexDigits?_unit {n : Nat} (h : n < 0x10000) (r : Text) :
    hexDigits? 4 0 (Json.hexUnit n ++ r) = some (n, r) := by
  have hdigits := Json.hexUnit_digits n
  generalize Json.hexUnit n = ds at hdigits ⊢
  rcases hdigits with _ | ⟨ha, _ | ⟨hb, _ | ⟨hc, _ | ⟨hd, _ | _⟩⟩⟩⟩
  simp [hexDigits?, ha, hb, hc, hd, Json.unit_value h]

/-- No digit of a unit opens a brace. -/
theorem bracedHex?_unit (n : Nat) (r : Text) : bracedHex? (Json.hexUnit n ++ r) = none := by
  have hdigits := Json.hexUnit_digits n
  generalize Json.hexUnit n = ds at hdigits ⊢
  rcases hdigits with _ | ⟨ha, -⟩
  rename_i d ds
  have hbrace : (d.val == 0x7B) = false := by
    rw [beq_eq_false_iff_ne]
    intro hd
    obtain rfl : d = (0x7B : CodePoint) := Fin.ext hd
    cases ha
  rw [List.cons_append, bracedHex?]
  simp [hbrace]

/-- Each spelling of a code point in JSON spells it in a literal too. -/
theorem piece_escape (c : CodePoint) : Piece 0x22 c (Json.escape false c) := by
  have hq : (0x22 : CodePoint) ≠ CodePoint.ofChar '\\' := by decide
  have hescaped := Json.escaped c
  generalize Json.escape false c = w at hescaped ⊢
  cases hescaped with
  | plain hlow hquote hslash =>
    refine piece_plain ?_
    have hne : c ≠ (0x22 : CodePoint) := fun h => hquote (congrArg Fin.val h)
    simp only [isPlain, Bool.and_eq_true, bne_iff_ne, ne_eq]
    exact ⟨⟨⟨hne, hslash⟩, by omega⟩, by omega⟩
  | letter hmem =>
    fin_cases hmem
    all_goals exact piece_simple hq (by decide) (fun _ => rfl) rfl
  | unit hlow =>
    refine piece_number (d := 'u') (w := Json.hexUnit c.val) hq
      (isPlain_hex (Json.hexUnit_digits c.val) rfl) fun r => ?_
    have hread (x : Text) : spelled? (CodePoint.ofChar 'u' :: x) =
        (bracedHex? x).or (hexDigits? 4 0 x) := rfl
    rw [hread, bracedHex?_unit, hexDigits?_unit (by omega)]
    rfl

theorem coded_escape (s : Text) : Coded 0x22 s (s.flatMap (Json.escape false)) := by
  induction s with
  | nil => exact .nil
  | cons c s ih => exact .cons (piece_escape c) ih

/-- Every string can be spelled by the numbers of its code points. -/
theorem exists_numbered (s : Text) : ∃ body, Numbered s body := by
  induction s with
  | nil => exact ⟨[], .nil⟩
  | cons c s ih =>
    obtain ⟨body, hbody⟩ := ih
    have hdigits := List.rel_append (Json.hexUnit_digits (c.val / 0x10000))
      (Json.hexUnit_digits c.val)
    refine ⟨_, .cons (List.append_ne_nil_of_left_ne_nil (List.cons_ne_nil _ _) _) hdigits ?_ hbody⟩
    have := c.isLt
    simp only [Numeral.ofDigits, List.cons_append, List.nil_append, List.foldl_cons, List.foldl_nil]
    omega

end

end Spelling

/-! ## Compiling literals -/

namespace Guard

/-- A text that starts with a quote starts no statement. -/
theorem statementKind?_quote {q : CodePoint} (hq : isQuote q = true) (s : Text) :
    statementKind? (q :: s) = none :=
  statementKind?_of_head (by simpa using of_isQuote hq (!startsStatement ·) (by decide)) s

/-- A string spelled piece by piece between quotes compiles to the string. -/
theorem compile_coded {q : CodePoint} (hq : isQuote q = true) {s body : Text}
    (h : Spelling.Coded q s body) :
    compile (q :: (body ++ [q])) = .ok ⟨q :: (body ++ [q]), .literal (.text s)⟩ := by
  have hstring : string? (q :: (body ++ [q])) = some (q :: (body ++ [q]), []) := by
    have hlength : body.length + 2 = (q :: (body ++ [q])).length := by simp
    have hquote : (q.val == 0x22 || q.val == 0x27) = true := hq
    rw [string?, if_pos hquote, h.bodyLength?, Option.map_some, hlength, List.take_length,
      List.drop_length]
  have hvalue : Spelling.string (q :: (body ++ [q])) = .ok s := by
    rw [Spelling.string, List.drop_succ_cons, List.drop_zero, List.dropLast_concat]
    exact h.unescape (Nat.le_refl _)
  have hclean : Clean (q :: (body ++ [q])) := by
    intro t ht
    rcases ht.eq_or_of_step (step?_of_string hstring) with rfl | ht
    · refine not_comment ?_ _
      rintro rfl
      cases hq
    · obtain rfl := List.suffix_nil.1 ht.suffix
      exact ⟨by decide, by decide⟩
  have hskip : skip (q :: (body ++ [q])) = q :: (body ++ [q]) :=
    (Gap.eq_skip .refl (stuck_of_string? hstring)).symm
  refine (compile_iff_of_clean hclean _).2 ⟨statementKind?_quote hq _, ?_, [], ?_, ?_⟩
  · refine ⟨_, (Derives.of_primary (.string ⟨_, .here _, hstring⟩)).alone, ?_⟩
    rw [Tree.build, Build.string, hvalue]
    rfl
  · exact Or.inl (.here [])
  · rw [hskip, List.append_nil]

/-- Literals cover all strings. What a string is in JSON compiles to the string, and so does each
text between single quotes that spells its code points by their numbers; there is one for every
string. -/
theorem compile_strings (s : Text) :
    (∀ store : Store, ∃ t, store.stringify (.text s) = .ok (.text t) ∧
      compile t = .ok ⟨t, .literal (.text s)⟩) ∧
    (∃ body, Spelling.Numbered s body) ∧
    ∀ body, Spelling.Numbered s body →
      let t := Text.ofString "'" ++ body ++ Text.ofString "'"
      compile t = .ok ⟨t, .literal (.text s)⟩ := by
  refine ⟨fun store => ⟨Json.quote false s, ?_, ?_⟩, Spelling.exists_numbered s, fun body h => ?_⟩
  · rfl
  · exact compile_coded rfl (Spelling.coded_escape s)
  · exact compile_coded rfl (h.coded rfl)

theorem compile_strings_accent :
    let body := Text.ofString "\\u\x7bE9\x7d\\u\x7b022\x7d"
    let t := Text.ofString "'" ++ body ++ Text.ofString "'"
    (∃ t, Store.stringify #[] (.text "\u00e9\"") = .ok (.text t) ∧
      compile t = .ok ⟨t, .literal (.text "\u00e9\"")⟩) ∧
    Spelling.Numbered "\u00e9\"" body ∧ compile t = .ok ⟨t, .literal (.text "\u00e9\"")⟩ := by
  intro body t
  obtain ⟨hjson, -, hnumbered⟩ := compile_strings "\u00e9\""
  have hquote : Spelling.Numbered "\"" "\\u\x7b022\x7d" :=
    @Spelling.Numbered.cons 0x22 "022" [] [] [0, 2, 2] (by decide)
      (.cons rfl (.cons rfl (.cons rfl .nil))) rfl .nil
  have h : Spelling.Numbered "\u00e9\"" body :=
    @Spelling.Numbered.cons 0xE9 "E9" "\"" "\\u\x7b022\x7d" [14, 9] (by decide)
      (.cons rfl (.cons rfl .nil)) rfl hquote
  exact ⟨hjson _, h, hnumbered _ h⟩

end Guard

end GuardedText
