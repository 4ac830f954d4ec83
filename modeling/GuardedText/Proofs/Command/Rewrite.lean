import GuardedText.Proofs.Command.File
import GuardedText.Proofs.Encoding.RoundTrip

/-
  What a compiled file holds. Its text was read with line ends unified, so that is the text that is
  compiled; where the compiled text is another one it is written, in code points that were read, and
  else the bytes stay. Hence a file without CR holds what compiling its text gives
  (`compileFile_rewrites`), while one with CR LF at its line ends loses them as soon as anything is cut
  (`start_crlf`).
-/

namespace GuardedText

open GuardedText.Path (IsPlace display)

/-! ## Code points that remain -/

theorem Cut.mem_of_mem_remains {text : Text} {offset : Nat} {cuts : List Range} {c : CodePoint}
    (h : c ∈ Cut.remains text offset cuts) : c ∈ text := by
  induction cuts generalizing offset with
  | nil => exact List.mem_of_mem_drop h
  | cons cut cuts ih =>
    rcases List.mem_append.1 h with h | h
    · exact List.mem_of_mem_drop (List.mem_of_mem_take h)
    · exact ih h

theorem Cut.mem_of_mem_emit {text : Text} {cuts : Cuts} {c : CodePoint}
    (h : c ∈ Cut.emit text cuts) : c ∈ text := by
  unfold emit at h
  split at h
  · exact h
  · exact mem_of_mem_remains h

/-- Compiling adds no code point to a script. -/
theorem mem_of_mem_compile {waiting : Waiting} {context : Ref} {source text : Text} {w : World}
    (h : (compile waiting context source w).1.result = .ok text) : ∀ c ∈ text, c ∈ source := by
  unfold compile at h
  dsimp only at h
  split at h
  · cases h
  · cases h
    exact fun c hc => hc
  · split at h
    · cases h
    · cases h
      exact fun c hc => Cut.mem_of_mem_emit hc

namespace Text

theorem mem_unifyLineEnds {t : Text} {c : CodePoint} (h : c ∈ t.unifyLineEnds) :
    c ∈ t ∨ c = 0x0A := by
  fun_induction unifyLineEnds t with
  | case1 => exact .inl h
  | case2 d =>
    split at h
    · exact .inr (List.mem_singleton.1 h)
    · exact .inl h
  | case3 a b s _ _ ih =>
    rcases List.mem_cons.1 h with h | h
    · exact .inr h
    · exact (ih h).imp_left fun h => List.mem_cons_of_mem _ (List.mem_cons_of_mem _ h)
  | case4 a b s _ _ ih =>
    rcases List.mem_cons.1 h with h | h
    · exact .inr h
    · exact (ih h).imp_left (List.mem_cons_of_mem _)
  | case5 a b s _ ih =>
    rcases List.mem_cons.1 h with h | h
    · exact .inl (h ▸ List.mem_cons_self)
    · exact (ih h).imp_left (List.mem_cons_of_mem _)

theorem not_mem_unifyLineEnds (t : Text) : ∀ c ∈ t.unifyLineEnds, c.val ≠ 0x0D := by
  fun_induction unifyLineEnds t with
  | case1 => nofun
  | case2 d =>
    rw [List.forall_mem_singleton]
    split
    · decide
    · assumption
  | case3 a b s _ _ ih => exact List.forall_mem_cons.2 ⟨by decide, ih⟩
  | case4 a b s _ _ ih => exact List.forall_mem_cons.2 ⟨by decide, ih⟩
  | case5 a b s ha ih => exact List.forall_mem_cons.2 ⟨ha, ih⟩

theorem unifyLineEnds_eq_self {t : Text} (h : ∀ c ∈ t, c.val ≠ 0x0D) : t.unifyLineEnds = t := by
  fun_induction unifyLineEnds t with
  | case1 => rfl
  | case2 d => rw [if_neg (h d List.mem_cons_self)]
  | case3 a b s ha _ _ => exact absurd ha (h a List.mem_cons_self)
  | case4 a b s ha _ _ => exact absurd ha (h a List.mem_cons_self)
  | case5 a b s _ ih => rw [ih fun c hc => h c (List.mem_cons_of_mem _ hc)]

end Text

namespace Command

section

variable {settings : Settings} {encoding : Encoding}
  (hencoding : Encoding.ofName? settings.fileEncoding = some encoding)
include hencoding

theorem textOf_ok {bytes : List Byte} {t : Text} (ht : encoding.decode bytes = .ok t) :
    textOf settings (.ok bytes) = .ok t.unifyLineEnds := by
  unfold textOf
  rw [hencoding]
  dsimp only
  rw [ht]

/-- A compiled file has the bytes it had, or those of its other text. -/
theorem read_rewrite {d : Desk} {f : Done} (hplace : IsPlace f.place) {old : List Byte}
    (hread : d.read (display f.place) = .ok old) :
    (d.rewrite settings false f).read (display f.place) =
      .ok (if f.text = f.source then old else encoding.encode f.text) := by
  unfold Desk.rewrite Done.changed
  by_cases hsame : f.text = f.source
  · rw [if_pos hsame, if_neg (by simp [hsame])]
    exact hread
  · rw [if_neg hsame, if_pos (by simp [hsame]), hencoding]
    exact Desk.read_put_self hplace hread _

/-- A file that was compiled holds the text that compiling gives, if its text has changed, and else the
text it held; the world is the one that compiling leaves. The text that is compiled is that of the file
with line ends unified. So for a file without CR it is that of the file, and a file whose text has
changed holds no CR. -/
theorem compileFile_rewrites {place : List Text} (hplace : IsPlace place) {d : Desk}
    {bytes : List Byte} (hread : d.read (display place) = .ok bytes) {t : Text}
    (ht : encoding.decode bytes = .ok t) (verbosity : Int) (context : Ref) (w : World)
    {changed : Bool} {w' : World} {d' : Desk}
    (hpast : Job.on (compileFile settings false verbosity context place) w d =
      ((.ok changed, w'), d')) :
    ∃ text bytes', d'.read (display place) = .ok bytes' ∧
      (compile .allowed context t.unifyLineEnds w).1.result = .ok text ∧
      (compile .allowed context t.unifyLineEnds w).2 = w' ∧
      encoding.decode bytes' = .ok (if text = t.unifyLineEnds then t else text) ∧
      (text ≠ t.unifyLineEnds → ∀ c ∈ text, c.val ≠ 0x0D) ∧
      ((∀ c ∈ t, c.val ≠ 0x0D) → (compile .allowed context t w).1.result = .ok text ∧
        (compile .allowed context t w).2 = w' ∧ encoding.decode bytes' = .ok text) := by
  have hall : ∀ c ∈ t.unifyLineEnds, encoding.Has c := by
    intro c hc
    rcases Text.mem_unifyLineEnds hc with hc | rfl
    · exact Encoding.has_of_decode ht c hc
    · exact encoding.has_of_lt (by decide)
  rcases compileFile_on settings verbosity context hplace (.ok bytes) w with
    ⟨f, w₁, notes, rfl, hf, hon⟩ | ⟨stop, w₁, notes, complaints, -, hon⟩
  · have hsource : t.unifyLineEnds = f.source :=
      Except.ok.inj ((textOf_ok hencoding ht).symm.trans hf.source)
    rw [hsource] at hall ⊢
    rw [hon false d hread] at hpast
    cases hpast
    have hdecode : encoding.decode (if f.text = f.source then bytes else encoding.encode f.text) =
        .ok (if f.text = f.source then t else f.text) := by
      split
      · exact ht
      · exact encoding.decode_encode fun c hc => hall c (mem_of_mem_compile hf.text c hc)
    refine ⟨f.text, _, ?_, hf.text, hf.world, hdecode, fun _ c hc => ?_, fun hcr => ?_⟩
    · rw [Desk.read_tell, read_rewrite hencoding hplace hread]
    · exact t.not_mem_unifyLineEnds c (hsource ▸ mem_of_mem_compile hf.text c hc)
    · have hplain : t = f.source := (Text.unifyLineEnds_eq_self hcr).symm.trans hsource
      refine ⟨hplain ▸ hf.text, hplain ▸ hf.world, ?_⟩
      rw [hdecode, hplain]
      split
      · rename_i hsame
        rw [hsame]
      · rfl
  · rw [hon false d hread] at hpast
    cases hpast

end

/-- A desk with one file. -/
def oneFile (text : Text) : Desk where
  home := ["w"]
  files := [(["w", "a"], Utf8.encode text)]

theorem compileFile_line :
    (Job.on (compileFile {} false 1 0 ["w", "a"]) {}
      (oneFile "/*#if 1*/x/*#endif*/\n")).1.1.toOption = some true := by
  decide +kernel

/-- A script whose line ends with LF holds what compiling its text gives. -/
theorem compileFile_rewrites_line :
    ∃ w' d', Job.on (compileFile {} false 1 0 ["w", "a"]) {}
        (oneFile "/*#if 1*/x/*#endif*/\n") = ((.ok true, w'), d') ∧
      ∃ text bytes', d'.read (display ["w", "a"]) = .ok bytes' ∧
        Encoding.utf8.decode bytes' = .ok text ∧
        (compile .allowed 0 "/*#if 1*/x/*#endif*/\n" {}).1.result = .ok text ∧
        (compile .allowed 0 "/*#if 1*/x/*#endif*/\n" {}).2 = w' := by
  have hline := compileFile_line
  rcases hon : Job.on (compileFile {} false 1 0 ["w", "a"]) {}
    (oneFile "/*#if 1*/x/*#endif*/\n") with ⟨⟨r, w'⟩, d'⟩
  rw [hon] at hline
  cases r with
  | error stop => cases hline
  | ok changed =>
    cases hline
    have hencoding : Encoding.ofName? ({} : Settings).fileEncoding = some .utf8 := by decide +kernel
    have hread : (oneFile "/*#if 1*/x/*#endif*/\n").read (display ["w", "a"]) =
        .ok (Utf8.encode "/*#if 1*/x/*#endif*/\n") := by rfl
    have ht : Encoding.utf8.decode (Utf8.encode "/*#if 1*/x/*#endif*/\n") =
      .ok "/*#if 1*/x/*#endif*/\n" := by rfl
    obtain ⟨text, bytes', hread', -, -, -, -, hsame⟩ :=
      compileFile_rewrites hencoding (by decide) hread ht 1 0 {} hon
    have hcr : (List.all ("/*#if 1*/x/*#endif*/\n" : Text) fun c => decide (c.val ≠ 0x0D)) = true := by
      decide +kernel
    obtain ⟨hresult, hworld, hdecode⟩ :=
      hsame fun c hc => of_decide_eq_true (List.all_eq_true.1 hcr c hc)
    exact ⟨w', d', rfl, text, bytes', hread', hdecode, hresult, hworld⟩

/-- A script whose line ends with CR LF ends with LF when its directives are cut, and not as its text
does when that is compiled. -/
theorem start_crlf :
    Prod.map Prod.fst Desk.files
        ((start {} ["w"] ["-i", "a"] {} : StateM Desk _).run
          (oneFile "/*#if 1*/x/*#endif*/\r\n")) = (Ending.finished, (oneFile "x\n").files) ∧
    (compile .allowed 0 "/*#if 1*/x/*#endif*/\r\n" {}).1.result.toOption =
      some "x\r\n" := by
  decide +kernel

end Command

end GuardedText
