import Mathlib.Order.MinMax
import GuardedText.Cut.Emit

/-
  Cutting and line ends. `Text.crlf` writes a carriage return before every line feed, which moves
  what stands at an offset to another one (`Text.widen`). Each step of cutting commutes with it: the
  offsets that a cut is trimmed to and that reading goes on at move as all others do
  (`Cut.trimLeft_crlf`, `Cut.resume_crlf`), and so what remains after moved cuts is the text with
  both characters at its line ends (`Cut.emit_crlf`). A carriage return of the text itself could
  join a line feed after it, therefore the text must not have one.
-/

namespace GuardedText

namespace Text

/-- The text with a carriage return before every line feed. -/
def crlf (s : Text) : Text := s.flatMap fun c => if c.val = 0x0A then [0x0D, 0x0A] else [c]

/-- The offset that `crlf` moves an offset to: the line feeds before it are counted twice. -/
def widen (s : Text) (offset : Nat) : Nat :=
  offset + (s.take offset).countP fun c => c.val = 0x0A

/-- No code point of the text is a carriage return. -/
def NoReturn (s : Text) : Prop := ∀ c ∈ s, c.val ≠ 0x0D

instance (s : Text) : Decidable (NoReturn s) :=
  decidable_of_iff (s.all fun c => c.val != 0x0D) (by simp [NoReturn])

variable (s t : Text) (offset : Nat)

@[simp]
theorem crlf_nil : crlf [] = [] := rfl

theorem crlf_cons (c : CodePoint) :
    crlf (c :: s) = (if c.val = 0x0A then [0x0D, 0x0A] else [c]) ++ crlf s := rfl

@[simp]
theorem crlf_append : crlf (s ++ t) = crlf s ++ crlf t := List.flatMap_append

@[simp]
theorem widen_zero : widen s 0 = 0 := by simp [widen]

theorem widen_cons_succ (c : CodePoint) :
    widen (c :: s) (offset + 1) = widen s offset + if c.val = 0x0A then 2 else 1 := by
  rw [widen, List.take_succ_cons, List.countP_cons, widen]
  by_cases hc : c.val = 0x0A <;> simp [hc] <;> omega

theorem widen_nil : widen [] offset = offset := by simp [widen]

theorem widen_add (k : Nat) :
    widen s (offset + k) = widen s offset + widen (s.drop offset) k := by
  simp only [widen, List.take_add, List.countP_append]
  omega

theorem widen_strictMono : StrictMono (widen s) := by
  refine strictMono_nat_of_lt_succ fun offset => ?_
  rw [widen_add]
  simp only [widen]
  omega

/-- What stands before a moved offset. -/
theorem crlf_take : (crlf s).take (widen s offset) = crlf (s.take offset) := by
  induction s generalizing offset with
  | nil => simp
  | cons c s ih =>
    cases offset with
    | zero => simp
    | succ offset =>
      rw [List.take_succ_cons, crlf_cons, crlf_cons, ← ih, widen_cons_succ]
      by_cases hc : c.val = 0x0A <;> simp [hc]

/-- What stands from a moved offset on. -/
theorem crlf_drop : (crlf s).drop (widen s offset) = crlf (s.drop offset) := by
  induction s generalizing offset with
  | nil => simp
  | cons c s ih =>
    cases offset with
    | zero => simp
    | succ offset =>
      rw [List.drop_succ_cons, crlf_cons, ← ih, widen_cons_succ]
      by_cases hc : c.val = 0x0A <;> simp [hc]

theorem crlf_slice (i j : Nat) :
    (crlf s).slice (widen s i) (widen s j) = crlf (s.slice i j) := by
  unfold slice
  rw [crlf_drop, ← crlf_take]
  congr 1
  rcases Nat.le_total i j with hij | hij
  · have hmove := widen_add s i (j - i)
    rw [Nat.add_sub_cancel' hij] at hmove
    omega
  · have hmove := (widen_strictMono s).monotone hij
    rw [Nat.sub_eq_zero_of_le hij, Nat.sub_eq_zero_of_le hmove, widen_zero]

/-- A moved offset and the next one: what stands between them, if anything. -/
theorem widen_succ_cases :
    (s[offset]? = none ∧ (crlf s)[widen s offset]? = none ∧
        widen s (offset + 1) = widen s offset + 1) ∨
      ∃ c, s[offset]? = some c ∧
        widen s (offset + 1) = widen s offset + (if c.val = 0x0A then 2 else 1) ∧
        ∀ k, (crlf s)[widen s offset + k]? =
          ((if c.val = 0x0A then [0x0D, 0x0A] else [c]) ++ crlf (s.drop (offset + 1)))[k]? := by
  have hmove := widen_add s offset 1
  have hat (k : Nat) : (crlf s)[widen s offset + k]? = (crlf (s.drop offset))[k]? := by
    rw [← crlf_drop, List.getElem?_drop]
  cases hc : s[offset]? with
  | none =>
    have hend := List.drop_eq_nil_of_le (List.getElem?_eq_none_iff.1 hc)
    rw [hend, widen_nil] at hmove
    have hnone := hat 0
    rw [hend] at hnone
    exact .inl ⟨rfl, hnone, hmove⟩
  | some c =>
    obtain ⟨hlt, rfl⟩ := List.getElem?_eq_some_iff.1 hc
    rw [List.drop_eq_getElem_cons hlt] at hmove hat
    rw [widen_cons_succ, widen_zero, Nat.zero_add] at hmove
    exact .inr ⟨_, rfl, hmove, fun k => by rw [hat, crlf_cons]⟩

/-- What stands before the offset that the next one is moved to. -/
theorem exists_widen_succ :
    ∃ before, widen s (offset + 1) = before + 1 ∧ (crlf s)[before]? = s[offset]? ∧
      ∀ c, s[offset]? = some c → c.val ≠ 0x0A → before = widen s offset := by
  rcases widen_succ_cases s offset with ⟨hc, hnone, hmove⟩ | ⟨c, hc, hmove, hat⟩
  · exact ⟨_, hmove, by rw [hnone, hc], fun _ _ _ => rfl⟩
  · by_cases hlf : c.val = 0x0A
    · rw [if_pos hlf] at hmove
      simp only [if_pos hlf] at hat
      refine ⟨widen s offset + 1, hmove, ?_, ?_⟩
      · rw [hat, hc]
        simp only [List.cons_append, List.getElem?_cons_succ, List.getElem?_cons_zero,
          Option.some.injEq, Fin.ext_iff]
        exact hlf.symm
      · intro d hd hplain
        obtain rfl : c = d := by simpa [hc] using hd
        exact absurd hlf hplain
    · rw [if_neg hlf] at hmove
      simp only [if_neg hlf] at hat
      exact ⟨widen s offset, hmove, (hat 0).trans hc.symm, fun _ _ _ => rfl⟩

end Text

namespace Range

/-- The range with its ends moved. -/
def move (f : Nat → Nat) (r : Range) : Range := ⟨f r.start, f r.stop⟩

end Range

namespace Cuts

/-- The cuts with their ends moved. -/
def move (f : Nat → Nat) (cuts : Cuts) : Cuts := ⟨cuts.last.move f, cuts.closed.map (·.move f)⟩

variable {f : Nat → Nat} (hf : StrictMono f)

include hf in
theorem move_add (cuts : Cuts) (r : Range) :
    (cuts.move f).add (r.move f) = (cuts.add r).move f := by
  unfold add
  by_cases hgrows : r.start ≤ cuts.last.stop
  · have hmoved : (r.move f).start ≤ (cuts.move f).last.stop := hf.monotone hgrows
    rw [if_pos hgrows, if_pos hmoved]
    simp [move, Range.move, hf.monotone.map_max]
  · have hmoved : ¬ (r.move f).start ≤ (cuts.move f).last.stop := mt hf.le_iff_le.1 hgrows
    rw [if_neg hgrows, if_neg hmoved]
    rfl

theorem toList_move (cuts : Cuts) : (cuts.move f).toList = cuts.toList.map (·.move f) := by
  simp [toList, move]

include hf in
theorem isEmpty_move (hzero : f 0 = 0) (cuts : Cuts) : (cuts.move f).isEmpty = cuts.isEmpty := by
  have hstop : f cuts.last.stop = 0 ↔ cuts.last.stop = 0 := by
    conv_lhs => rw [← hzero]
    exact hf.injective.eq_iff
  rw [Bool.eq_iff_iff]
  simp [isEmpty, move, Range.move, hstop]

end Cuts

namespace Cut

open Text (crlf widen NoReturn)

variable (s : Text)

theorem trimLeft_crlf (limit stop : Nat) :
    trimLeft (crlf s) (widen s limit) (widen s stop) = widen s (trimLeft s limit stop) := by
  induction stop with
  | zero => simp [trimLeft]
  | succ stop ih =>
    obtain ⟨before, hbefore, hat, hplain⟩ := Text.exists_widen_succ s stop
    have hlimit : widen s limit < before + 1 ↔ limit < stop + 1 := by
      rw [← hbefore]
      exact (Text.widen_strictMono s).lt_iff_lt
    rw [hbefore, trimLeft, trimLeft, hat]
    simp only [hlimit]
    split
    · rename_i hblank
      obtain ⟨c, hc, hhorizontal⟩ := (Option.any_eq_true _ _).1 hblank.2
      -- No line feed is trimmed, so one offset is left on either side.
      have hlf : c.val ≠ 0x0A := by
        intro hlf
        simp [CodePoint.isHorizontal, hlf] at hhorizontal
      rw [hplain c hc hlf, ih]
    · exact hbefore.symm

theorem startsLine_crlf (offset : Nat) :
    startsLine (crlf s) (widen s offset) = startsLine s offset := by
  cases offset with
  | zero => simp [startsLine]
  | succ offset =>
    obtain ⟨before, hbefore, hat, -⟩ := Text.exists_widen_succ s offset
    rw [hbefore, startsLine, startsLine, hat]

/-- After a character that is no carriage return there is no second one of a line end. -/
theorem skipLineEnd_single {s : Text} {offset : Nat} {c : CodePoint} (hc : s[offset]? = some c)
    (hcr : c.val ≠ 0x0D) : skipLineEnd s offset = if c.isLineEnd then offset + 1 else offset := by
  unfold skipLineEnd
  rw [hc]
  cases s[offset + 1]? with
  | none => rfl
  | some d => simp [hcr]

variable {s} (hs : NoReturn s)

include hs

theorem skipLineEnd_crlf (offset : Nat) :
    skipLineEnd (crlf s) (widen s offset) = widen s (skipLineEnd s offset) := by
  rcases Text.widen_succ_cases s offset with ⟨hc, hnone, -⟩ | ⟨c, hc, hmove, hat⟩
  · simp [skipLineEnd, hc, hnone]
  · have hcr := hs c (List.mem_of_getElem? hc)
    rw [skipLineEnd_single hc hcr]
    by_cases hlf : c.val = 0x0A
    · rw [if_pos hlf] at hmove
      simp only [if_pos hlf] at hat
      have hfirst : (crlf s)[widen s offset]? = some 0x0D := hat 0
      have hsecond : (crlf s)[widen s offset + 1]? = some 0x0A := hat 1
      rw [if_pos (by simp [CodePoint.isLineEnd, hlf]), hmove, skipLineEnd, hfirst, hsecond]
      rfl
    · rw [if_neg hlf] at hmove
      simp only [if_neg hlf] at hat
      have hfirst : (crlf s)[widen s offset]? = some c := hat 0
      rw [skipLineEnd_single hfirst hcr, apply_ite (widen s), hmove]

theorem resume_crlf (offset : Nat) (cut : Range) :
    resume (crlf s) (widen s offset) (cut.move (widen s)) = widen s (resume s offset cut) := by
  unfold resume Range.move
  rw [trimLeft_crlf, startsLine_crlf, skipLineEnd_crlf hs, apply_ite (widen s)]

theorem remains_crlf (offset : Nat) (cuts : List Range) :
    remains (crlf s) (widen s offset) (cuts.map (·.move (widen s))) =
      crlf (remains s offset cuts) := by
  induction cuts generalizing offset with
  | nil => exact Text.crlf_drop s offset
  | cons cut cuts ih =>
    rw [List.map_cons, remains, resume_crlf hs, ih, remains, Text.crlf_append]
    rw [Range.move, trimLeft_crlf, Text.crlf_slice]

/-- What remains of a text is the same, up to its line ends, as what remains of the text with both
    characters at its line ends after the moved cuts. -/
theorem emit_move_crlf (cuts : Cuts) :
    emit (crlf s) (cuts.move (widen s)) = crlf (emit s cuts) := by
  have hremains := remains_crlf hs 0 cuts.toList
  rw [Text.widen_zero] at hremains
  unfold emit
  rw [Cuts.isEmpty_move (Text.widen_strictMono s) (Text.widen_zero s), Cuts.toList_move, hremains,
    apply_ite crlf]

end Cut

end GuardedText
