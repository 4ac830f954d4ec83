import GuardedText.Proofs.Comment.Lexer
import GuardedText.Proofs.Cut.Lines

/-
  Which words of a text meet once its cuts are gone. What is cut, and the white space before it, is
  all that can stand between two word characters that come to stand next to one another, because a
  line terminator goes only with a cut that leads its line (`Cut.Crossing.not_ended`). The last thing
  between them is then a directive in a block comment (`Cut.exists_block_of_stop`). So words meet
  exactly where only cuts and white space stood between them, a cut last (`Cut.words_meet`), and they
  do meet there: white space before a directive keeps no two words apart (`Cut.words_fuse`).
-/

namespace GuardedText

namespace CodePoint

/-- The slash, the code points that end a line and those of horizontal white space. -/
def separators : List Nat :=
  [0x2F, 0x0A, 0x0D, 0x2028, 0x2029, 0x20, 0x09, 0x0B, 0x0C, 0xA0, 0x1680, 0x2000, 0x2001, 0x2002,
    0x2003, 0x2004, 0x2005, 0x2006, 0x2007, 0x2008, 0x2009, 0x200A, 0x202F, 0x205F, 0x3000, 0xFEFF]

theorem mem_separators {c : CodePoint}
    (h : c = slash ∨ c.isLineEnd = true ∨ c.isHorizontal = true) : c.val ∈ separators := by
  rcases h with rfl | h | h
  · decide
  · rw [isLineEnd] at h
    simp only [Bool.or_eq_true, beq_iff_eq] at h
    simp only [separators, List.mem_cons]
    omega
  · rw [isHorizontal] at h
    simp only [Bool.or_eq_true, Bool.and_eq_true, beq_iff_eq, decide_eq_true_eq] at h
    simp only [separators, List.mem_cons]
    omega

/-- No word character separates. -/
theorem not_mem_separators {c : CodePoint} (h : c.isWordOrDollar = true) : c.val ∉ separators := by
  have hall : ∀ n ∈ separators, isWordOrDollar (Fin.ofNat 0x110000 n) = false := by decide +kernel
  intro hc
  have := hall c.val hc
  rw [Fin.ofNat_val_eq_self, h] at this
  cases this

end CodePoint

/-- Two offsets stand next to one another in a list that ascends if both are in it and none between
them is. -/
theorem infix_pair_iff {l : List Nat} (hl : l.Pairwise (· < ·)) {i j : Nat} :
    [i, j] <:+: l ↔ i ∈ l ∧ j ∈ l ∧ i < j ∧ ∀ k ∈ l, i < k → j ≤ k := by
  constructor
  · rintro ⟨before, after, rfl⟩
    rw [List.append_assoc, List.pairwise_append] at hl
    obtain ⟨-, hrest, hbefore⟩ := hl
    simp only [List.cons_append, List.nil_append, List.pairwise_cons, List.mem_cons] at hrest hbefore
    refine ⟨by simp, by simp, hrest.1 j (Or.inl rfl), fun k hk hik => ?_⟩
    simp only [List.cons_append, List.nil_append, List.append_assoc, List.mem_append,
      List.mem_cons] at hk
    rcases hk with hk | rfl | rfl | hk
    · have := hbefore k hk i (Or.inl rfl)
      omega
    · omega
    · exact Nat.le_refl _
    · exact Nat.le_of_lt (hrest.2.1 k hk)
  · rintro ⟨hi, hj, hij, hnone⟩
    obtain ⟨before, rest, rfl⟩ := List.append_of_mem hi
    obtain ⟨-, hrest, hbefore⟩ := List.pairwise_append.1 hl
    obtain ⟨hafter, hrest⟩ := List.pairwise_cons.1 hrest
    cases rest with
    | nil =>
      simp only [List.mem_append, List.mem_singleton] at hj
      rcases hj with hj | rfl
      · have := hbefore j hj i (by simp)
        omega
      · omega
    | cons k rest =>
      have hk : j ≤ k := hnone k (by simp) (hafter k (by simp))
      simp only [List.mem_append, List.mem_cons] at hj
      rcases hj with hj | rfl | rfl | hj
      · have := hbefore j hj i (by simp)
        omega
      · omega
      · exact ⟨before, rest, by simp⟩
      · have := (List.pairwise_cons.1 hrest).1 j hj
        omega

theorem infix_range'_iff {n i j : Nat} : [i, j] <:+: List.range' 0 n ↔ j = i + 1 ∧ j < n := by
  have hascends : (List.range' 0 n).Pairwise (· < ·) := List.pairwise_lt_range'
  simp only [infix_pair_iff hascends, List.mem_range'_1]
  constructor
  · rintro ⟨hi, hj, hij, hnext⟩
    have := hnext (i + 1) (by omega) (Nat.lt_succ_self i)
    omega
  · rintro ⟨rfl, hlt⟩
    exact ⟨by omega, by omega, Nat.lt_succ_self i, fun k _ hik => hik⟩

namespace Cut

/-! ## Trimmed white space -/

theorem trimLeft_le_of_blank {text : Text} {limit start stop : Nat} (hlimit : limit ≤ start)
    (hle : start ≤ stop) (h : Blank text start stop) : trimLeft text limit stop ≤ start := by
  induction stop with
  | zero => exact Nat.zero_le start
  | succ stop ih =>
    rcases Nat.eq_or_lt_of_le hle with rfl | hlt
    · exact trimLeft_le ..
    · obtain ⟨c, hc, hblank⟩ := h stop (Nat.le_of_lt_succ hlt) (Nat.lt_succ_self stop)
      rw [trimLeft, hc, Option.any_some, if_pos ⟨Nat.lt_of_le_of_lt hlimit hlt, hblank⟩]
      exact ih (Nat.le_of_lt_succ hlt) fun j hfrom hto => h j hfrom (Nat.lt_succ_of_lt hto)

namespace Ready

variable {text : Text} {offset : Nat} {cuts : List Range}

/-- White space in the run before a cut does not remain. -/
theorem not_trimmed_of_mem_kept (h : Ready text offset cuts) :
    ∀ i ∈ kept text offset cuts, ¬ Trimmed text cuts i := by
  induction cuts generalizing offset with
  | nil =>
    rintro i - ⟨c, hc, -⟩
    cases hc
  | cons cut cuts ih =>
    rintro i hi ⟨c, hc, hlt, hblank⟩
    have hgap := (List.pairwise_cons.1 h.gaps).1
    have hrange := h.ranges cut List.mem_cons_self
    have hresume := stop_le_resume text offset cut
    rcases List.mem_append.1 hi with hi | hi
    · rw [List.mem_range'_1] at hi
      have hbefore := trimLeft_le text offset cut.start
      rcases List.mem_cons.1 hc with rfl | hc
      · have := trimLeft_le_of_blank hi.1 (Nat.le_of_lt hlt) hblank
        omega
      · -- The run would go over the slash at the start of the first cut.
        have hnext := hgap c hc
        obtain ⟨d, hd, hhorizontal⟩ := hblank cut.start (by omega) (by omega)
        rcases h.slash cut List.mem_cons_self with hzero | hslash
        · omega
        · rw [hslash, Option.some.injEq] at hd
          rw [← hd] at hhorizontal
          exact absurd hhorizontal (by decide)
    · have hle := h.resume.le_of_mem_kept i hi
      rcases List.mem_cons.1 hc with rfl | hc
      · omega
      · exact ih h.resume i hi ⟨c, hc, hlt, hblank⟩

end Ready

/-! ## Words -/

/-- A word character stands at an offset. -/
def WordAt (text : Text) (i : Nat) : Prop := ∃ c, text[i]? = some c ∧ c.isWordOrDollar = true

theorem LineEndAt.isLineEnd {text : Text} {offset n i : Nat} (h : LineEndAt text offset n)
    (hfrom : offset ≤ i) (hto : i < offset + n) : ∃ c, text[i]? = some c ∧ c.isLineEnd = true := by
  cases h with
  | @pair c d hc hd hcr hlf =>
    rcases Nat.eq_or_lt_of_le hfrom with rfl | hlt
    · exact ⟨c, hc, by simp [CodePoint.isLineEnd, hcr]⟩
    · obtain rfl : i = offset + 1 := by omega
      exact ⟨d, hd, by simp [CodePoint.isLineEnd, hlf]⟩
  | @single c hc hend =>
    obtain rfl : i = offset := by omega
    exact ⟨c, hc, isLineEnd_iff.2 hend⟩

theorem Blank.not_slash {text : Text} {start stop i : Nat} (h : Blank text start stop)
    (hfrom : start ≤ i) (hto : i < stop) : text[i]? ≠ some CodePoint.slash := by
  obtain ⟨c, hc, hblank⟩ := h i hfrom hto
  rw [hc]
  rintro ⟨⟩
  exact absurd hblank (by decide)

namespace WordAt

variable {text : Text} {i : Nat} {cuts : List Range}

theorem lt_length (h : WordAt text i) : i < text.length := by
  obtain ⟨c, hc, -⟩ := h
  exact (List.getElem?_eq_some_iff.1 hc).1

theorem not_separator (h : WordAt text i) {c : CodePoint} (hc : text[i]? = some c) :
    ¬ (c = CodePoint.slash ∨ c.isLineEnd = true ∨ c.isHorizontal = true) := by
  obtain ⟨d, hd, hword⟩ := h
  rw [hc, Option.some.injEq] at hd
  subst hd
  exact fun hsep => CodePoint.not_mem_separators hword (CodePoint.mem_separators hsep)

theorem not_blank (h : WordAt text i) {start stop : Nat} (hblank : Blank text start stop)
    (hfrom : start ≤ i) : stop ≤ i := by
  by_contra hto
  obtain ⟨c, hc, hhorizontal⟩ := hblank i hfrom (by omega)
  exact h.not_separator hc (Or.inr (Or.inr hhorizontal))

theorem not_trimmed (h : WordAt text i) : ¬ Trimmed text cuts i := by
  rintro ⟨c, -, hlt, hblank⟩
  have := h.not_blank hblank (Nat.le_refl i)
  omega

theorem not_ended (h : WordAt text i) : ¬ Ended text cuts i := by
  rintro ⟨c, -, -, n, hend, hfrom, hto⟩
  obtain ⟨d, hd, hbreak⟩ := hend.isLineEnd hfrom hto
  exact h.not_separator hd (Or.inr (Or.inl hbreak))

/-- A word character that is not cut remains. -/
theorem mem_kept_iff (h : WordAt text i) (hready : Ready text 0 cuts) :
    i ∈ kept text 0 cuts ↔ ∀ c ∈ cuts, ¬ c.Has i := by
  constructor
  · exact hready.not_cut_of_mem_kept i
  · intro huncut
    rcases hready.accounted (Nat.zero_le i) h.lt_length with hkept | ⟨c, hc, hhas⟩ | htrim | hend
    · exact hkept
    · exact absurd hhas (huncut c hc)
    · exact absurd htrim h.not_trimmed
    · exact absurd hend h.not_ended

end WordAt

/-! ## What stood between -/

/-- Only cuts and white space stand between two offsets, a cut last. -/
structure Joined (text : Text) (cuts : List Range) (i j : Nat) : Prop where
  lt : i < j
  last : ∃ c ∈ cuts, c.Has (j - 1)
  between : ∀ k, i < k → k < j →
    (∃ c ∈ cuts, c.Has k) ∨ ∃ d, text[k]? = some d ∧ d.isHorizontal = true

theorem apart_cases {cuts : List Range} (h : cuts.Pairwise fun a b => a.stop < b.start)
    {a b : Range} (ha : a ∈ cuts) (hb : b ∈ cuts) :
    a = b ∨ a.stop < b.start ∨ b.stop < a.start := by
  induction cuts with
  | nil => cases ha
  | cons c cuts ih =>
    obtain ⟨hnext, hrest⟩ := List.pairwise_cons.1 h
    rcases List.mem_cons.1 ha with hac | ha <;> rcases List.mem_cons.1 hb with hbc | hb
    · exact Or.inl (hac.trans hbc.symm)
    · exact Or.inr (Or.inl (hac ▸ hnext b hb))
    · exact Or.inr (Or.inr (hbc ▸ hnext a ha))
    · exact ih hrest ha hb

/-- The line terminator before a cut that leads its line is not cut: cuts stop with comments, and
those stop before the end of their line. -/
theorem Ready.not_has_lineEnd {text : Text} {cuts : List Range} (h : Ready text 0 cuts)
    (hcomments : ∀ c ∈ cuts, c.stop = 0 ∨ ∃ start, CommentAt text start c.stop) {c : Range}
    (hc : c ∈ cuts) {k : Nat} (hk : k < c.start) (hblank : Blank text (k + 1) c.start)
    {e : CodePoint} (he : text[k]? = some e) (hend : e.isLineEnd = true) :
    ∀ a ∈ cuts, ¬ a.Has k := by
  rintro a ha ⟨hstart, hstop⟩
  have hgap : a.stop < c.start := by
    rcases apart_cases h.gaps ha hc with rfl | hlt | hlt
    · omega
    · exact hlt
    · have := (h.ranges c hc).1
      omega
  obtain ⟨first, hcomment⟩ := (hcomments a ha).resolve_left (by omega)
  rcases Nat.eq_or_lt_of_le (show k + 1 ≤ a.stop from hstop) with heq | hlt
  · obtain ⟨d, hd, hopen⟩ := hcomment.last
    rw [← heq, Nat.add_sub_cancel, he, Option.some.injEq] at hd
    rw [← hd, hend] at hopen
    cases hopen
  · rcases hcomment.ended with hslash | hlength | ⟨d, hd, hbreak⟩
    · exact hblank.not_slash (by omega) (by omega) hslash
    · have := h.ranges c hc
      omega
    · rw [hblank.not_lineEnd (by omega) hgap hd] at hbreak
      cases hbreak

/-- A word character remains, and nothing after it up to some offset; each cut stops with a
comment. -/
structure Crossing (text : Text) (cuts : List Range) (i j : Nat) : Prop where
  ready : Ready text 0 cuts
  comments : ∀ c ∈ cuts, c.stop = 0 ∨ ∃ start, CommentAt text start c.stop
  word : WordAt text i
  uncut : ∀ c ∈ cuts, ¬ c.Has i
  gone : ∀ k, i < k → k < j → k ∉ kept text 0 cuts

namespace Crossing

variable {text : Text} {cuts : List Range} {i j : Nat}

/-- No line is ended after the word character: the line terminator before the cut that leads the line
would remain. -/
theorem not_ended (h : Crossing text cuts i j) (k : Nat) (hik : i < k) (hkj : k < j) :
    ¬ Ended text cuts k := by
  induction k using Nat.strong_induction_on with
  | _ k ih =>
    rintro ⟨c, hc, ⟨start, hstart, hblank, hline⟩, n, hend, hfrom, hto⟩
    have hrange := h.ready.ranges c hc
    have hbefore : i < c.start := by
      by_contra hle
      have huncut := h.uncut c hc
      simp only [Range.Has, not_and] at huncut
      obtain ⟨d, hd, hbreak⟩ := hend.isLineEnd (by omega) (by omega : i < c.stop + n)
      exact h.word.not_separator hd (Or.inr (Or.inl hbreak))
    have hlead : i < start := by
      by_contra hle
      have := h.word.not_blank hblank (by omega)
      omega
    obtain ⟨e, he, hbreak⟩ := hline.resolve_left (by omega)
    have hmark : e.isLineEnd = true := isLineEnd_iff.2 hbreak
    have hne : i ≠ start - 1 := by
      rintro rfl
      exact h.word.not_separator he (Or.inr (Or.inl hmark))
    have hlt := (List.getElem?_eq_some_iff.1 he).1
    rcases h.ready.accounted (Nat.zero_le _) hlt with hkept | ⟨c', hc', hhas⟩ | htrim | hended
    · exact h.gone _ (by omega) (by omega) hkept
    · have hrun : Blank text (start - 1 + 1) c.start := by
        rwa [Nat.sub_add_cancel (by omega : 1 ≤ start)]
      exact h.ready.not_has_lineEnd h.comments hc (by omega) hrun he hmark c' hc' hhas
    · obtain ⟨c', -, hlt', hrun⟩ := htrim
      rw [hrun.not_lineEnd (Nat.le_refl _) hlt' he] at hmark
      cases hmark
    · exact ih (start - 1) (by omega) (by omega) (by omega) hended

/-- If the next offset that remains is that of another word character, only cuts and white space stood
between the two, a cut last. -/
theorem joined (h : Crossing text cuts i j) (hj : WordAt text j) (hij : i + 1 < j) :
    Joined text cuts i j := by
  have hbetween : ∀ k, i < k → k < j → (∃ c ∈ cuts, c.Has k) ∨ Trimmed text cuts k := by
    intro k hik hkj
    rcases h.ready.accounted (Nat.zero_le k) (Nat.lt_trans hkj hj.lt_length) with
      hkept | hcut | htrim | hended
    · exact absurd hkept (h.gone k hik hkj)
    · exact Or.inl hcut
    · exact Or.inr htrim
    · exact absurd hended (h.not_ended k hik hkj)
  refine ⟨by omega, ?_, fun k hik hkj => ?_⟩
  · refine (hbetween (j - 1) (by omega) (by omega)).resolve_right ?_
    rintro ⟨c, hc, hlt, hblank⟩
    -- The run ends at the second word character, where a cut starts with a slash.
    have hle := hj.not_blank hblank (by omega)
    obtain rfl : j = c.start := by omega
    rcases h.ready.slash c hc with hzero | hslash
    · omega
    · exact hj.not_separator hslash (Or.inl rfl)
  · rcases hbetween k hik hkj with hcut | ⟨c, -, hlt, hblank⟩
    · exact Or.inl hcut
    · exact Or.inr (hblank k (Nat.le_refl k) hlt)

end Crossing

/-- White space between two offsets that are joined is trimmed before the next cut. -/
theorem Joined.trimmed {text : Text} {cuts : List Range} {i j k : Nat} (h : Joined text cuts i j)
    (hik : i < k) (hkj : k < j) (huncut : ∀ c ∈ cuts, ¬ c.Has k) : Trimmed text cuts k := by
  have hne : k ≠ j - 1 := by
    rintro rfl
    obtain ⟨c, hc, hhas⟩ := h.last
    exact huncut c hc hhas
  -- The first offset after `k` that is cut starts a cut, and all up to it is white space.
  have hexists : ∃ n, k < n ∧ ∃ c ∈ cuts, c.Has n := ⟨j - 1, by omega, h.last⟩
  classical
  obtain ⟨hlt, c, hc, hhas⟩ := Nat.find_spec hexists
  have hmin : ∀ m, k ≤ m → m < Nat.find hexists → ∀ c ∈ cuts, ¬ c.Has m := by
    intro m hkm hm c hc hhas
    rcases Nat.eq_or_lt_of_le hkm with rfl | hkm
    · exact huncut c hc hhas
    · exact Nat.find_min hexists hm ⟨hkm, c, hc, hhas⟩
  have hfirst : Nat.find hexists ≤ j - 1 := Nat.find_min' hexists ⟨by omega, h.last⟩
  generalize Nat.find hexists = n at hlt hhas hmin hfirst
  have hstart : c.start = n := by
    have := hmin (n - 1) (by omega) (by omega) c hc
    have := hhas.1
    have := hhas.2
    simp only [Range.Has, not_and] at *
    omega
  refine ⟨c, hc, by omega, fun m hkm hm => ?_⟩
  refine (h.between m (by omega) (by omega)).resolve_left ?_
  rintro ⟨a, ha, hhas⟩
  exact hmin m hkm (by omega) a ha hhas

/-- The last cut between two offsets stops at the second one. -/
theorem Joined.exists_stop {text : Text} {cuts : List Range} {i j : Nat}
    (h : Joined text cuts i j) (hj : ∀ c ∈ cuts, ¬ c.Has j) : ∃ c ∈ cuts, c.stop = j := by
  obtain ⟨c, hc, hstart, hstop⟩ := h.last
  have hlt := h.lt
  have hnot := hj c hc
  simp only [Range.Has, not_and] at hnot
  exact ⟨c, hc, by omega⟩

/-- Word characters come to stand next to one another if they did so before, or if they are joined. -/
theorem Ready.infix_kept_iff {text : Text} {cuts : List Range} (h : Ready text 0 cuts)
    (hcomments : ∀ c ∈ cuts, c.stop = 0 ∨ ∃ start, CommentAt text start c.stop) {i j : Nat}
    (hi : WordAt text i) (hj : WordAt text j) :
    [i, j] <:+: kept text 0 cuts ↔
      (∀ c ∈ cuts, ¬ c.Has i) ∧ (∀ c ∈ cuts, ¬ c.Has j) ∧ (j = i + 1 ∨ Joined text cuts i j) := by
  rw [infix_pair_iff h.kept_sorted, hi.mem_kept_iff h, hj.mem_kept_iff h]
  refine and_congr_right fun hiuncut => and_congr_right fun hjuncut => ?_
  constructor
  · rintro ⟨hij, hnone⟩
    rcases Nat.eq_or_lt_of_le (show i + 1 ≤ j from hij) with heq | hlt
    · exact Or.inl heq.symm
    · have hcross : Crossing text cuts i j := by
        refine ⟨h, hcomments, hi, hiuncut, fun k hik hkj hkept => ?_⟩
        have := hnone k hkept hik
        omega
      exact Or.inr (hcross.joined hj hlt)
  · rintro (rfl | hjoined)
    · exact ⟨Nat.lt_succ_self i, fun k _ hik => hik⟩
    · refine ⟨hjoined.lt, fun k hkept hik => ?_⟩
      by_contra hkj
      have huncut := h.not_cut_of_mem_kept k hkept
      exact h.not_trimmed_of_mem_kept k hkept (hjoined.trimmed hik (by omega) huncut)

/-! ## What is emitted -/

/-- The offsets at which what is emitted stands in the source. -/
def origins (source : Text) (cuts : Cuts) : List Nat :=
  if cuts.isEmpty then List.range' 0 source.length else kept source 0 cuts.toList

theorem map_origins {source : Text} {cuts : Cuts} (h : Ready source 0 cuts.toList) :
    (origins source cuts).map (fun i => source[i]?) = (emit source cuts).map some := by
  unfold origins emit
  split
  · rw [map_range' _ _ _ (by omega), List.drop_zero, List.take_length]
  · exact h.map_kept

theorem infix_origins_iff {source : Text} {cuts : Cuts} (h : Ready source 0 cuts.toList)
    (hcomments : ∀ c ∈ cuts.toList, c.stop = 0 ∨ ∃ start, CommentAt source start c.stop)
    {i j : Nat} (hi : WordAt source i) (hj : WordAt source j) :
    [i, j] <:+: origins source cuts ↔
      ¬ cuts.Has i ∧ ¬ cuts.Has j ∧ (j = i + 1 ∨ Joined source cuts.toList i j) := by
  unfold origins
  split
  · rename_i hempty
    have hnone := Cuts.not_has_of_isEmpty hempty
    have hjoined : ¬ Joined source cuts.toList i j := fun hjoined => hnone _ hjoined.last
    simp [infix_range'_iff, hnone, hjoined, hj.lt_length]
  · simp only [h.infix_kept_iff hcomments hi hj, Cuts.Has, not_exists, not_and]

/-- The last cut between words is that of a directive in a block comment: what is in a line comment
stops before the end of its line. -/
theorem exists_block_of_stop {source : Text} {blocks : List Block} {j : Nat}
    (hparse : (Block.parse source).2 = .ok blocks) (hj : WordAt source j)
    (hstop : ∃ s ∈ Block.spans blocks, s.stop = j) :
    ∃ c ∈ Comment.find source, c.block = true ∧ c.stop = j ∧
      (Directive.ofComment? c.text true).isSome := by
  obtain ⟨s, hs, rfl⟩ := hstop
  rw [Block.spans_of_parse hparse] at hs
  obtain ⟨d, hd, rfl⟩ := List.mem_map.1 hs
  obtain ⟨c, hc, hfound⟩ := List.mem_filterMap.1 hd
  obtain ⟨⟨tag, payload⟩, hdirective, rfl⟩ := Option.map_eq_some_iff.1 hfound
  have hblock : c.block = true := by
    rw [← Bool.not_eq_false]
    intro hline
    obtain ⟨e, he, -⟩ := id hj
    exact hj.not_separator he (Or.inr (Or.inl (Comment.ended_of_mem_find hc hline he)))
  rw [hblock] at hdirective
  exact ⟨c, hc, hblock, rfl, by rw [hdirective]; rfl⟩

/-- What is emitted is read off the offsets where it stands in the source, and two word characters of
    it stand next to one another exactly if they did so before or only cuts and white space stood
    between them, a cut last. That cut stops with a directive in a block comment. -/
theorem words_meet {source : Text} {blocks : List Block} {choices : Choices}
    (hparse : (Block.parse source).2 = .ok blocks)
    (hchoices : ∀ b ∈ Block.preorderList blocks, b.CanTake (choices.taken? b)) :
    ∃ cuts, Block.cuts? choices blocks = some cuts ∧
      (origins source cuts).map (fun i => source[i]?) = (emit source cuts).map some ∧
      ∀ i j, WordAt source i → WordAt source j →
        ([i, j] <:+: origins source cuts ↔
          ¬ cuts.Has i ∧ ¬ cuts.Has j ∧ (j = i + 1 ∨ Joined source cuts.toList i j)) ∧
        ([i, j] <:+: origins source cuts → j ≠ i + 1 →
          ∃ c ∈ Comment.find source, c.block = true ∧ c.stop = j ∧
            (Directive.ofComment? c.text true).isSome) := by
  obtain ⟨cuts, hcuts, hapart, hends, -⟩ := Block.cuts_of_parse hparse hchoices
  have hlaid := Block.parse_laid hparse
  have hready := ready_of_ends hlaid hapart hends
  have hcomments : ∀ c ∈ cuts.toList, c.stop = 0 ∨ ∃ start, CommentAt source start c.stop := by
    intro c hc
    refine (hends c hc).2.imp_right ?_
    rintro ⟨s, hs, hstop⟩
    exact ⟨s.start, hstop ▸ hlaid.comment s hs⟩
  refine ⟨cuts, hcuts, map_origins hready, fun i j hi hj => ?_⟩
  have hiff := infix_origins_iff hready hcomments hi hj
  refine ⟨hiff, fun hmeet hne => ?_⟩
  obtain ⟨-, huncut, hor⟩ := hiff.1 hmeet
  have hjoined := hor.resolve_left hne
  obtain ⟨c, hc, hstop⟩ := hjoined.exists_stop fun c hc hhas => huncut ⟨c, hc, hhas⟩
  have hlt := hjoined.lt
  refine exists_block_of_stop hparse hj ?_
  rw [← hstop]
  exact (hends c hc).2.resolve_left (by omega)

/-- White space before a directive, and after another. -/
def inlineSample : Text := "a /*#if A*/b/*#endif*/ c"

theorem words_meet_inline :
    ∃ blocks, (Block.parse inlineSample).2 = .ok blocks ∧
      (∀ b ∈ Block.preorderList blocks, b.CanTake (Choices.taken? [(2, 0)] b)) ∧
      WordAt inlineSample 11 ∧ WordAt inlineSample 23 ∧
      ∃ cuts, Block.cuts? [(2, 0)] blocks = some cuts ∧
        ([11, 23] <:+: origins inlineSample cuts ↔
          ¬ cuts.Has 11 ∧ ¬ cuts.Has 23 ∧ (23 = 11 + 1 ∨ Joined inlineSample cuts.toList 11 23)) := by
  obtain ⟨blocks, hparse, hcheck⟩ := Block.parse_of_check
    (show (Block.parse inlineSample).2.toOption.any (fun blocks =>
      decide (∀ b ∈ Block.preorderList blocks, b.CanTake (Choices.taken? [(2, 0)] b))) = true by
      decide +kernel)
  have hchoices := of_decide_eq_true hcheck
  have hb : WordAt inlineSample 11 := ⟨CodePoint.ofChar 'b', by decide +kernel, by decide +kernel⟩
  have hc : WordAt inlineSample 23 := ⟨CodePoint.ofChar 'c', by decide +kernel, by decide +kernel⟩
  obtain ⟨cuts, hcuts, -, hmeet⟩ := words_meet hparse hchoices
  exact ⟨blocks, hparse, hchoices, hb, hc, cuts, hcuts, (hmeet 11 23 hb hc).1⟩

/-- White space before a directive in a line of code goes with it, and the words on both sides become
one. -/
theorem words_fuse :
    ∃ blocks, (Block.parse inlineSample).2 = .ok blocks ∧
      (∀ b ∈ Block.preorderList blocks, b.CanTake (Choices.taken? [(2, 0)] b)) ∧
      ∃ cuts, Block.cuts? [(2, 0)] blocks = some cuts ∧
        emit inlineSample cuts = Text.ofString "ab c" ∧ [0, 11] <:+: origins inlineSample cuts ∧
        ¬ Text.ofString "ab" <:+: inlineSample := by
  obtain ⟨blocks, hparse, hcheck⟩ := Block.parse_of_check
    (show (Block.parse inlineSample).2.toOption.any (fun blocks =>
      decide (∀ b ∈ Block.preorderList blocks, b.CanTake (Choices.taken? [(2, 0)] b)) &&
      (Block.cuts? [(2, 0)] blocks).any fun cuts =>
        decide (emit inlineSample cuts = Text.ofString "ab c") &&
        decide ([0, 11] <:+: origins inlineSample cuts)) = true by
      decide +kernel)
  rw [Bool.and_eq_true, decide_eq_true_eq, Option.any_eq_true] at hcheck
  obtain ⟨hchoices, cuts, hcuts, hcheck⟩ := hcheck
  rw [Bool.and_eq_true, decide_eq_true_eq, decide_eq_true_eq] at hcheck
  exact ⟨blocks, hparse, hchoices, cuts, hcuts, hcheck.1, hcheck.2, by decide +kernel⟩

end Cut

end GuardedText
