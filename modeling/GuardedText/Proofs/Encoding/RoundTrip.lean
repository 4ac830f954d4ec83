import GuardedText.Encoding.Basic
import GuardedText.Proofs.Result

/-
  Encodings lose nothing. The text of bytes has only code points that the encoding has
  (`Encoding.has_of_decode`), and the bytes of a text of such code points have that text
  (`Encoding.decode_encode`). Reading keeps the code points done in front, so both facts are proved of a
  reading that has done some already.
-/

namespace GuardedText

/-- Neither half of a pair of UTF-16. -/
def CodePoint.IsScalar (c : CodePoint) : Prop := c.val < 0xD800 ∨ 0xE000 ≤ c.val

instance (c : CodePoint) : Decidable c.IsScalar := inferInstanceAs (Decidable (_ ∨ _))

theorem CodePoint.isScalar_ofNat {n : Nat} (h : n < 0xD800 ∨ 0xE000 ≤ n) (hn : n < 0x110000) :
    IsScalar (Fin.ofNat 0x110000 n) := by
  unfold IsScalar
  rw [Fin.val_ofNat, Nat.mod_eq_of_lt hn]
  exact h

theorem CodePoint.ofNat_eq (c : CodePoint) {n : Nat} (h : n = c.val) : Fin.ofNat 0x110000 n = c := by
  rw [h]
  exact Fin.ofNat_val_eq_self c

/-! ## UTF-8 -/

namespace Utf8

/-- The bytes that may follow lead to no half of a pair and to nothing beyond the code points. -/
def Begun.Sound (p : Begun) : Prop :=
  ∀ n, p.low ≤ n → n ≤ p.high →
    let bits := p.bits * 64 + (n - 0x80)
    (p.owed = 1 ∧ (bits < 0xD800 ∨ 0xE000 ≤ bits) ∧ bits < 0x110000) ∨
    (p.owed = 2 ∧ (bits < 0x360 ∨ 0x380 ≤ bits) ∧ bits < 0x4400) ∨
    (p.owed = 3 ∧ 0x10 ≤ bits ∧ bits < 0x110)

theorem sound_of_lead? {b start owed bits low high : Nat} {first : Byte}
    (h : lead? b = some (owed, bits, low, high)) :
    (Begun.mk start first 1 bits owed low high).Sound := by
  intro n hlow hhigh
  unfold lead? at h
  dsimp only at hlow hhigh ⊢
  split at h
  · exact nomatch h
  · split at h
    · obtain ⟨rfl, rfl, rfl, rfl⟩ : 1 = owed ∧ b - 0xC0 = bits ∧ 0x80 = low ∧ 0xBF = high := by
        simpa only [Option.some.injEq, Prod.mk.injEq] using h
      omega
    · split at h
      · obtain ⟨rfl, rfl, rfl, rfl⟩ : 2 = owed ∧ b - 0xE0 = bits ∧
            (if b = 0xE0 then 0xA0 else 0x80) = low ∧ (if b = 0xED then 0x9F else 0xBF) = high := by
          simpa only [Option.some.injEq, Prod.mk.injEq] using h
        split at hlow <;> split at hhigh <;> omega
      · split at h
        · obtain ⟨rfl, rfl, rfl, rfl⟩ : 3 = owed ∧ b - 0xF0 = bits ∧
              (if b = 0xF0 then 0x90 else 0x80) = low ∧ (if b = 0xF4 then 0x8F else 0xBF) = high := by
            simpa only [Option.some.injEq, Prod.mk.injEq] using h
          split at hlow <;> split at hhigh <;> omega
        · exact nomatch h

theorem Begun.Sound.next {p : Begun} (h : p.Sound) {n : Nat} (hlow : p.low ≤ n) (hhigh : n ≤ p.high)
    (howed : ¬ p.owed ≤ 1) (start seen : Nat) (first : Byte) :
    (Begun.mk start first seen (p.bits * 64 + (n - 0x80)) (p.owed - 1) 0x80 0xBF).Sound := by
  have hbits := h n hlow hhigh
  intro m hmlow hmhigh
  dsimp only at hbits hmlow hmhigh ⊢
  omega

/-- Reading leads to no half of a pair. -/
theorem isScalar_of_decodeFrom {offset : Nat} {done t : Text} {begun : Option Begun}
    {bytes : List Byte} (h : decodeFrom offset done begun bytes = .ok t)
    (hdone : ∀ c ∈ done, c.IsScalar) (hbegun : ∀ p ∈ begun, p.Sound) : ∀ c ∈ t, c.IsScalar := by
  induction bytes generalizing offset done begun with
  | nil =>
    cases begun with
    | some p => exact nomatch h
    | none =>
      cases h
      exact fun c hc => hdone c (List.mem_reverse.1 hc)
  | cons b bytes ih =>
    cases begun with
    | none =>
      rw [decodeFrom] at h
      split at h
      · refine ih h (List.forall_mem_cons.2 ⟨?_, hdone⟩) nofun
        exact CodePoint.isScalar_ofNat (by omega) (by omega)
      · split at h
        · rename_i hlead
          exact ih h hdone fun p hp => Option.mem_some.1 hp ▸ sound_of_lead? hlead
        · exact nomatch h
    | some p =>
      have hsound := hbegun p rfl
      rw [decodeFrom] at h
      split at h
      · rename_i hrange
        dsimp only at h
        split at h
        · have hbits := hsound b.toNat hrange.1 hrange.2
          dsimp only at hbits
          refine ih h (List.forall_mem_cons.2 ⟨?_, hdone⟩) nofun
          exact CodePoint.isScalar_ofNat (by omega) (by omega)
        · rename_i howed
          refine ih h hdone fun q hq => ?_
          rw [← Option.mem_some.1 hq]
          exact hsound.next hrange.1 hrange.2 howed _ _ _
      · exact nomatch h

theorem toNat_ofNat {n : Nat} (h : n < 256) : (UInt8.ofNat n).toNat = n := by
  rw [UInt8.toNat_ofNat', Nat.mod_eq_of_lt h]

theorem toNat_tail (n : Nat) : (tail n).toNat = 0x80 + n % 64 := toNat_ofNat (by omega)

section

variable {p : Begun} {n : Nat} (offset : Nat) (done : Text) (rest : List Byte)
  (hlow : p.low ≤ 0x80 + n % 64) (hhigh : 0x80 + n % 64 ≤ p.high)
include hlow hhigh

theorem decodeFrom_tail_last (howed : p.owed = 1) :
    decodeFrom offset done (some p) (tail n :: rest) =
      decodeFrom (offset + 1) (Fin.ofNat 0x110000 (p.bits * 64 + n % 64) :: done) none rest := by
  rw [decodeFrom, toNat_tail, if_pos ⟨hlow, hhigh⟩, Nat.add_sub_cancel_left, if_pos (by omega)]

theorem decodeFrom_tail_more (howed : 1 < p.owed) :
    decodeFrom offset done (some p) (tail n :: rest) =
      decodeFrom (offset + 1) done (some ⟨p.start, p.first, p.seen + 1, p.bits * 64 + n % 64,
        p.owed - 1, 0x80, 0xBF⟩) rest := by
  rw [decodeFrom, toNat_tail, if_pos ⟨hlow, hhigh⟩, Nat.add_sub_cancel_left, if_neg (by omega)]

end

theorem decodeFrom_lead {b owed bits low high : Nat} (hb : b < 256) (hlow : 0x80 ≤ b)
    (hlead : lead? b = some (owed, bits, low, high)) (offset : Nat) (done : Text)
    (rest : List Byte) :
    decodeFrom offset done none (UInt8.ofNat b :: rest) =
      decodeFrom (offset + 1) done (some ⟨offset, UInt8.ofNat b, 1, bits, owed, low, high⟩) rest := by
  rw [decodeFrom, toNat_ofNat hb, if_neg (by omega), hlead]

/-- The bytes of a code point are read as that code point. -/
theorem decodeFrom_encodeOne {c : CodePoint} (hc : c.IsScalar) (offset : Nat) (done : Text)
    (rest : List Byte) :
    ∃ offset', decodeFrom offset done none (encodeOne c ++ rest) =
      decodeFrom offset' (c :: done) none rest := by
  have hlt := c.isLt
  unfold CodePoint.IsScalar at hc
  unfold encodeOne
  dsimp only
  split
  · refine ⟨offset + 1, ?_⟩
    rw [List.singleton_append, decodeFrom, toNat_ofNat (by omega), if_pos (by omega), c.ofNat_eq rfl]
  · split
    · have hlead : lead? (0xC0 + c.val / 64) = some (1, c.val / 64, 0x80, 0xBF) := by
        rw [lead?, if_neg (by omega), if_pos (by omega), Nat.add_sub_cancel_left]
      refine ⟨offset + 2, ?_⟩
      rw [List.cons_append, List.singleton_append,
        decodeFrom_lead (by omega) (by omega) hlead,
        decodeFrom_tail_last _ _ _ (by dsimp only; omega) (by dsimp only; omega) rfl,
        c.ofNat_eq (by dsimp only; omega)]
    · split
      · have hlead : lead? (0xE0 + c.val / 4096) = some (2, c.val / 4096,
            if 0xE0 + c.val / 4096 = 0xE0 then 0xA0 else 0x80,
            if 0xE0 + c.val / 4096 = 0xED then 0x9F else 0xBF) := by
          rw [lead?, if_neg (by omega), if_neg (by omega), if_pos (by omega),
            Nat.add_sub_cancel_left]
        refine ⟨offset + 3, ?_⟩
        rw [List.cons_append, List.cons_append, List.singleton_append,
          decodeFrom_lead (by omega) (by omega) hlead,
          decodeFrom_tail_more _ _ _ (by dsimp only; split <;> omega)
            (by dsimp only; split <;> omega) (by dsimp only; omega),
          decodeFrom_tail_last _ _ _ (by dsimp only; omega) (by dsimp only; omega) rfl,
          c.ofNat_eq (by dsimp only; omega)]
      · have hlead : lead? (0xF0 + c.val / 262144) = some (3, c.val / 262144,
            if 0xF0 + c.val / 262144 = 0xF0 then 0x90 else 0x80,
            if 0xF0 + c.val / 262144 = 0xF4 then 0x8F else 0xBF) := by
          rw [lead?, if_neg (by omega), if_neg (by omega), if_neg (by omega), if_pos (by omega),
            Nat.add_sub_cancel_left]
        refine ⟨offset + 4, ?_⟩
        rw [List.cons_append, List.cons_append, List.cons_append, List.singleton_append,
          decodeFrom_lead (by omega) (by omega) hlead,
          decodeFrom_tail_more _ _ _ (by dsimp only; split <;> omega)
            (by dsimp only; split <;> omega) (by dsimp only; omega),
          decodeFrom_tail_more _ _ _ (by dsimp only; omega) (by dsimp only; omega)
            (by dsimp only; omega),
          decodeFrom_tail_last _ _ _ (by dsimp only; omega) (by dsimp only; omega) rfl,
          c.ofNat_eq (by dsimp only; omega)]

theorem decodeFrom_encode {t : Text} (ht : ∀ c ∈ t, c.IsScalar) (offset : Nat) (done : Text) :
    decodeFrom offset done none (encode t) = .ok (done.reverse ++ t) := by
  induction t generalizing offset done with
  | nil => rw [encode, List.flatMap_nil, decodeFrom, List.append_nil]
  | cons c t ih =>
    obtain ⟨hc, ht⟩ := List.forall_mem_cons.1 ht
    obtain ⟨offset', hstep⟩ := decodeFrom_encodeOne hc offset done (encode t)
    rw [encode, List.flatMap_cons, ← encode, hstep, ih ht, List.reverse_cons, List.append_assoc,
      List.singleton_append]

end Utf8

/-! ## UTF-16 -/

namespace Utf16.Order

variable (order : Order)

theorem unit_lt (a b : Byte) : order.unit a b < 0x10000 := by
  have ha := a.toNat_lt
  have hb := b.toNat_lt
  cases order <;> simp only [unit] <;> omega

/-- The two bytes of a unit are read as that unit. -/
theorem exists_bytes {n : Nat} (h : n < 0x10000) :
    ∃ a b, order.bytes n = [a, b] ∧ order.unit a b = n := by
  cases order with
  | little =>
    refine ⟨UInt8.ofNat n, UInt8.ofNat (n / 256), rfl, ?_⟩
    rw [unit, UInt8.toNat_ofNat', UInt8.toNat_ofNat']
    omega
  | big =>
    refine ⟨UInt8.ofNat (n / 256), UInt8.ofNat n, rfl, ?_⟩
    rw [unit, UInt8.toNat_ofNat', UInt8.toNat_ofNat']
    omega

theorem isHigh_iff {u : Nat} : isHigh u = true ↔ 0xD800 ≤ u ∧ u < 0xDC00 := by
  rw [isHigh, Bool.and_eq_true, decide_eq_true_eq, decide_eq_true_eq]

theorem isLow_iff {u : Nat} : isLow u = true ↔ 0xDC00 ≤ u ∧ u < 0xE000 := by
  rw [isLow, Bool.and_eq_true, decide_eq_true_eq, decide_eq_true_eq]

/-- Reading leads to no half of a pair. -/
theorem isScalar_of_decodeFrom {offset : Nat} {done t : Text} {bytes : List Byte}
    (h : order.decodeFrom offset done bytes = .ok t) (hdone : ∀ c ∈ done, c.IsScalar) :
    ∀ c ∈ t, c.IsScalar := by
  fun_induction decodeFrom order offset done bytes with
  | case1 =>
    cases h
    exact fun c hc => hdone c (List.mem_reverse.1 hc)
  | case2 | case3 | case5 | case6 => exact nomatch h
  | case4 _ done a b u _ hhigh c d _ v hlow ih =>
    rw [isHigh_iff] at hhigh
    rw [isLow_iff] at hlow
    refine ih h (List.forall_mem_cons.2 ⟨?_, hdone⟩)
    exact CodePoint.isScalar_ofNat (by omega) (by omega)
  | case7 _ done a b _ u hlow hhigh ih =>
    rw [isHigh_iff] at hhigh
    rw [isLow_iff] at hlow
    have hu : u < 0x10000 := order.unit_lt a b
    refine ih h (List.forall_mem_cons.2 ⟨?_, hdone⟩)
    exact CodePoint.isScalar_ofNat (by omega) (by omega)

/-- The bytes of a code point are read as that code point. -/
theorem decodeFrom_encodeOne {c : CodePoint} (hc : c.IsScalar) (offset : Nat) (done : Text)
    (rest : List Byte) :
    ∃ offset', order.decodeFrom offset done (order.encodeOne c ++ rest) =
      order.decodeFrom offset' (c :: done) rest := by
  have hlt := c.isLt
  unfold CodePoint.IsScalar at hc
  unfold encodeOne
  dsimp only
  split
  · rename_i hsmall
    obtain ⟨a, b, hbytes, hunit⟩ := order.exists_bytes hsmall
    have hlow : ¬ isLow c.val = true := by
      rw [isLow_iff]
      omega
    have hhigh : ¬ isHigh c.val = true := by
      rw [isHigh_iff]
      omega
    refine ⟨offset + 2, ?_⟩
    rw [hbytes, List.cons_append, List.singleton_append, decodeFrom.eq_def]
    dsimp only
    rw [hunit, if_neg hlow, if_neg hhigh, c.ofNat_eq rfl]
  · obtain ⟨a, b, hfirst, hunit⟩ := order.exists_bytes
      (show 0xD800 + (c.val - 0x10000) / 1024 < 0x10000 by omega)
    obtain ⟨a', b', hsecond, hunit'⟩ := order.exists_bytes
      (show 0xDC00 + (c.val - 0x10000) % 1024 < 0x10000 by omega)
    have hlow : ¬ isLow (0xD800 + (c.val - 0x10000) / 1024) = true := by
      rw [isLow_iff]
      omega
    have hhigh : isHigh (0xD800 + (c.val - 0x10000) / 1024) = true := by
      rw [isHigh_iff]
      omega
    have hpair : isLow (0xDC00 + (c.val - 0x10000) % 1024) = true := by
      rw [isLow_iff]
      omega
    refine ⟨offset + 4, ?_⟩
    rw [hfirst, hsecond]
    simp only [List.cons_append, List.nil_append]
    rw [decodeFrom]
    dsimp only
    rw [hunit, hunit', if_neg hlow, if_pos hhigh, if_pos hpair, c.ofNat_eq (by omega)]

theorem decodeFrom_encode {t : Text} (ht : ∀ c ∈ t, c.IsScalar) (offset : Nat) (done : Text) :
    order.decodeFrom offset done (order.encode t) = .ok (done.reverse ++ t) := by
  induction t generalizing offset done with
  | nil => rw [encode, List.flatMap_nil, decodeFrom, List.append_nil]
  | cons c t ih =>
    obtain ⟨hc, ht⟩ := List.forall_mem_cons.1 ht
    obtain ⟨offset', hstep⟩ := order.decodeFrom_encodeOne hc offset done (order.encode t)
    rw [encode, List.flatMap_cons, ← encode, hstep, ih ht, List.reverse_cons, List.append_assoc,
      List.singleton_append]

end Utf16.Order

/-! ## All encodings -/

namespace Encoding

/-- The code points that an encoding has. -/
def Has : Encoding → CodePoint → Prop
  | .ascii, c => c.val < 0x80
  | .latin1, c => c.val < 0x100
  | .utf8, c | .utf8Marked, c | .utf16 _, c | .utf16Marked, c => c.IsScalar

/-- Every encoding has the characters of ASCII. -/
theorem has_of_lt (encoding : Encoding) {c : CodePoint} (h : c.val < 0x80) : encoding.Has c := by
  cases encoding <;> simp only [Has, CodePoint.IsScalar] <;> omega

theorem find?_notAscii_eq_none {bytes : List Byte} :
    (bytes.zipIdx.find? fun (b, _) => decide (0x80 ≤ b.toNat)) = none ↔
      ∀ b ∈ bytes, b.toNat < 0x80 := by
  have hfst : bytes.zipIdx.map Prod.fst = bytes := List.zipIdx_map_fst 0 bytes
  have hall := List.forall_mem_map (f := Prod.fst) (l := bytes.zipIdx)
    (P := fun b : Byte => b.toNat < 0x80)
  rw [hfst] at hall
  rw [List.find?_eq_none, hall]
  simp

theorem decodeAscii_eq_ok {bytes : List Byte} {t : Text} :
    decodeAscii bytes = .ok t ↔
      (∀ b ∈ bytes, b.toNat < 0x80) ∧ bytes.map (fun b => Fin.ofNat 0x110000 b.toNat) = t := by
  unfold decodeAscii
  rw [← find?_notAscii_eq_none]
  cases bytes.zipIdx.find? fun (b, _) => decide (0x80 ≤ b.toNat) with
  | none => simp
  | some found => simp

theorem isScalar_of_decodeMarked? {bytes : List Byte} {t : Text}
    (h : Utf16.decodeMarked? bytes = .ok (some t)) : ∀ c ∈ t, c.IsScalar := by
  unfold Utf16.decodeMarked? at h
  split at h
  · cases h
    nofun
  · obtain ⟨t', ht', hsome⟩ := Except.map_eq_ok.1 h
    cases hsome
    exact Utf16.Order.little.isScalar_of_decodeFrom ht' nofun
  · obtain ⟨t', ht', hsome⟩ := Except.map_eq_ok.1 h
    cases hsome
    exact Utf16.Order.big.isScalar_of_decodeFrom ht' nofun
  · obtain ⟨t', -, hnone⟩ := Except.map_eq_ok.1 h
    cases hnone

/-- The text of some bytes has code points of the encoding. -/
theorem has_of_decode {encoding : Encoding} {bytes : List Byte} {t : Text}
    (h : encoding.decode bytes = .ok t) : ∀ c ∈ t, encoding.Has c := by
  cases encoding with
  | ascii =>
    obtain ⟨hascii, rfl⟩ := decodeAscii_eq_ok.1 (Except.mapError_eq_ok.1 h)
    intro c hc
    obtain ⟨b, hb, rfl⟩ := List.mem_map.1 hc
    have hb := hascii b hb
    rw [Has, Fin.val_ofNat]
    omega
  | latin1 =>
    cases h
    intro c hc
    obtain ⟨b, -, rfl⟩ := List.mem_map.1 hc
    have hb := b.toNat_lt
    rw [Has, Fin.val_ofNat]
    omega
  | utf8 => exact Utf8.isScalar_of_decodeFrom (Except.mapError_eq_ok.1 h) nofun nofun
  | utf8Marked =>
    have h := Except.mapError_eq_ok.1 h
    unfold Utf8.decodeMarked at h
    split at h
    · cases h
      nofun
    · exact Utf8.isScalar_of_decodeFrom h nofun nofun
  | utf16 order => exact order.isScalar_of_decodeFrom (Except.mapError_eq_ok.1 h) nofun
  | utf16Marked =>
    rw [decode] at h
    split at h
    · rename_i hmarked
      cases h
      exact isScalar_of_decodeMarked? hmarked
    · exact nomatch h
    · exact nomatch h

/-- Code points below 256 are read back from single bytes. -/
theorem map_ofNat_eq {t : Text} (ht : ∀ c ∈ t, c.val < 0x100) :
    (t.map fun c => UInt8.ofNat c.val).map (fun b => Fin.ofNat 0x110000 b.toNat) = t := by
  rw [List.map_map]
  refine (List.map_congr_left fun c hc => ?_).trans (List.map_id t)
  refine c.ofNat_eq ?_
  rw [UInt8.toNat_ofNat', Nat.mod_eq_of_lt (ht c hc)]

/-- The bytes of a text are read as that text. -/
theorem decode_encode (encoding : Encoding) {t : Text} (ht : ∀ c ∈ t, encoding.Has c) :
    encoding.decode (encoding.encode t) = .ok t := by
  cases encoding with
  | ascii =>
    have hascii : ∀ c ∈ t, c.val < 0x80 := ht
    refine Except.mapError_eq_ok.2 (decodeAscii_eq_ok.2 ⟨?_, map_ofNat_eq fun c hc => ?_⟩)
    · intro b hb
      obtain ⟨c, hc, rfl⟩ := List.mem_map.1 hb
      have hc := hascii c hc
      rw [UInt8.toNat_ofNat']
      omega
    · exact Nat.lt_trans (hascii c hc) (by decide)
  | latin1 => exact congrArg Except.ok (map_ofNat_eq ht)
  | utf8 => exact Except.mapError_eq_ok.2 (Utf8.decodeFrom_encode ht 0 [])
  | utf8Marked =>
    have hlong : ¬ (Utf8.mark ++ Utf8.encode t).length < 3 := by
      rw [List.length_append, Utf8.mark]
      exact Nat.not_lt.2 (Nat.le_add_right 3 _)
    have hrest : Utf8.mark.isPrefixOf? (Utf8.mark ++ Utf8.encode t) = some (Utf8.encode t) := rfl
    refine Except.mapError_eq_ok.2 ?_
    rw [encode, Utf8.decodeMarked, decide_eq_false hlong, hrest]
    exact Utf8.decodeFrom_encode ht 0 []
  | utf16 order => exact Except.mapError_eq_ok.2 (order.decodeFrom_encode ht 0 [])
  | utf16Marked =>
    have hmarked : Utf16.decodeMarked? (Utf16.encodeMarked t) = .ok (some t) :=
      Except.map_eq_ok.2 ⟨t, Utf16.Order.little.decodeFrom_encode ht 2 [], rfl⟩
    rw [encode, decode, hmarked]

end Encoding

end GuardedText
