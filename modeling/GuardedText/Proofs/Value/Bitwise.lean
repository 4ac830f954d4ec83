import GuardedText.Proofs.Number.Word
import GuardedText.Value.Operator

/-
  Operators on words. Operands that are integers, of whatever size and sign, are combined as the bit
  vectors of 32 bits that they stand for, and shifted by what their lowest five bits say. The result
  is read back with a sign, except that of a shift that brings in zeros (`Store.binary_words`).
-/

namespace GuardedText

namespace Num

/-- What it is for a number to be an integer, be it exact or a double. -/
def IsWhole (m : Int) : Num → Prop
  | .int n => n = m
  | .float x => Double.isInteger x = true ∧ Double.truncate? x = some m

theorem IsWhole.truncate? {n : Num} {m : Int} (h : n.IsWhole m) : n.truncate? = some m := by
  cases n with
  | int n => exact congrArg some h
  | float x => exact h.2

end Num

namespace Store

variable (s : Store)

/-! ## Operators by their spelling -/

/-- The spelling of an operator stands for it. -/
theorem binaryNamed_symbol (op : BinaryOp) (a b : Value) :
    s.binaryNamed (Text.ofString op.symbol) a b = s.binary op a b := by
  cases op <;> rfl

theorem unaryNamed_symbol (op : UnaryOp) (v : Value) :
    s.unaryNamed (Text.ofString op.symbol) v = s.unary op v := by
  cases op <;> rfl

/-! ## Words of operands -/

section

variable {s} {v : Value} {n : Num} {m : Int} (hv : s.toNumber v = .ok n) (hn : n.IsWhole m)
include hv hn

theorem toInt32_of_isWhole : s.toInt32 v = .ok (Word.signed m) := by
  rw [toInt32, hv]
  change Except.ok n.toInt32 = _
  rw [Num.toInt32, hn.truncate?]
  rfl

theorem toUInt32_of_isWhole : s.toUInt32 v = .ok (Word.unsigned m) := by
  rw [toUInt32, hv]
  change Except.ok n.toUInt32 = _
  rw [Num.toUInt32, hn.truncate?]
  rfl

theorem shiftCount_of_isWhole : s.shiftCount v = .ok ((BitVec.ofInt 32 m).toNat % 32) := by
  rw [shiftCount, toUInt32_of_isWhole hv hn, ← Word.count_eq]
  rfl

end

/-- Operators on words are those of bit vectors of 32 bits. -/
theorem binary_words {a b : Value} {x y : Num} {m n : Int} (ha : s.toNumber a = .ok x)
    (hx : x.IsWhole m) (hb : s.toNumber b = .ok y) (hy : y.IsWhole n) :
    let u := BitVec.ofInt 32 m
    let v := BitVec.ofInt 32 n
    let places := v.toNat % 32
    s.binaryNamed "&" a b = .ok (.num (.int (u &&& v).toInt)) ∧
      s.binaryNamed "|" a b = .ok (.num (.int (u ||| v).toInt)) ∧
      s.binaryNamed "^" a b = .ok (.num (.int (u ^^^ v).toInt)) ∧
      s.binaryNamed "<<" a b = .ok (.num (.int (u <<< places).toInt)) ∧
      s.binaryNamed ">>" a b = .ok (.num (.int (u.sshiftRight places).toInt)) ∧
      s.binaryNamed ">>>" a b = .ok (.num (.int (u >>> places).toNat)) ∧
      s.unaryNamed "~" a = .ok (.num (.int (~~~u).toInt)) := by
  intro u v places
  have hm := toInt32_of_isWhole ha hx
  have hn := toInt32_of_isWhole hb hy
  have hcount := shiftCount_of_isWhole hb hy
  have hbitwise (op : Int → Int → Int) :
      s.bitwise op a b = .ok (.num (.int (op (Word.signed m) (Word.signed n)))) := by
    rw [bitwise, hm, hn]
    rfl
  refine ⟨?_, ?_, ?_, ?_, ?_, ?_, ?_⟩
  · exact (s.binaryNamed_symbol .bitAnd a b).trans
      ((hbitwise _).trans (by rw [Word.and_signed]))
  · exact (s.binaryNamed_symbol .bitOr a b).trans
      ((hbitwise _).trans (by rw [Word.or_signed]))
  · exact (s.binaryNamed_symbol .bitXor a b).trans
      ((hbitwise _).trans (by rw [Word.xor_signed]))
  · refine (s.binaryNamed_symbol .shiftLeft a b).trans ?_
    rw [binary, hm, hcount, ← Word.shiftLeft_signed]
    rfl
  · refine (s.binaryNamed_symbol .shiftRight a b).trans ?_
    rw [binary, hm, hcount, ← Word.shiftRight_signed]
    rfl
  · refine (s.binaryNamed_symbol .shiftRightZero a b).trans ?_
    rw [binary, toUInt32_of_isWhole ha hx, hcount, ← Word.shiftRight_unsigned]
    rfl
  · refine (s.unaryNamed_symbol .bitNot a).trans ?_
    rw [unary, hm, ← Word.not_signed]
    rfl

/-- A number of 34 bits and the text of one below zero: shifting by -31 is shifting by one. -/
theorem binary_words_wide :
    Store.toNumber #[] (.num (.int 0x280000001)) = .ok (.int 0x280000001) ∧
      Store.toNumber #[] (.text " -31 ") = .ok (.int (-31)) ∧
      Store.binaryNamed #[] "&" (.num (.int 0x280000001)) (.text " -31 ") =
        .ok (.num (.int (-0x7FFFFFFF))) ∧
      Store.binaryNamed #[] "<<" (.num (.int 0x280000001)) (.text " -31 ") = .ok (.num (.int 2)) ∧
      Store.binaryNamed #[] ">>>" (.num (.int 0x280000001)) (.text " -31 ") =
        .ok (.num (.int 0x40000000)) := by
  have hleft : Store.toNumber #[] (.num (.int 0x280000001)) = .ok (.int 0x280000001) := rfl
  have hright : Store.toNumber #[] (.text " -31 ") = .ok (.int (-31)) := rfl
  obtain ⟨hand, -, -, hshift, -, hzero, -⟩ := binary_words #[] hleft rfl hright rfl
  exact ⟨hleft, hright, hand, hshift, hzero⟩

end Store

end GuardedText
