import Mathlib.Data.List.Infix
import GuardedText.Proofs.Guard.Lookahead

/-
  Where tokens start. No token starts where white space or a comment starts, but for the division
  sign: a comment that follows it can be read as one with it. That needs three slashes, or two and an
  asterisk; a text without them is plain.
-/

namespace GuardedText

open Token

namespace Token

/-- No two slashes are followed by a slash or an asterisk. -/
structure Plain (s : Text) : Prop where
  noSlash : ¬ Text.ofString "///" <:+: s
  noAsterisk : ¬ Text.ofString "//*" <:+: s

instance (s : Text) : Decidable (Plain s) :=
  decidable_of_iff (¬ Text.ofString "///" <:+: s ∧ ¬ Text.ofString "//*" <:+: s)
    ⟨fun h => ⟨h.1, h.2⟩, fun h => ⟨h.1, h.2⟩⟩

/-! ## Where tokens start -/

theorem stuck_of_head {c : CodePoint} {r : Text} (h : (!isSpace c && !oneOf "/" c) = true) :
    afterGap? (c :: r) = none := by
  simp only [Bool.and_eq_true, Bool.not_eq_true'] at h
  rw [Option.eq_none_iff_forall_ne_some]
  intro t ht
  rcases head_of_afterGap? ht with hc | hc
  · rw [h.1] at hc
    cases hc
  · rw [h.2] at hc
    cases hc

/-- A word that starts neither white space nor a comment. -/
def startsToken (w : String) : Bool := (Text.ofString w).head?.any fun c => !isSpace c && !oneOf "/" c

theorem stuck_append {w : String} (hw : startsToken w = true) (u : Text) :
    afterGap? (Text.ofString w ++ u) = none := by
  unfold startsToken at hw
  cases hcs : Text.ofString w with
  | nil => simp [hcs] at hw
  | cons c cs => exact stuck_of_head (by simpa [hcs] using hw)

theorem stuck_of_lead {s : Text} (h : leadOf s ≠ .none) : afterGap? s = none := by
  cases s with
  | nil => rfl
  | cons c r =>
    refine stuck_of_head ?_
    have hspace : isSpace c = false := by
      rw [Bool.eq_false_iff]
      intro hspace
      have hhead := of_isSpace hspace
        (fun c => !startsName c && !oneOf "." c && decide (leadOfHead c = .none))
        (by decide +kernel)
      simp only [Bool.and_eq_true, Bool.not_eq_true', decide_eq_true_eq] at hhead
      exact h (by simp [leadOf, hhead])
    have hslash : oneOf "/" c = false := by
      rw [Bool.eq_false_iff]
      intro hslash
      have := of_oneOf hslash (oneOf barred) (by decide)
      rw [head_of_lead h] at this
      cases this
    simp [hspace, hslash]

section

variable {s u : Text}

theorem Reads.full {α : Type} {find : Text → Option α} {a : α} (h : Reads false find s a)
    (hstuck : ∀ t, find t = some a → afterGap? t = none) : Reads true find s a := by
  obtain ⟨t, hat, ht⟩ := h
  exact ⟨t, ⟨hat.1, fun _ => hstuck t ht⟩, ht⟩

theorem Reads.full_symbol {w : String} (h : Reads false (symbol? w) s u)
    (hw : startsToken w = true) : Reads true (symbol? w) s u := by
  refine h.full fun t ht => ?_
  rw [symbol?_eq_some.1 ht]
  exact stuck_append hw u

theorem Reads.full_lead {α : Type} {find : Text → Option α} {a : α} (h : Reads false find s a)
    {l : Lead} (hl : l ≠ .none) (hfind : ∀ {t}, find t = some a → leadOf t = l) :
    Reads true find s a :=
  h.full fun _ ht => stuck_of_lead (hfind ht ▸ hl)

theorem Reads.full_name {n : Text} (h : Reads false name? s (n, u)) : Reads true name? s (n, u) :=
  h.full_lead (by decide) leadOf_name?

theorem Reads.full_anyName {n : Text} (h : Reads false anyName? s (n, u)) :
    Reads true anyName? s (n, u) :=
  h.full_lead (leadOfWord_ne (by decide)) leadOf_anyName?

theorem exists_of_afterGap?_slash {r t : Text} (h : afterGap? (CodePoint.ofChar '/' :: r) = some t) :
    ∃ c q, r = c :: q ∧ (c = CodePoint.ofChar '*' ∨ c = CodePoint.ofChar '/') := by
  have hspace : isSpace (CodePoint.ofChar '/') = false := by
    decide
  cases r with
  | nil => simp [afterGap?, hspace] at h
  | cons c q =>
    refine ⟨c, q, rfl, ?_⟩
    by_contra hc
    simp only [not_or] at hc
    simp [afterGap?, hspace, hc] at h

end

end Token

end GuardedText
