import GuardedText.Proofs.Method.Call
import GuardedText.Proofs.Text.Search

/-
  Splitting and joining texts. A text that is split and joined again with the same separator is the
  text it was, whatever value the separator is (`Eval.split_join`). For a separator that is not
  empty the parts are what stands between its occurrences.
-/

namespace GuardedText

/-- The parts of a text if a separator is a value with a text. -/
def Text.parts (t sep : Text) : Value → List Text
  | .undefined => [t]
  | _ => if sep.isEmpty then t.map fun c => [c] else t.splitOn sep

/-- The text that stands between items that are joined with a value with a text. -/
def Text.joint (sep : Text) : Value → Text
  | .undefined => ","
  | _ => sep

namespace Text

variable {v : Value} {sep : Text}

theorem joint_of_ne (hv : v ≠ .undefined) : joint sep v = sep := by
  cases v with
  | undefined => exact absurd rfl hv
  | _ => rfl

theorem parts_of_ne (hv : v ≠ .undefined) (t : Text) :
    parts t sep v = if sep.isEmpty then t.map fun c => [c] else t.splitOn sep := by
  cases v with
  | undefined => exact absurd rfl hv
  | _ => rfl

theorem parts_of_ne_nil (hv : v ≠ .undefined) (hsep : sep ≠ []) (t : Text) :
    parts t sep v = t.splitOn sep := by
  rw [parts_of_ne hv, if_neg (fun h => hsep (List.isEmpty_iff.1 h))]

/-- The parts of a text, joined with what it was split at. -/
theorem join_parts (t sep : Text) (v : Value) : join (joint sep v) (parts t sep v) = t := by
  by_cases hv : v = .undefined
  · subst hv
    rfl
  rw [joint_of_ne hv]
  by_cases hsep : sep = []
  · subst hsep
    rw [parts_of_ne hv]
    exact join_characters t
  · rw [parts_of_ne_nil hv hsep]
    exact join_splitOn hsep t

end Text

namespace Store

variable {s : Store} {v : Value} {sep : Text}

/-- A text is split into its parts, of which a limit keeps the first. -/
theorem split_text (hsep : s.toText v = .ok sep) (t : Text) (limit : Value) :
    s.split t v limit =
      match limit with
      | .undefined => .ok (t.parts sep v)
      | limit => do return (t.parts sep v).take (← s.toUInt32 limit).toNat := by
  cases v with
  | undefined => rfl
  | _ =>
    unfold split
    dsimp only
    rw [hsep]
    rfl

theorem split_limit (hsep : s.toText v = .ok sep) (t : Text) {limit : Value}
    (hlimit : limit ≠ .undefined) {k : Int} (hk : s.toUInt32 limit = .ok k) :
    s.split t v limit = .ok ((t.parts sep v).take k.toNat) := by
  rw [split_text hsep]
  cases limit with
  | undefined => exact absurd rfl hlimit
  | _ =>
    dsimp only
    rw [hk]
    rfl

end Store

namespace Eval

open Store

theorem callText_split {t : Text} {args : List Value} (hargs : args.length ≤ 2) {w : World}
    {parts : List Text}
    (hparts : w.store.split t (args.headD .undefined) (args.getD 1 .undefined) = .ok parts) :
    callText .textSplit t args w =
      .ok (.ref w.store.size) (w.grown #[.list (parts.map .text)]) := by
  have hcall : callText .textSplit t args w =
      (if 2 < args.length then throw .badCall else do
        let parts ← read (·.split t (args.headD .undefined) (args.getD 1 .undefined))
        newList (parts.map .text) : Eval Value) w := by
    cases args with
    | nil => rfl
    | cons => rfl
  rw [hcall, if_neg (Nat.not_lt.2 hargs), read_bind_apply, hparts]
  exact allocate_eq _ w

theorem mapM_texts (parts : List Text) (w : World) :
    ((parts.map Value.text).mapM fun item =>
      if isNothing item then pure [] else read (·.toText item) : Eval (List Text)) w =
      .ok parts w := by
  induction parts with
  | nil => rfl
  | cons part parts ih =>
    rw [List.map_cons, List.mapM_cons]
    show (read (·.toText (.text part)) >>= _) w = _
    rw [read_bind_apply]
    show EStateM.bind _ _ w = _
    rw [EStateM.bind, ih]
    rfl

/-- Texts joined with a value. -/
theorem joined_texts (parts : List Text) {v : Value} {sep : Text} {w : World}
    (hsep : w.store.toText v = .ok sep) :
    joined (parts.map .text) v w = .ok (.text (Text.join (Text.joint sep v) parts)) w := by
  have hrest (text : Text) : ((do
      let texts ← (parts.map Value.text).mapM fun item =>
        if isNothing item then pure [] else read (·.toText item)
      return .text (Text.join text texts)) : Eval Value) w =
      .ok (.text (Text.join text parts)) w := by
    show EStateM.bind _ _ w = _
    rw [EStateM.bind, mapM_texts]
    rfl
  cases v with
  | undefined => exact hrest _
  | _ =>
    show (read (·.toText _) >>= _) w = _
    rw [read_bind_apply, hsep]
    exact hrest sep

/-- A text is split into an array. -/
theorem invoke_split {t : Text} {args : List Value} (hargs : args.length ≤ 2) {w : World}
    {parts : List Text}
    (hparts : (lookedUp w .textSplit (.text t)).store.split t (args.headD .undefined)
      (args.getD 1 .undefined) = .ok parts) :
    ∃ array more, invoke (.text t) "split" args w = .ok array (w.grown more) ∧
      (w.grown more).store.items? array = some (parts.map .text) := by
  have hname : methodNamed? textMethods "split" = some .textSplit := rfl
  have hcall := (invoke_text hname t args w).trans (callText_split hargs hparts)
  have hthere := get?_grown (lookedUp w .textSplit (.text t)) (.list (parts.map .text))
  rw [lookedUp, World.grown_grown] at hcall hthere
  refine ⟨_, _, hcall, ?_⟩
  rw [items?, hthere]

/-- An array of texts is joined. -/
theorem invoke_join {array : Value} {parts : List Text} {w : World}
    (harray : w.store.items? array = some (parts.map .text)) {v : Value} {sep : Text}
    (hsep : (lookedUp w .arrayJoin array).store.toText v = .ok sep) :
    invoke array "join" [v] w =
      .ok (.text (Text.join (Text.joint sep v) parts)) (lookedUp w .arrayJoin array) := by
  cases array with
  | ref r =>
    have hgrown : (lookedUp w .arrayJoin (.ref r)).store.items? (.ref r) =
        some (parts.map .text) := items?_append _ harray
    have hobject : w.store.sequence? (.ref r) = some (parts.map .text, arrayMethods) := by
      show (w.store.items? (.ref r)).map (·, arrayMethods) = _
      rw [harray]
      rfl
    refine (invoke_method hobject (m := .arrayJoin) rfl [v]).trans ?_
    show joined (((lookedUp w .arrayJoin (.ref r)).store.items? (.ref r)).getD []) v _ = _
    rw [hgrown, Option.getD_some, joined_texts parts hsep]
  | _ => cases harray

/-- A text is split and joined again. -/
theorem split_join {w : World} {v : Value} {sep : Text} (hsep : w.store.toText v = .ok sep)
    (hv : w.store.Grounded v) (t : Text) :
    ∃ array parts more u, invoke (.text t) "split" [v] w = .ok array (w.grown more) ∧
      (w.grown more).store.items? array = some (parts.map .text) ∧
      invoke array "join" [v] (w.grown more) = .ok (.text t) u ∧
      (v ≠ .undefined → sep ≠ [] → (∀ part ∈ parts, ¬ sep <:+: part) ∧
        ∃ ks, t.Occurrences sep 0 ks ∧ (∀ ks', t.Occurrences sep 0 ks' → ks' = ks) ∧
          parts.length = ks.length + 1) ∧
      ∀ {limit : Value} {kept : List Text}, w.store.Grounded limit →
        (limit = .undefined ∧ kept = parts ∨ limit ≠ .undefined ∧
          ∃ k, w.store.toUInt32 limit = .ok k ∧ kept = parts.take k.toNat) →
        ∃ array more, invoke (.text t) "split" [v, limit] w = .ok array (w.grown more) ∧
          (w.grown more).store.items? array = some (kept.map .text) := by
  -- Each look-up of a function adds an object, and the separator is read after it.
  have htext (more : Store) : (w.store ++ more).toText v = .ok sep :=
    (toText_append more hv).trans hsep
  obtain ⟨array, more, hsplit, harray⟩ :=
    invoke_split (show [v].length ≤ 2 from Nat.le_succ 1) (split_text (htext _) t .undefined)
  have hjoined : (lookedUp (w.grown more) .arrayJoin array).store.toText v = .ok sep := by
    rw [lookedUp, World.grown_grown]
    exact htext _
  have hjoin := invoke_join harray hjoined
  rw [Text.join_parts] at hjoin
  refine ⟨array, t.parts sep v, more, _, hsplit, harray, hjoin, fun hundefined hempty => ?_, ?_⟩
  · rw [Text.parts_of_ne_nil hundefined hempty t]
    obtain ⟨ks, hks⟩ := Text.exists_occurrences hempty t (Nat.zero_le _)
    exact ⟨Text.not_infix_of_mem_splitOn hempty t, ks, hks, fun ks' hks' => hks'.unique hks,
      Text.length_splitOn hempty hks (Nat.zero_le _)⟩
  · rintro limit kept hlimit (⟨rfl, rfl⟩ | ⟨hundefined, k, hk, rfl⟩)
    · exact invoke_split (show [v, Value.undefined].length ≤ 2 from le_rfl)
        (split_text (htext _) t .undefined)
    · refine invoke_split (show [v, limit].length ≤ 2 from le_rfl)
        (split_limit (htext _) t hundefined ?_)
      exact (toUInt32_append _ hlimit).trans hk

/-- A separator that overlaps itself is found twice in five code points. -/
theorem split_join_overlapping : ∃ array, ∃ parts : List Text, ∃ more u,
    invoke (.text "aaaaa") "split" [.text "aa"] {} = .ok array (World.grown {} more) ∧
      (World.grown {} more).store.items? array = some (parts.map .text) ∧
      invoke array "join" [.text "aa"] (World.grown {} more) = .ok (.text "aaaaa") u ∧
      parts.length = 3 := by
  have hv : Store.Grounded #[] (.text "aa") := by
    rintro r (_ | ⟨hitems⟩)
    cases hitems
  obtain ⟨array, parts, more, u, hsplit, harray, hjoin, hparts, -⟩ :=
    split_join (w := {}) (v := .text "aa") rfl hv "aaaaa"
  obtain ⟨-, ks, -, hunique, hlength⟩ := hparts nofun (by decide)
  have htwice : Text.Occurrences "aaaaa" "aa" 0 [0, 2] :=
    .next ((Text.find?_drop_eq_some_iff (i := 0) (k := 0) (Nat.zero_le _)).1 rfl)
      (.next ((Text.find?_drop_eq_some_iff (i := 2) (k := 0) (by decide)).1 rfl)
        (.none ((Text.find?_drop_eq_none_iff (by decide)).1 rfl)))
  rw [← hunique _ htwice] at hlength
  exact ⟨array, parts, more, u, hsplit, harray, hjoin, hlength⟩

end Eval

end GuardedText
