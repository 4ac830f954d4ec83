import GuardedText.Eval.Call
import GuardedText.Proofs.Private.Builtin

/-
  Names in worlds that agree. A name has the same owner on both sides, because frames stand in older
  frames and more fuel than there are frames changes nothing (`Store.owner?_fuel`).
-/

namespace GuardedText

variable {p : Pairing}

namespace Store

/-! ## Enough fuel -/

section

variable {s : Store} (hs : s.Rooted)
include hs

/-- A frame stands in an older one. -/
theorem Rooted.parent_lt {r parent : Ref} {locals globals : Ref}
    (h : s.frame? r = some (locals, some parent, globals)) : parent < r := by
  unfold frame? at h
  split at h
  · rename_i ho
    obtain ⟨rfl, rfl, rfl⟩ : _ ∧ _ ∧ _ := by simpa using h
    exact hs r _ ho
  · cases h

theorem owner?_fuel (name : Text) {n m : Nat} {r : Ref} (hn : r < n) (hm : r < m) :
    s.owner? name n r = s.owner? name m r := by
  induction n generalizing m r with
  | zero => exact absurd hn (Nat.not_lt_zero r)
  | succ n ih =>
    obtain ⟨m, rfl⟩ := Nat.exists_eq_succ_of_ne_zero (Nat.ne_zero_of_lt hm)
    rw [owner?, owner?]
    cases hframe : s.frame? r with
    | none => rfl
    | some frame =>
      obtain ⟨locals, parent, globals⟩ := frame
      cases parent with
      | none => rfl
      | some parent =>
        have hlt := hs.parent_lt hframe
        simp only [Option.bind_some, ih (Nat.lt_of_lt_of_le hlt (Nat.le_of_lt_succ hn))
          (Nat.lt_of_lt_of_le hlt (Nat.le_of_lt_succ hm))]

theorem outermost_fuel {n m : Nat} {r : Ref} (hn : r < n) (hm : r < m) :
    s.outermost n r = s.outermost m r := by
  induction n generalizing m r with
  | zero => exact absurd hn (Nat.not_lt_zero r)
  | succ n ih =>
    obtain ⟨m, rfl⟩ := Nat.exists_eq_succ_of_ne_zero (Nat.ne_zero_of_lt hm)
    rw [outermost, outermost]
    cases hframe : s.frame? r with
    | none => rfl
    | some frame =>
      obtain ⟨locals, parent, globals⟩ := frame
      cases parent with
      | none => rfl
      | some parent =>
        have hlt := hs.parent_lt hframe
        exact ih (Nat.lt_of_lt_of_le hlt (Nat.le_of_lt_succ hn))
          (Nat.lt_of_lt_of_le hlt (Nat.le_of_lt_succ hm))

end

/-! ## Names -/

/-- Frames whose variables, parents and built-ins are paired. -/
def FrameAgree (p : Pairing) (a b : Ref × Option Ref × Ref) : Prop :=
  p.pairs a.1 b.1 ∧ Option.Rel p.pairs a.2.1 b.2.1 ∧ p.pairs a.2.2 b.2.2

namespace Agree

variable {s s' : Store} (hs : Store.Agree p s s') {r r' : Ref} (hr : p.pairs r r')
include hs hr

theorem lt_iff : r < s.size ↔ r' < s'.size := by
  obtain ⟨ho, ho'⟩ | ⟨o, o', ho, ho', -⟩ := hs.object_cases hr
  · exact iff_of_false (Nat.not_lt.2 (Array.getElem?_eq_none_iff.1 ho))
      (Nat.not_lt.2 (Array.getElem?_eq_none_iff.1 ho'))
  · exact iff_of_true (Array.getElem?_eq_some_iff.1 ho).1 (Array.getElem?_eq_some_iff.1 ho').1

theorem frame? : Option.Rel (FrameAgree p) (s.frame? r) (s'.frame? r') := by
  unfold Store.frame?
  obtain ⟨ho, ho'⟩ | ⟨o, o', ho, ho', h⟩ := hs.object_cases hr <;> rw [ho, ho']
  · exact .none
  · cases h with
    | frame hlocals hparent hglobals => exact .some ⟨hlocals, hparent, hglobals⟩
    | _ => exact .none

theorem binding? (name : Text) :
    Option.Rel (Value.Agree p) (s.binding? r name) (s'.binding? r' name) :=
  (hs.entries? (.ref hr)).bind fun _ _ h => h.lookup? _

theorem global? (name : Text) :
    Option.Rel (Value.Agree p) (s.global? r name) (s'.global? r' name) :=
  (hs.frame? hr).bind fun _ _ h => hs.binding? h.2.2 name

theorem owner?_same (name : Text) (n : Nat) :
    Option.Rel p.pairs (s.owner? name n r) (s'.owner? name n r') := by
  induction n generalizing r r' with
  | zero => exact .none
  | succ n ih =>
    have hframe := hs.frame? hr
    rw [owner?, owner?]
    generalize s.frame? r = frame, s'.frame? r' = frame' at hframe ⊢
    cases hframe with
    | none => exact .none
    | @some a b h =>
      obtain ⟨hlocals, hparent, -⟩ := h
      dsimp only
      rw [(hs.binding? hlocals name).isSome_eq]
      split
      · exact .some hr
      · exact hparent.bind fun _ _ h => ih h

theorem outermost_same (n : Nat) : p.pairs (s.outermost n r) (s'.outermost n r') := by
  induction n generalizing r r' with
  | zero => exact hr
  | succ n ih =>
    have hframe := hs.frame? hr
    rw [outermost, outermost]
    generalize s.frame? r = frame, s'.frame? r' = frame' at hframe ⊢
    cases hframe with
    | none => exact hr
    | @some a b h =>
      obtain ⟨locals, parent, globals⟩ := a
      obtain ⟨locals', parent', globals'⟩ := b
      obtain ⟨-, hparent, -⟩ := h
      cases hparent with
      | none => exact hr
      | some h => exact ih h

variable (hlt : r < s.size)
include hlt

theorem owner? (name : Text) :
    Option.Rel p.pairs (s.owner? name s.size r) (s'.owner? name s'.size r') := by
  have hlt' := (hs.lt_iff hr).1 hlt
  rw [owner?_fuel hs.rooted name hlt (Nat.lt_of_lt_of_le hlt (Nat.le_max_left _ s'.size)),
    owner?_fuel hs.rooted' name hlt' (Nat.lt_of_lt_of_le hlt' (Nat.le_max_right s.size _))]
  exact hs.owner?_same hr name _

theorem outermost : p.pairs (s.outermost s.size r) (s'.outermost s'.size r') := by
  have hlt' := (hs.lt_iff hr).1 hlt
  rw [outermost_fuel hs.rooted hlt (Nat.lt_of_lt_of_le hlt (Nat.le_max_left _ s'.size)),
    outermost_fuel hs.rooted' hlt' (Nat.lt_of_lt_of_le hlt' (Nat.le_max_right s.size _))]
  exact hs.outermost_same hr _

theorem resolve? (name : Text) :
    Option.Rel (Value.Agree p) (s.resolve? r name) (s'.resolve? r' name) := by
  have howner := hs.owner? hr hlt name
  unfold Store.resolve?
  generalize s.owner? name s.size r = o, s'.owner? name s'.size r' = o' at howner ⊢
  cases howner with
  | none => exact hs.global? hr name
  | some h => exact (hs.frame? h).bind fun _ _ h => hs.binding? h.1 name

end Agree

end Store

namespace Eval

open Store

/-- Frames of two worlds that are paired and exist. -/
structure Frames (p : Pairing) (w : World) (frame frame' : Ref) : Prop where
  /-- The frames are paired. -/
  pairs : p.pairs frame frame'
  /-- The frame exists. -/
  old : frame < w.store.size

variable {w w' v : World} {frame frame' : Ref}

theorem Frames.later (h : Frames p w frame frame') (hl : w.Leads v) : Frames p v frame frame' :=
  ⟨h.pairs, Nat.lt_of_lt_of_le h.old hl.size⟩

section

variable (hw : World.Agree p w w') (hframe : Frames p w frame frame')
include hw

theorem agree_updateVariables {r r' : Ref} (hr : p.pairs r r') {f g : Entries → Entries}
    (hfg : ∀ entries entries', Table.Agree p entries entries' →
      Table.Agree p (f entries) (g entries')) :
    Eval.Agree p Eq w w' (updateVariables r f) (updateVariables r' g) := by
  unfold updateVariables
  refine .get_bind ?_
  have h := hw.store.frame? hr
  dsimp only
  generalize w.store.frame? r = a, w'.store.frame? r' = b at h ⊢
  cases h with
  | none => exact .pure hw rfl
  | @some a b h =>
    obtain ⟨locals, parent, globals⟩ := a
    obtain ⟨locals', parent', globals'⟩ := b
    have hlocals : p.pairs locals locals' := h.1
    dsimp only
    obtain ⟨ho, ho'⟩ | ⟨o, o', ho, ho', h⟩ := hw.store.object_cases hlocals <;> rw [ho, ho']
    · exact .pure hw rfl
    · cases h with
      | dict h =>
        exact .replace hw hlocals ho ho' (.dict (hfg _ _ h))
          (Obj.keeps_of_plain rfl rfl fun _ => trivial)
          (Obj.keeps_of_plain rfl rfl fun _ => trivial)
      | _ => exact .pure hw rfl

include hframe

theorem agree_lookupName (name : Text) :
    Eval.Agree p (Value.Agree p) w w' (lookupName frame name) (lookupName frame' name) := by
  unfold lookupName
  refine .get_bind ?_
  have h := hw.store.resolve? hframe.pairs hframe.old name
  generalize w.store.resolve? frame name = a, w'.store.resolve? frame' name = b at h ⊢
  cases h with
  | none => exact .throw hw _
  | some h => exact .pure hw h

theorem agree_assignName (name : Text) {v v' : Value} (hv : Value.Agree p v v') :
    Eval.Agree p Eq w w' (assignName frame name v) (assignName frame' name v') :=
  .get_bind (agree_updateVariables hw
    ((hw.store.owner? hframe.pairs hframe.old name).getD
      (hw.store.outermost hframe.pairs hframe.old))
    fun _ _ h => h.insert _ hv)

theorem agree_deleteName (name : Text) :
    Eval.Agree p Eq w w' (deleteName frame name) (deleteName frame' name) := by
  unfold deleteName
  refine .get_bind ?_
  have howner := hw.store.owner? hframe.pairs hframe.old name
  dsimp only
  generalize w.store.owner? name _ frame = r, w'.store.owner? name _ frame' = r' at howner ⊢
  cases howner with
  | none => exact .pure hw rfl
  | @some r r' hr =>
    have hgone : Eval.Agree p Eq w w'
        (do updateVariables r (Table.erase (.name name)); return true)
        (do updateVariables r' (Table.erase (.name name)); return true) :=
      (agree_updateVariables hw hr fun _ _ h => h.erase _).bind_eq fun _ _ _ hv _ _ =>
        .pure hv rfl
    have h := hw.store.frame? hr
    dsimp only
    generalize w.store.frame? r = a, w'.store.frame? r' = b at h ⊢
    cases h with
    | none => exact hgone
    | @some a b h =>
      obtain ⟨locals, parent, globals⟩ := a
      obtain ⟨locals', parent', globals'⟩ := b
      obtain ⟨-, hparent, -⟩ := h
      cases hparent with
      | none => exact hgone
      | some => exact .pure hw rfl

end

/-! ## Frames -/

section

variable {α β : Type} {R : α → β → Prop} (hw : World.Agree p w w')
include hw

/-- A new frame on both sides. -/
theorem agree_openFrame_bind {locals locals' globals globals' : Ref} {parent parent' : Option Ref}
    (hlocals : p.pairs locals locals') (hparent : Option.Rel p.pairs parent parent')
    (hglobals : p.pairs globals globals')
    (hold : ∀ r ∈ parent, r < w.store.size) {k : Ref → Eval α} {l : Ref → Eval β}
    (hkl : ∀ v v' frame frame', World.Agree p v v' → Frames p v frame frame' →
      Eval.Agree p R v v' (k frame) (l frame')) :
    Eval.Agree p R w w' (openFrame locals parent globals >>= k)
      (openFrame locals' parent' globals' >>= l) := by
  have hrooted : (Obj.frame locals parent globals).Rooted w.store.size := by
    cases parent with
    | none => trivial
    | some r => exact hold r rfl
  have hrooted' : (Obj.frame locals' parent' globals').Rooted w'.store.size := by
    cases hparent with
    | none => trivial
    | some hr => exact (hw.store.lt_iff hr).1 (hold _ rfl)
  exact .trans (.push w rfl) (.push w' rfl) (hkl _ _ w.store.size w'.store.size
    (hw.push (.frame hlocals hparent hglobals) hrooted hrooted') ⟨hw.store.fresh 0, by simp⟩)

theorem agree_builtin (b : Builtin) :
    Eval.Agree p (Value.Agree p) w w' (builtin b) (builtin b) := by
  unfold builtin
  cases hplace : Builtin.lasting.idxOf? b with
  | none => exact .allocate hw (.builtin b .nil) rfl rfl trivial trivial
  | some r =>
    exact .pure hw (.ref (p.lasting r (List.findIdx?_eq_some_iff_findIdx_eq.1 hplace).1))

theorem agree_builtins (table : List (String × Builtin)) :
    Eval.Agree p (Table.Agree p) w w' (builtins table) (builtins table) := by
  unfold builtins
  refine .mapM hw (List.forall₂_refl table : List.Forall₂ Eq _ _) ?_
  rintro ⟨name, b⟩ _ v v' rfl hv
  exact (agree_builtin hv b).bind fun _ _ _ _ h hu _ _ => .pure hu ⟨rfl, h⟩

theorem agree_builtinObject (table : List (String × Builtin)) :
    Eval.Agree p (Value.Agree p) w w' (builtinObject table) (builtinObject table) :=
  (agree_builtins hw table).bind fun _ _ _ _ h hv _ _ => .newDict hv h

theorem agree_newGlobals : Eval.Agree p p.pairs w w' newGlobals newGlobals := by
  have hnamed (name : String) {v v' : Value} (h : Value.Agree p v v') :
      Entry.Agree p (Key.name name, v) (Key.name name, v') := ⟨rfl, h⟩
  unfold newGlobals
  refine (agree_builtins hw _).bind fun math math' w w' hmath hw _ _ => ?_
  refine (Agree.newDict hw (.cons (hnamed _ (.num _)) (.cons (hnamed _ (.num _)) hmath))).bind
    fun math math' w w' hmath hw _ _ => ?_
  refine (agree_builtinObject hw _).bind fun json json' w w' hjson hw _ _ => ?_
  refine (agree_builtinObject hw _).bind fun array array' w w' harray hw _ _ => ?_
  refine (agree_builtinObject hw _).bind fun object object' w w' hobject hw _ _ => ?_
  refine (agree_builtinObject hw _).bind fun date date' w w' hdate hw _ _ => ?_
  refine (agree_builtins hw _).bind fun functions functions' w w' hfunctions hw _ _ => ?_
  have htable :=
    List.Forall₂.append (.cons (hnamed "undefined" .undefined) (.cons (hnamed "NaN" (.num .nan))
      (.cons (hnamed "Infinity" (.num .infinity)) (.cons (hnamed "Math" hmath)
        (.cons (hnamed "JSON" hjson) (.cons (hnamed "Array" harray)
          (.cons (hnamed "Object" hobject) (.cons (hnamed "Date" hdate) .nil)))))))) hfunctions
  exact .ok (hw.store.fresh 0) (hw.push (.dict htable) trivial trivial) (.push w rfl)
    (.push w' rfl)

theorem agree_openRoot_bind {context context' : Ref} (hcontext : p.pairs context context')
    {k : Ref → Eval α} {l : Ref → Eval β}
    (hkl : ∀ v v' frame frame', World.Agree p v v' → Frames p v frame frame' →
      Eval.Agree p R v v' (k frame) (l frame')) :
    Eval.Agree p R w w' (openRoot context >>= k) (openRoot context' >>= l) := by
  unfold openRoot
  rw [bind_assoc, bind_assoc]
  exact (agree_newGlobals hw).bind fun _ _ _ _ hglobals hv _ _ =>
    agree_openFrame_bind hv hcontext .none hglobals nofun hkl

end

end Eval

end GuardedText
