import GuardedText.Proofs.Private.Scope

/-
  Evaluation in worlds that agree. Every form of expression ends alike in frames that agree, by
  induction on the expression (`agree_evaluate`), whatever caller it is given, as long as the caller
  tells the two worlds apart no more than they do (`Calls`). Calls are such a caller, by induction
  on how deep they nest (`calls_callValue`): a guard's function is evaluated in a frame inside the
  frame it was written in, which is older than the function and paired with its partner's.
-/

namespace GuardedText

namespace Eval

open Store

variable {p : Pairing} {w w' : World}

/-! ## Parts of expressions -/

theorem agree_wait (waiting : Waiting) {v v' : Value} (hw : World.Agree p w w')
    (hv : Value.Agree p v v') :
    Eval.Agree p (Value.Agree p) w w' (wait waiting v) (wait waiting v') := by
  cases hv with
  | @ref r r' hr =>
    refine .get_bind ?_
    obtain ⟨ho, ho'⟩ | ⟨o, o', ho, ho', h⟩ := hw.store.object_cases hr <;> rw [ho, ho']
    · exact .pure hw (.ref hr)
    · cases h with
      | pending h =>
        have hspent := Agree.replace hw hr ho ho' (.pending .spent)
          (Obj.keeps_of_plain rfl rfl fun _ => trivial)
          (Obj.keeps_of_plain rfl rfl fun _ => trivial)
        cases h with
        | ready h => exact hspent.bind_eq fun _ _ _ hv _ _ => .pure hv h
        | later h =>
          refine hspent.bind_eq fun _ v v' hv _ _ => ?_
          split
          · exact .throw hv _
          · exact .pure hv h
        | failing => exact hspent.bind_eq fun _ _ _ hv _ _ => .throw hv _
        | spent => exact .throw hw _
      | _ => exact .pure hw (.ref hr)
  | undefined => exact .pure hw .undefined
  | null => exact .pure hw .null
  | bool b => exact .pure hw (.bool b)
  | num n => exact .pure hw (.num n)
  | text t => exact .pure hw (.text t)
  | type t ht => exact .pure hw (.type t ht)

theorem settles_eq (op : LogicalOp) {v v' : Value} (hv : Value.Agree p v v') :
    settles op v = settles op v' := by
  cases op with
  | and => rw [settles, settles, hv.truthy_eq]
  | or => exact hv.truthy_eq
  | coalesce => rw [settles, settles, hv.isNothing_eq]

/-- An assignment whose parts agree. -/
theorem agree_assignWith (op : AssignOp) {current current' value value' : Eval Value}
    {put put' : Value → Eval Unit} (hw : World.Agree p w w')
    (hcurrent : Eval.Agree p (Value.Agree p) w w' current current')
    (hvalue : ∀ v v', World.Agree p v v' → w.Leads v → w'.Leads v' →
      Eval.Agree p (Value.Agree p) v v' value value')
    (hput : ∀ u u' v v', Value.Agree p u u' → World.Agree p v v' → w.Leads v → w'.Leads v' →
      Eval.Agree p Eq v v' (put u) (put' u')) :
    Eval.Agree p (Value.Agree p) w w' (assignWith op current value put)
      (assignWith op current' value' put') := by
  cases op with
  | set =>
    exact (hvalue w w' hw (.refl w) (.refl w')).bind fun u u' v v' hu hv hl hl' =>
      (hput u u' v v' hu hv hl hl').bind_eq fun _ _ _ hx _ _ => .pure hx hu
  | update op =>
    refine hcurrent.bind fun old old' v v' hold hv hl hl' => ?_
    refine (hvalue v v' hv hl hl').bind fun u u' x x' hu hx hm hm' => ?_
    refine .read_bind hx (binary_agree hx.store hold hu op) fun result result' hresult => ?_
    exact (hput _ _ x x' hresult hx (hl.trans hm) (hl'.trans hm')).bind_eq
      fun _ _ _ hy _ _ => .pure hy hresult
  | choose op =>
    refine hcurrent.bind fun old old' v v' hold hv hl hl' => ?_
    refine .lift_bind_eq hv hold.truthy_eq fun _ => ?_
    refine .lift_bind_eq hv (settles_eq op hold) fun kept => ?_
    cases kept with
    | true => exact .pure hv hold
    | false =>
      refine (hvalue v v' hv hl hl').bind fun u u' x x' hu hx hm hm' => ?_
      exact (hput _ _ x x' hu hx (hl.trans hm) (hl'.trans hm')).bind_eq
        fun _ _ _ hy _ _ => .pure hy hu

theorem agree_spreadItems {v v' : Value} (hw : World.Agree p w w') (hv : Value.Agree p v v') :
    Eval.Agree p (Values.Agree p) w w' (spreadItems v) (spreadItems v') := by
  have hitems := hw.store.items? hv
  have htext := hw.store.toText_eq hv
  unfold spreadItems
  refine .get_bind ?_
  cases hv with
  | text t => exact .pure hw (characters_agree t)
  | @ref r r' hr =>
    generalize w.store.items? (.ref r) = items, w'.store.items? (.ref r') = items' at hitems ⊢
    cases hitems with
    | some h => exact .pure hw h
    | none => exact .read_bind_eq hw htext fun _ => .throw hw _
  | _ => exact .read_bind_eq hw htext fun _ => .throw hw _

theorem agree_spreadEntries {v v' : Value} (hw : World.Agree p w w') (hv : Value.Agree p v v') :
    Eval.Agree p (Table.Agree p) w w' (spreadEntries v) (spreadEntries v') := by
  have hitems := hw.store.items? hv
  have hentries := hw.store.entries? hv
  unfold spreadEntries
  refine .get_bind ?_
  dsimp only
  cases hv with
  | text t => exact .pure hw (indexed_agree (characters_agree t))
  | @ref r r' hr =>
    generalize w.store.items? (.ref r) = items, w'.store.items? (.ref r') = items' at hitems ⊢
    generalize w.store.entries? (.ref r) = entries, w'.store.entries? (.ref r') = entries'
      at hentries ⊢
    cases hitems with
    | some h => exact .pure hw (indexed_agree h)
    | none =>
      cases hentries with
      | some h => exact .lift hw (namedEntries_agree h)
      | none => exact .pure hw .nil
  | _ => exact .pure hw .nil

theorem agree_demand (optional : Bool) {v v' : Value} (hw : World.Agree p w w')
    (hv : Value.Agree p v v') :
    Eval.Agree p Eq w w' (demand optional v) (demand optional v') := by
  unfold demand
  rw [hv.isNothing_eq]
  split
  · exact .throw hw _
  · exact .pure hw rfl

theorem agree_literal (l : Literal) : Value.Agree p l.toValue l.toValue := by
  cases l <;> constructor

/-! ## Expressions -/

theorem agree_exposeInner (body : Expr) (hw : World.Agree p w w') :
    Eval.Agree p (Option.Rel (Value.Agree p)) w w' (exposeInner body) (exposeInner body) := by
  cases body with
  | chain e closed =>
    exact (Agree.allocate hw (.expression e .none) rfl rfl trivial trivial).bind
      fun _ _ _ _ hinner hv _ _ => .pure hv (.some hinner)
  | _ => exact .pure hw .none

/-- Functions get the same syntax on both sides. -/
theorem agree_exposeBody (body : Expr) (hw : World.Agree p w w') {frame frame' : Ref}
    (hf : Frames p w frame frame') :
    Eval.Agree p (Table.Agree p) w w' (exposeBody frame body) (exposeBody frame' body) := by
  unfold exposeBody
  refine .get_bind ?_
  have hframe := hw.store.frame? hf.pairs
  generalize w.store.frame? frame = o, w'.store.frame? frame' = o' at hframe ⊢
  cases hframe with
  | none => exact .pure hw .nil
  | @some a b h =>
    obtain ⟨locals, parent, globals⟩ := a
    obtain ⟨locals', parent', globals'⟩ := b
    obtain ⟨-, hparent, -⟩ := h
    cases hparent with
    | some => exact .pure hw .nil
    | none =>
      refine (agree_exposeInner body hw).bind fun _ _ _ _ hinner hv _ _ => ?_
      refine (Agree.allocate hv (.expression body hinner) rfl rfl trivial trivial).bind
        fun _ _ _ _ hwritten hu _ _ => ?_
      exact (Agree.allocate hu (.node hwritten .none) rfl rfl trivial trivial).bind
        fun _ _ _ _ hnode hx _ _ => .pure hx (.cons ⟨rfl, hnode⟩ .nil)

mutual

/-- An expression has the same value in frames that agree, and does the same. -/
theorem agree_evaluate {call call' : Caller} (hcall : Calls p call call') (waiting : Waiting) :
    ∀ (e : Expr) {w w' : World} {frame frame' : Ref}, World.Agree p w w' →
      Frames p w frame frame' →
      Eval.Agree p (Value.Agree p) w w' (evaluate call waiting frame e)
        (evaluate call' waiting frame' e)
  | .literal v, _, _, _, _, hw, _ => by
    unfold evaluate
    exact .pure hw (agree_literal v)
  | .name n, _, _, _, _, hw, hf => by
    unfold evaluate
    exact agree_lookupName hw hf n
  | .array items, _, _, _, _, hw, hf => by
    unfold evaluate
    exact (agree_evaluateItems hcall waiting items hw hf).bind fun _ _ _ _ h hv _ _ =>
      .newList hv h
  | .object entries, _, _, _, _, hw, hf => by
    unfold evaluate
    exact (agree_evaluateEntries hcall waiting entries .nil hw hf).bind fun _ _ _ _ h hv _ _ =>
      .newDict hv h
  | .unary op e, w, w', frame, frame', hw, hf => by
    have hvalue : Eval.Agree p (Value.Agree p) w w'
        (do
          let v ← evaluate call waiting frame e
          read (·.unary op v))
        (do
          let v ← evaluate call' waiting frame' e
          read (·.unary op v)) :=
      (agree_evaluate hcall waiting e hw hf).bind fun _ _ _ _ h hv _ _ =>
        .read hv (unary_agree hv.store h op)
    unfold evaluate
    cases op with
    | typeof =>
      cases e with
      | name n =>
        refine .get_bind ?_
        dsimp only
        rw [(hw.store.resolve? hf.pairs hf.old n).isNone_eq]
        split
        · exact .pure hw (.text _)
        · exact hvalue
      | _ => exact hvalue
    | _ => exact hvalue
  | .delete (.name n), _, _, _, _, hw, hf => by
    unfold evaluate
    exact (agree_deleteName hw hf n).bind_eq fun _ _ _ hv _ _ => .pure hv (.bool _)
  | .delete (.member o n), _, _, _, _, hw, hf => by
    unfold evaluate
    exact (agree_evaluate hcall waiting o hw hf).bind fun _ _ _ _ ho hv _ _ =>
      (agree_deleteProperty hv ho (.text n)).bind_eq fun _ _ _ hu _ _ => .pure hu (.bool _)
  | .delete (.index o k), _, _, _, _, hw, hf => by
    unfold evaluate
    exact (agree_evaluate hcall waiting o hw hf).bind fun _ _ _ _ ho hv hl _ =>
      (agree_evaluate hcall waiting k hv (hf.later hl)).bind fun _ _ _ _ hk hu _ _ =>
        (agree_deleteProperty hu ho hk).bind_eq fun _ _ _ hx _ _ => .pure hx (.bool _)
  | .deleteValue e, _, _, _, _, hw, hf => by
    unfold evaluate
    exact (agree_evaluate hcall waiting e hw hf).bind fun _ _ _ _ _ hv _ _ => .pure hv (.bool _)
  | .await e, _, _, _, _, hw, hf => by
    unfold evaluate
    exact (agree_evaluate hcall waiting e hw hf).bind fun _ _ _ _ h hv _ _ =>
      agree_wait waiting hv h
  | .binary op l r, _, _, _, _, hw, hf => by
    unfold evaluate
    exact (agree_evaluate hcall waiting l hw hf).bind fun _ _ _ _ hl hv hm _ =>
      (agree_evaluate hcall waiting r hv (hf.later hm)).bind fun _ _ _ _ hr hu _ _ =>
        .read hu (binary_agree hu.store hl hr op)
  | .logical op l r, _, _, _, _, hw, hf => by
    unfold evaluate
    refine (agree_evaluate hcall waiting l hw hf).bind fun _ _ _ _ hl hv hm _ => ?_
    refine .lift_bind_eq hv (settles_eq op hl) fun settled => ?_
    cases settled with
    | true => exact .pure hv hl
    | false => exact agree_evaluate hcall waiting r hv (hf.later hm)
  | .conditional t c a, _, _, _, _, hw, hf => by
    unfold evaluate
    refine (agree_evaluate hcall waiting t hw hf).bind fun _ _ _ _ ht hv hm _ => ?_
    refine .lift_bind_eq hv ht.truthy_eq fun holds => ?_
    cases holds with
    | true => exact agree_evaluate hcall waiting c hv (hf.later hm)
    | false => exact agree_evaluate hcall waiting a hv (hf.later hm)
  | .assign op (.name n) value, _, _, _, _, hw, hf => by
    unfold evaluate
    exact agree_assignWith op hw (agree_lookupName hw hf n)
      (fun _ _ hv hl _ => agree_evaluate hcall waiting value hv (hf.later hl))
      (fun _ _ _ _ hu hv hl _ => agree_assignName hv (hf.later hl) n hu)
  | .assign op (.member o n) value, _, _, _, _, hw, hf => by
    unfold evaluate
    exact (agree_evaluate hcall waiting o hw hf).bind fun _ _ _ _ ho hv hl _ =>
      agree_assignWith op hv (agree_getProperty hv ho (.text n))
        (fun _ _ hu hm _ => agree_evaluate hcall waiting value hu ((hf.later hl).later hm))
        (fun _ _ _ _ hx hu _ _ => agree_setProperty hu ho (.text n) hx)
  | .assign op (.index o k) value, _, _, _, _, hw, hf => by
    unfold evaluate
    exact (agree_evaluate hcall waiting o hw hf).bind fun _ _ _ _ ho hv hl _ =>
      (agree_evaluate hcall waiting k hv (hf.later hl)).bind fun _ _ _ _ hk hu hm _ =>
        agree_assignWith op hu (agree_getProperty hu ho hk)
          (fun _ _ hx hn _ =>
            agree_evaluate hcall waiting value hx (((hf.later hl).later hm).later hn))
          (fun _ _ _ _ hy hx _ _ => agree_setProperty hx ho hk hy)
  | .sequence parts, _, _, _, _, hw, hf => by
    unfold evaluate
    exact agree_evaluateSequence hcall waiting parts .undefined hw hf
  | .member o n optional, _, _, _, _, hw, hf => by
    unfold evaluate
    exact (agree_evaluate hcall waiting o hw hf).bind fun _ _ _ _ ho hv _ _ =>
      (agree_demand optional hv ho).bind_eq fun _ _ _ hu _ _ => agree_getProperty hu ho (.text n)
  | .index o k optional, _, _, _, _, hw, hf => by
    unfold evaluate
    exact (agree_evaluate hcall waiting o hw hf).bind fun _ _ _ _ ho hv hl _ =>
      (agree_demand optional hv ho).bind_eq fun _ _ _ hu hm _ =>
        (agree_evaluate hcall waiting k hu ((hf.later hl).later hm)).bind fun _ _ _ _ hk hx _ _ =>
          agree_getProperty hx ho hk
  | .call callee arguments optional, _, _, _, _, hw, hf => by
    unfold evaluate
    refine (agree_evaluate hcall waiting callee hw hf).bind fun _ _ _ _ hcallee hv hl _ => ?_
    refine (agree_demand optional hv hcallee).bind_eq fun _ _ _ hu hm _ => ?_
    refine (agree_evaluateItems hcall waiting arguments hu ((hf.later hl).later hm)).bind
      fun _ _ _ _ hargs hx _ _ => .get_bind ?_
    rw [hx.store.callable_eq hcallee]
    dsimp only
    split
    · exact .refuse_bind hx _
    · exact hcall _ _ _ _ _ _ hcallee hargs hx
  | .arrow params body, w, w', frame, frame', hw, hf => by
    unfold evaluate
    refine (agree_exposeBody body hw hf).bind fun _ _ v v' hshown hv hl _ => ?_
    have hlater := hf.later hl
    exact .allocate hv (.arrow params body hf.pairs
      (hshown.append (.cons ⟨rfl, .ref hf.pairs⟩ .nil))) rfl rfl hlater.old
      ((hv.store.lt_iff hf.pairs).1 hlater.old)
  | .chain body _, _, _, _, _, hw, hf => by
    unfold evaluate
    refine (agree_evaluate hcall waiting body hw hf).tryCatch fun e v v' hv => ?_
    split
    · exact .pure hv .undefined
    · exact .throw hv _

/-- The values of elements or arguments agree. -/
theorem agree_evaluateItems {call call' : Caller} (hcall : Calls p call call')
    (waiting : Waiting) :
    ∀ (items : List Item) {w w' : World} {frame frame' : Ref}, World.Agree p w w' →
      Frames p w frame frame' →
      Eval.Agree p (Values.Agree p) w w' (evaluateItems call waiting frame items)
        (evaluateItems call' waiting frame' items)
  | [], _, _, _, _, hw, _ => by
    unfold evaluateItems
    exact .pure hw .nil
  | .single e :: items, _, _, _, _, hw, hf => by
    unfold evaluateItems
    exact (agree_evaluate hcall waiting e hw hf).bind fun _ _ _ _ h hv hl _ =>
      (agree_evaluateItems hcall waiting items hv (hf.later hl)).bind fun _ _ _ _ hs hu _ _ =>
        .pure hu (.cons h hs)
  | .spread e :: items, _, _, _, _, hw, hf => by
    unfold evaluateItems
    exact (agree_evaluate hcall waiting e hw hf).bind fun _ _ _ _ h hv hl _ =>
      (agree_spreadItems hv h).bind fun _ _ _ _ hvs hu hm _ =>
        (agree_evaluateItems hcall waiting items hu ((hf.later hl).later hm)).bind
          fun _ _ _ _ hs hx _ _ => .pure hx (hvs.append hs)

/-- The entries of an object agree. -/
theorem agree_evaluateEntries {call call' : Caller} (hcall : Calls p call call')
    (waiting : Waiting) :
    ∀ (entries : List Entry) {found found' : Entries}, Table.Agree p found found' →
      ∀ {w w' : World} {frame frame' : Ref}, World.Agree p w w' → Frames p w frame frame' →
      Eval.Agree p (Table.Agree p) w w' (evaluateEntries call waiting frame found entries)
        (evaluateEntries call' waiting frame' found' entries)
  | [], _, _, hfound, _, _, _, _, hw, _ => by
    unfold evaluateEntries
    exact .pure hw hfound
  | .named k e :: entries, _, _, hfound, _, _, _, _, hw, hf => by
    unfold evaluateEntries
    exact (agree_evaluate hcall waiting e hw hf).bind fun _ _ _ _ h hv hl _ =>
      agree_evaluateEntries hcall waiting entries (hfound.insert _ h) hv (hf.later hl)
  | .computed k e :: entries, _, _, hfound, _, _, _, _, hw, hf => by
    unfold evaluateEntries
    exact (agree_evaluate hcall waiting k hw hf).bind fun _ _ _ _ hk hv hl _ =>
      (agree_evaluate hcall waiting e hv (hf.later hl)).bind fun _ _ _ _ h hu hm _ =>
        .read_bind_eq hu (hu.store.keyText_eq hk) fun _ =>
          agree_evaluateEntries hcall waiting entries (hfound.insert _ h) hu
            ((hf.later hl).later hm)
  | .spread e :: entries, _, _, hfound, _, _, _, _, hw, hf => by
    unfold evaluateEntries
    refine (agree_evaluate hcall waiting e hw hf).bind fun _ _ _ _ h hv hl _ => ?_
    refine (agree_spreadEntries hv h).bind fun _ _ _ _ hpairs hu hm _ => ?_
    refine agree_evaluateEntries hcall waiting entries (hfound.insertAll (hpairs.map ?_)) hu
      ((hf.later hl).later hm)
    rintro ⟨k, v⟩ ⟨_, v'⟩ ⟨rfl, hv⟩
    exact ⟨rfl, hv⟩

/-- The last values of sequences agree. -/
theorem agree_evaluateSequence {call call' : Caller} (hcall : Calls p call call')
    (waiting : Waiting) :
    ∀ (parts : List Expr) {last last' : Value}, Value.Agree p last last' →
      ∀ {w w' : World} {frame frame' : Ref}, World.Agree p w w' → Frames p w frame frame' →
      Eval.Agree p (Value.Agree p) w w' (evaluateSequence call waiting frame last parts)
        (evaluateSequence call' waiting frame' last' parts)
  | [], _, _, hlast, _, _, _, _, hw, _ => by
    unfold evaluateSequence
    exact .pure hw hlast
  | e :: es, _, _, _, _, _, _, _, hw, hf => by
    unfold evaluateSequence
    exact (agree_evaluate hcall waiting e hw hf).bind fun _ _ _ _ h hv hl _ =>
      agree_evaluateSequence hcall waiting es h hv (hf.later hl)

end

/-! ## Calls -/

theorem agree_bindParams (params : List Text) {args args' : List Value}
    (hargs : Values.Agree p args args') :
    Table.Agree p (bindParams params args) (bindParams params args') := by
  refine Table.Agree.insertAll .nil ?_
  exact (List.forall₂_refl params.zipIdx : List.Forall₂ Eq _ _).map fun _ _ h =>
    h ▸ ⟨rfl, hargs.getD _ .undefined⟩

/-- What is put in the place of a body is the same on both sides. -/
theorem bodyToCall_eq {s s' : Store} (hs : Store.Agree p s s') {attributes attributes' : Attributes}
    (h : Table.Agree p attributes attributes') (written : Expr) :
    s.bodyToCall written attributes = s'.bodyToCall written attributes' := by
  have hnode := (h.lookup? (Text.ofString "node")).bind fun _ _ hv => hs.get? hv
  unfold bodyToCall
  generalize (Table.lookup? _ attributes).bind s.get? = o,
    (Table.lookup? _ attributes').bind s'.get? = o' at hnode ⊢
  cases hnode with
  | none => rfl
  | some h =>
    cases h with
    | node _ hput =>
      cases hput with
      | none => rfl
      | @some put put' hput =>
        have hobject := hs.get? hput
        dsimp only
        generalize s.get? put = o, s'.get? put' = o' at hobject ⊢
        cases hobject with
        | none => rfl
        | some h => cases h <;> rfl
    | _ => rfl

theorem agree_callFunction {call call' : Caller} (hcall : Calls p call call') (params : List Text)
    (written : Expr) {attributes attributes' : Attributes}
    (hattributes : Table.Agree p attributes attributes') {args args' : List Value}
    (hargs : Values.Agree p args args') (hw : World.Agree p w w') {frame frame' : Ref}
    (hframe : p.pairs frame frame') (hold : frame < w.store.size) :
    Eval.Agree p (Value.Agree p) w w' (callFunction call params written frame attributes args)
      (callFunction call' params written frame' attributes' args') := by
  unfold callFunction enter
  rw [bind_assoc, bind_assoc]
  refine .get_bind ?_
  rw [bind_assoc, bind_assoc]
  refine (Agree.newDict hw (agree_bindParams params hargs)).bind fun _ _ v v' _ hv hl _ => ?_
  refine agree_openFrame_bind hv (hw.store.fresh 0) (.some hframe) ?_ ?_
    fun _ _ _ _ hu hinner => .read_bind_eq hu (bodyToCall_eq hu.store hattributes written)
      fun body => agree_evaluate hcall .forbidden body hu hinner
  · refine Option.Rel.getD (Option.Rel.map (hw.store.frame? hframe) ?_) (p.lasting 0 (by decide))
    exact fun _ _ h => h.2.2
  · rintro _ ⟨⟩
    exact Nat.lt_of_lt_of_le hold hl.size

/-- A call does the same with functions and arguments that agree, and nothing else. -/
theorem calls_callValue (depth : Nat) : Calls p (callValue depth) (callValue depth) := by
  induction depth with
  | zero => exact fun _ _ _ _ _ _ _ _ hw => .throw hw _
  | succ depth ih =>
    intro f f' args args' w w' hf hargs hw
    cases hf with
    | type t ht => exact agree_convert ht hw hargs
    | @ref r r' hr =>
      refine .get_bind ?_
      obtain ⟨ho, ho'⟩ | ⟨o, o', ho, ho', h⟩ := hw.store.object_cases hr <;> rw [ho, ho']
      · exact .throw hw _
      · cases h with
        | @arrow params body frame frame' _ _ hframe hattributes =>
          have hold : frame < w.store.size :=
            Nat.lt_trans (hw.store.rooted r _ ho) (Array.getElem?_eq_some_iff.1 ho).1
          exact agree_callFunction ih params body hattributes hargs hw hframe hold
        | method m hself _ => exact agree_callMethod ih m hw hself hargs
        | builtin b _ => exact agree_callBuiltin b hw hargs
        | host h _ => exact agree_callHost h hw hargs
        | _ => exact .throw hw _
    | _ => exact .throw hw _

/-- The value of an expression in frames that agree. -/
theorem agree_run (waiting : Waiting) (e : Expr) {frame frame' : Ref} (hw : World.Agree p w w')
    (hf : Frames p w frame frame') :
    Eval.Agree p (Value.Agree p) w w' (run waiting frame e) (run waiting frame' e) :=
  agree_evaluate (calls_callValue callLimit) waiting e hw hf

end Eval

end GuardedText
