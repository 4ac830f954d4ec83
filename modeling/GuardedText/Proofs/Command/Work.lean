import GuardedText.Command.Run
import GuardedText.Proofs.Command.Desk

/-
  Work on a desk. Finding files and making a context look at files and folders, add to what is said,
  and do nothing else (`Looks`); what was said before makes no difference to them. Looking is kept by
  every way to put work together, so it holds of `findFiles` and `makeContext` without a word on what
  they find.
-/

namespace GuardedText.Command

variable {α β : Type}

namespace Desk

/-- A desk on which some notes and then some complaints are passed on, in this order. -/
def tell (d : Desk) (notes : List Note) (complaints : List Text) : Desk :=
  { d with notes := notes.reverse ++ d.notes, complaints := complaints.reverse ++ d.complaints }

@[simp]
theorem tell_nil (d : Desk) : d.tell [] [] = d := rfl

@[simp]
theorem tell_tell (d : Desk) (notes notes' : List Note) (complaints complaints' : List Text) :
    (d.tell notes complaints).tell notes' complaints' =
      d.tell (notes ++ notes') (complaints ++ complaints') := by
  simp only [tell, List.reverse_append, List.append_assoc]

theorem alike_tell (d : Desk) (notes : List Note) (complaints : List Text) :
    Alike d (d.tell notes complaints) := ⟨rfl, rfl, rfl⟩

@[simp]
theorem lookup_tell (d : Desk) (notes : List Note) (complaints : List Text) (path : Text) :
    (d.tell notes complaints).lookup path = d.lookup path :=
  (d.alike_tell notes complaints).lookup path

@[simp]
theorem read_tell (d : Desk) (notes : List Note) (complaints : List Text) (path : Text) :
    (d.tell notes complaints).read path = d.read path := by
  unfold read
  rw [lookup_tell]
  rfl

end Desk

/-! ## Looking -/

/-- Work that looks at files and folders and adds to what is said. -/
def Looks (x : StateM Desk α) : Prop :=
  ∀ d : Desk, ∃ a notes complaints, ∀ notes' complaints',
    x.run (d.tell notes' complaints') = (a, d.tell (notes' ++ notes) (complaints' ++ complaints))

namespace Looks

theorem pure (a : α) : Looks (pure a) := by
  intro d
  refine ⟨a, [], [], fun notes complaints => ?_⟩
  rw [List.append_nil, List.append_nil]
  rfl

theorem bind {x : StateM Desk α} {f : α → StateM Desk β} (hx : Looks x) (hf : ∀ a, Looks (f a)) :
    Looks (x >>= f) := by
  intro d
  obtain ⟨a, notes, complaints, hx⟩ := hx d
  obtain ⟨b, notes', complaints', hf⟩ := hf a d
  refine ⟨b, notes ++ notes', complaints ++ complaints', fun n c => ?_⟩
  rw [StateT.run_bind, hx, ← List.append_assoc, ← List.append_assoc]
  exact hf (n ++ notes) (c ++ complaints)

/-- Work that starts from what a desk looks like. -/
theorem get {f : Desk → StateM Desk α}
    (hf : ∀ d notes complaints, f (d.tell notes complaints) = f d) (hlooks : ∀ d, Looks (f d)) :
    Looks (get >>= f) := by
  intro d
  obtain ⟨a, notes, complaints, h⟩ := hlooks d d
  refine ⟨a, notes, complaints, fun n c => ?_⟩
  change (f (d.tell n c)).run (d.tell n c) = _
  rw [hf, h]

theorem kind? (path : Text) : Looks (Host.kind? path) :=
  get (fun d n c => by rw [Desk.lookup_tell]) fun _ => pure _

theorem read (path : Text) : Looks (Host.read path) :=
  get (fun d n c => by rw [Desk.read_tell]) fun _ => pure _

theorem names (path : Text) : Looks (Host.names path) := by
  refine get (fun d n c => ?_) fun d => ?_
  · rw [Desk.lookup_tell]
    rfl
  · split
    · exact pure _
    · exact pure []

theorem note (n : Note) : Looks (Host.note n) := by
  intro d
  refine ⟨(), [n], [], fun notes complaints => ?_⟩
  rw [← Desk.tell_tell]
  rfl

theorem complain (line : Text) : Looks (Host.complain line) := by
  intro d
  refine ⟨(), [], [line], fun notes complaints => ?_⟩
  rw [← Desk.tell_tell]
  rfl

theorem ite {p : Prop} [Decidable p] {x y : StateM Desk α} (hx : Looks x) (hy : Looks y) :
    Looks (if p then x else y) := by
  split
  · exact hx
  · exact hy

theorem mapM {f : α → StateM Desk β} (hf : ∀ a, Looks (f a)) (l : List α) : Looks (l.mapM f) := by
  induction l with
  | nil => exact pure []
  | cons a l ih =>
    rw [List.mapM_cons]
    exact bind (hf a) fun _ => bind ih fun _ => pure _

theorem filterM {f : α → StateM Desk Bool} (hf : ∀ a, Looks (f a)) (l : List α) :
    Looks (l.filterM f) := by
  have hloop : ∀ kept : List α, Looks (l.filterAuxM f kept) := by
    induction l with
    | nil => exact fun kept => pure kept
    | cons a l ih => exact fun kept => bind (hf a) fun b => ih _
  exact bind (hloop []) fun _ => pure _

theorem say (verbosity : Int) (n : Note) : Looks (say verbosity n) := ite (note n) (pure ())

end Looks

namespace Pattern

theorem looks_listed (onlyFolders : Bool) (folder : Text) : Looks (listed onlyFolders folder) := by
  refine .bind (.names folder) fun names => .ite ?_ (.pure names)
  exact .filterM (fun name => .bind (.kind? _) fun _ => .pure _) names

theorem looks_descend (onlyFolders : Bool) (depth : Nat) (folder : Text) :
    Looks (descend onlyFolders depth folder) := by
  induction depth generalizing folder with
  | zero => exact .pure []
  | succ depth ih =>
    refine .bind (looks_listed onlyFolders folder) fun names => .bind (.mapM ?_ _) fun _ => .pure _
    exact fun name => .bind (ih _) fun _ => .pure _

theorem looks_findIn (onlyFolders : Bool) (folder pattern : Text) :
    Looks (findIn onlyFolders folder pattern) := by
  refine .ite (.ite ?_ ?_) (.ite ?_ ?_)
  · exact .bind (.kind? _) fun _ => .pure _
  · exact .bind (.kind? _) fun _ => .pure _
  · exact .bind (.kind? _) fun _ => .bind (looks_descend _ _ _) fun _ => .pure _
  · exact .bind (looks_listed onlyFolders folder) fun _ => .pure _

theorem looks_search (onlyFolders : Bool) (fuel : Nat) (pattern : Text) :
    Looks (search onlyFolders fuel pattern) := by
  induction fuel generalizing onlyFolders pattern with
  | zero => exact .pure []
  | succ fuel ih =>
    refine .ite (.ite ?_ ?_) (.ite ?_ ?_)
    · exact .bind (.kind? _) fun _ => .pure _
    · exact .bind (.kind? _) fun _ => .pure _
    · exact looks_findIn onlyFolders _ _
    · have hrest : ∀ folders : List Text, Looks (do
          let found ← folders.mapM fun f =>
            return (← findIn onlyFolders f (Path.splitLast pattern).2).map (Path.join f)
          return found.flatten) := by
        intro folders
        refine .bind (.mapM (fun f => ?_) folders) fun _ => .pure _
        exact .bind (looks_findIn onlyFolders f _) fun _ => .pure _
      exact .ite (.bind (ih _ _) hrest) (.bind (.pure _) hrest)

theorem looks_expand (pattern : Text) : Looks (expand pattern) :=
  .bind (looks_search false _ pattern) fun _ => .pure _

end Pattern

theorem looks_candidates (o : Options) (verbosity : Int) (file : Text) :
    Looks (candidates o verbosity file) := by
  refine .ite ?_ (.pure [file])
  refine .bind (Pattern.looks_expand file) fun found => .bind (.filterM ?_ found) fun kept => ?_
  · exact fun p => .bind (.kind? _) fun _ => .pure _
  · exact .bind (.say verbosity _) fun _ => .pure kept

/-- Finding files only looks. -/
theorem looks_findFiles (home : List Text) (o : Options) (verbosity : Int) :
    Looks (findFiles home o verbosity) :=
  .bind (.mapM (looks_candidates o verbosity) o.files) fun _ => .pure _

/-! ## Jobs -/

namespace Job

/-- What a job comes to in a world and on a desk. -/
def on (x : Job (StateM Desk) α) (w : World) (d : Desk) : (Except Stop α × World) × Desk :=
  ((x.run).run w).run d

section

variable {x : Job (StateM Desk) α} {f : α → Job (StateM Desk) β} {w w' : World} {d d' : Desk}

theorem on_bind_ok {a : α} (h : on x w d = ((.ok a, w'), d')) :
    on (x >>= f) w d = on (f a) w' d' := by
  unfold on at h ⊢
  rw [ExceptT.run_bind, StateT.run_bind, StateT.run_bind, h]
  rfl

theorem on_bind_error {stop : Stop} (h : on x w d = ((.error stop, w'), d')) :
    on (x >>= f) w d = ((.error stop, w'), d') := by
  unfold on at h ⊢
  rw [ExceptT.run_bind, StateT.run_bind, StateT.run_bind, h]
  rfl

theorem on_lift {y : StateM Desk α} {a : α} (h : y.run d = (a, d')) :
    on (liftM y) w d = ((.ok a, w), d') := by
  change (StateT.run (y >>= fun a => pure (Except.ok a, w)) d : Id _) = _
  rw [StateT.run_bind, h]
  rfl

end

/-- A job that looks at files and folders, adds to what is said and leaves the world as it is. -/
def Looks (x : Job (StateM Desk) α) : Prop :=
  ∀ (w : World) (d : Desk), ∃ r notes complaints, ∀ notes' complaints',
    on x w (d.tell notes' complaints') =
      ((r, w), d.tell (notes' ++ notes) (complaints' ++ complaints))

namespace Looks

theorem pure (a : α) : Job.Looks (pure a) := by
  intro w d
  refine ⟨.ok a, [], [], fun notes complaints => ?_⟩
  rw [List.append_nil, List.append_nil]
  rfl

theorem throw (stop : Stop) : Job.Looks (throw stop : Job (StateM Desk) α) := by
  intro w d
  refine ⟨.error stop, [], [], fun notes complaints => ?_⟩
  rw [List.append_nil, List.append_nil]
  rfl

theorem lift {x : StateM Desk α} (hx : Command.Looks x) :
    Job.Looks (liftM x : Job (StateM Desk) α) := by
  intro w d
  obtain ⟨a, notes, complaints, hx⟩ := hx d
  exact ⟨.ok a, notes, complaints, fun n c => on_lift (hx n c)⟩

theorem bind {x : Job (StateM Desk) α} {f : α → Job (StateM Desk) β} (hx : Job.Looks x)
    (hf : ∀ a, Job.Looks (f a)) : Job.Looks (x >>= f) := by
  intro w d
  obtain ⟨r, notes, complaints, hx⟩ := hx w d
  cases r with
  | error stop => exact ⟨.error stop, notes, complaints, fun n c => on_bind_error (hx n c)⟩
  | ok a =>
    obtain ⟨r, notes', complaints', hf⟩ := hf a w d
    refine ⟨r, notes ++ notes', complaints ++ complaints', fun n c => ?_⟩
    rw [on_bind_ok (hx n c), ← List.append_assoc, ← List.append_assoc]
    exact hf (n ++ notes) (c ++ complaints)

theorem forIn {f : α → PUnit → Job (StateM Desk) (ForInStep PUnit)} (hf : ∀ a u, Job.Looks (f a u))
    (l : List α) : Job.Looks (forIn l PUnit.unit f) := by
  induction l with
  | nil => exact pure _
  | cons a l ih =>
    rw [List.forIn_cons]
    refine bind (hf a _) fun step => ?_
    split
    · exact pure _
    · exact ih

end Looks

end Job

theorem looks_readText (settings : Settings) (path : Text) : Looks (readText settings path) := by
  refine .bind (.read path) fun found => ?_
  split
  · exact .pure _
  · split
    · exact .pure _
    · split
      · exact .pure _
      · exact .pure _

theorem looks_refuse (lines : List Text) :
    Job.Looks (refuse lines : Job (StateM Desk) α) := by
  refine .bind (.forIn (fun line _ => ?_) lines) fun _ => .throw _
  exact .bind (.lift (.complain line)) fun _ => .pure _

theorem looks_loadEnv (settings : Settings) (path : Text) :
    Job.Looks (loadEnv settings path) := by
  refine .bind (.lift (.kind? path)) fun kind => ?_
  extract_lets rest
  -- What follows the check for a file is the same whether the check refuses or not.
  have hrest (u : PUnit) : Job.Looks (rest u) := by
    refine .bind (.lift (looks_readText settings path)) fun found => ?_
    split
    · exact looks_refuse _
    · exact .throw _
    · exact .throw _
    · refine .bind (.forIn (fun line _ => ?_) _) fun _ => .pure _
      exact .bind (.lift (.complain _)) fun _ => .pure _
  split
  · exact .bind (looks_refuse _) hrest
  · exact hrest ()

/-- Making a context only looks. -/
theorem looks_makeContext (settings : Settings) (o : Options) (verbosity : Int) :
    Job.Looks (makeContext settings o verbosity) := by
  unfold makeContext
  extract_lets rest
  have hrest (loaded : List (Text × Option Text)) : Job.Looks (rest loaded) :=
    .bind (.lift (.say verbosity _)) fun _ => .pure _
  split
  · exact .bind (.pure _) hrest
  · refine .bind (looks_loadEnv settings _) fun values => ?_
    exact .bind (.lift (.say verbosity _)) fun _ => .bind (.pure values) hrest

end GuardedText.Command
