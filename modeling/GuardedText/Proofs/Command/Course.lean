import GuardedText.Proofs.Command.File
import GuardedText.Proofs.Command.Options

/-
  The course of a run. Files are compiled in order, each against the context that the one before it
  left, until one stops the run (`Course`). No path is met twice, so what is read at each of them is
  what stood there before the run, and a dry run takes the same course as another
  (`compileAll_on`). At the end the bytes of the compiled files whose text has changed are other ones,
  and all other bytes are as they were (`Desk.foldl_rewrite`).
-/

namespace GuardedText.Command

open GuardedText.Path (IsPlace display)

/-- A run over files on a desk: the files that were compiled, why the run stopped before its end, if it
did, and the world that it left. -/
inductive Course (settings : Settings) (context : Ref) (d : Desk) :
    List (List Text) → World → List Done → Option Stop → World → Prop
  | finished {w : World} : Course settings context d [] w [] none w
  | stopped {place : List Text} {rest : List (List Text)} {w w' : World} {stop : Stop}
    (h : Stops settings context (d.read (display place)) w stop w') :
    Course settings context d (place :: rest) w [] (some stop) w'
  | next {f : Done} {rest : List (List Text)} {w w' w'' : World} {done : List Done}
    {stop : Option Stop} (h : Compiles settings context (d.read (display f.place)) w f w')
    (hrest : Course settings context d rest w' done stop w'') :
    Course settings context d (f.place :: rest) w (f :: done) stop w''

section

variable {settings : Settings} {context : Ref} {d : Desk} {places : List (List Text)}
  {w w' : World} {done : List Done} {stop : Option Stop}

/-- The compiled files are the first ones. -/
theorem Course.first_places (h : Course settings context d places w done stop w') :
    done.map Done.place <+: places := by
  induction h with
  | finished => exact List.nil_prefix
  | stopped => exact List.nil_prefix
  | next _ _ ih =>
    rw [List.map_cons]
    exact (List.cons_prefix_cons).2 ⟨rfl, ih⟩

/-- All files are compiled unless the run stops. -/
theorem Course.length_eq_iff (h : Course settings context d places w done stop w') :
    done.length = places.length ↔ stop = none := by
  induction h with
  | finished => simp
  | stopped => simp
  | next _ _ ih => simpa using ih

end

/-! ## What is written -/

/-- The bytes of a compiled file that had other bytes before. -/
def Done.bytes (settings : Settings) (f : Done) (old : List Byte) : List Byte :=
  match Encoding.ofName? settings.fileEncoding with
  | some encoding => if f.changed then encoding.encode f.text else old
  | none => old

/-- The bytes of a file after a run in which some files were compiled. -/
def bytesAfter (settings : Settings) (done : List Done) (place : List Text) (old : List Byte) :
    List Byte :=
  match done.find? fun f => f.place == place with
  | some f => f.bytes settings old
  | none => old

theorem bytesAfter_of_not_mem (settings : Settings) {done : List Done} {place : List Text}
    (h : place ∉ done.map Done.place) (old : List Byte) :
    bytesAfter settings done place old = old := by
  have hnone : (done.find? fun f => f.place == place) = none := by
    refine List.find?_eq_none.2 fun f hf heq => h ?_
    exact List.mem_map.2 ⟨f, hf, eq_of_beq heq⟩
  rw [bytesAfter, hnone]

theorem bytesAfter_cons (settings : Settings) {f : Done} {done : List Done}
    (h : f.place ∉ done.map Done.place) (place : List Text) (old : List Byte) :
    bytesAfter settings (f :: done) place old =
      bytesAfter settings done place (if place == f.place then f.bytes settings old else old) := by
  by_cases hplace : place = f.place
  · subst hplace
    rw [bytesAfter_of_not_mem settings h, bytesAfter, List.find?_cons_of_pos (by simp),
      if_pos (beq_self_eq_true _)]
  · rw [bytesAfter, List.find?_cons_of_neg (by simpa using Ne.symm hplace),
      if_neg (by simpa using hplace)]
    rfl

namespace Desk

variable (settings : Settings) (dryRun : Bool)

theorem rewrite_dry (d : Desk) (f : Done) : d.rewrite settings true f = d := by
  unfold rewrite
  rw [Bool.not_true, Bool.and_false]
  rfl

theorem rewrite_eq (d : Desk) (f : Done) :
    d.rewrite settings false f = { d with files := d.files.map fun (place, old) =>
      (place, if place == f.place then f.bytes settings old else old) } := by
  unfold rewrite Done.bytes
  cases Encoding.ofName? settings.fileEncoding with
  | none => simp
  | some encoding =>
    cases f.changed with
    | false => simp
    | true =>
      simp only [put, Bool.not_false, Bool.and_self, if_true]
      congr 1
      refine List.map_congr_left fun x _ => ?_
      split <;> simp [*]

theorem read_rewrite_of_ne (d : Desk) {f : Done} {place : List Text} (hplace : IsPlace place)
    (hne : place ≠ f.place) :
    (d.rewrite settings dryRun f).read (display place) = d.read (display place) := by
  unfold rewrite
  split
  · split
    · exact d.read_put_of_ne hplace hne _
    · rfl
  · rfl

theorem foldl_rewrite_tell (d : Desk) (done : List Done) (notes : List Note)
    (complaints : List Text) :
    done.foldl (rewrite settings dryRun) (d.tell notes complaints) =
      (done.foldl (rewrite settings dryRun) d).tell notes complaints := by
  induction done generalizing d with
  | nil => rfl
  | cons f done ih => rw [List.foldl_cons, List.foldl_cons, rewrite_tell, ih]

/-- The desk after a run. -/
def after (d : Desk) (done : List Done) : Desk :=
  if dryRun then d
  else { d with files := d.files.map fun (place, old) =>
    (place, bytesAfter settings done place old) }

theorem after_nil (d : Desk) : d.after settings dryRun [] = d := by
  unfold after bytesAfter
  cases dryRun <;> simp

theorem foldl_rewrite (d : Desk) {done : List Done} (hnodup : (done.map Done.place).Nodup) :
    done.foldl (rewrite settings dryRun) d = d.after settings dryRun done := by
  cases dryRun with
  | true =>
    have hnone : ∀ done : List Done, done.foldl (rewrite settings true) d = d := by
      intro done
      induction done with
      | nil => rfl
      | cons f done ih => rw [List.foldl_cons, rewrite_dry, ih]
    exact hnone done
  | false =>
    induction done generalizing d with
    | nil => exact (after_nil settings false d).symm
    | cons f done ih =>
      obtain ⟨hfresh, hrest⟩ := List.nodup_cons.1 hnodup
      rw [List.foldl_cons, ih _ hrest, rewrite_eq]
      simp only [after, bytesAfter_cons settings hfresh, List.map_map, Bool.false_eq_true, if_false]
      rfl

end Desk

/-- Files are compiled one after another, with the same notes, complaints and ending in a dry run and
in another. -/
theorem compileAll_on (settings : Settings) (verbosity : Int) (context : Ref) (d : Desk)
    {places : List (List Text)} (hplaces : ∀ p ∈ places, IsPlace p) (hnodup : places.Nodup)
    (w : World) :
    ∃ done stop w' notes complaints, Course settings context d places w done stop w' ∧
      ∀ dryRun (d' : Desk), (∀ p ∈ places, d'.read (display p) = d.read (display p)) →
        Job.on (places.mapM (compileFile settings dryRun verbosity context)) w d' =
          ((stop.elim (.ok (done.map Done.changed)) .error, w'),
            (done.foldl (Desk.rewrite settings dryRun) d').tell notes complaints) := by
  induction places generalizing w with
  | nil =>
    refine ⟨[], none, w, [], [], .finished, fun dryRun d' _ => ?_⟩
    rfl
  | cons place places ih =>
    obtain ⟨hplace, hothers⟩ := List.forall_mem_cons.1 hplaces
    obtain ⟨hfresh, hdistinct⟩ := List.nodup_cons.1 hnodup
    rcases compileFile_on settings verbosity context hplace (d.read (display place)) w with
      ⟨f, w', notes, rfl, hf, hon⟩ | ⟨stop, w', notes, complaints, hstop, hon⟩
    · obtain ⟨done, stop, w'', notes', complaints, hcourse, hrest⟩ := ih hothers hdistinct w'
      refine ⟨f :: done, stop, w'', notes ++ notes', complaints, .next hf hcourse,
        fun dryRun d' hd' => ?_⟩
      obtain ⟨hd, hd'⟩ := List.forall_mem_cons.1 hd'
      have hread : ∀ p ∈ places, ((d'.rewrite settings dryRun f).tell notes []).read (display p) =
          d.read (display p) := by
        intro p hp
        rw [Desk.read_tell, Desk.read_rewrite_of_ne settings dryRun d' (hothers p hp), hd' p hp]
        exact fun heq => hfresh (heq ▸ hp)
      have hall := hrest dryRun _ hread
      rw [Desk.foldl_rewrite_tell, Desk.tell_tell, List.nil_append] at hall
      rw [List.mapM_cons, Job.on_bind_ok (hon dryRun d' hd)]
      cases stop with
      | none => exact Job.on_bind_ok hall
      | some stop => exact Job.on_bind_error hall
    · refine ⟨[], some stop, w', notes, complaints, .stopped hstop, fun dryRun d' hd' => ?_⟩
      rw [List.mapM_cons]
      exact Job.on_bind_error (hon dryRun d' (hd' place List.mem_cons_self))

/-! ## The whole run -/

/-- The resolved paths of the files that options ask for. -/
def resolved (settings : Settings) (o : Options) (d : Desk) : List (List Text) :=
  ((findFiles d.home o (settings.verbosity o.verbosity) : StateM Desk _).run d).1

theorem nodup_eraseDups {α : Type} [BEq α] [LawfulBEq α] (l : List α) : l.eraseDups.Nodup := by
  induction hn : l.length using Nat.strongRecOn generalizing l with
  | ind n ih =>
    cases l with
    | nil => exact List.nodup_nil
    | cons a l =>
      rw [List.eraseDups_cons]
      refine List.nodup_cons.2 ⟨?_, ih _ ?_ _ rfl⟩
      · simp
      · subst hn
        exact Nat.lt_succ_of_le (List.length_filter_le _ _)

theorem exists_resolved (settings : Settings) (o : Options) (d : Desk) :
    ∃ paths : List Text,
      resolved settings o d = (paths.map (Path.resolve d.home)).eraseDups := by
  let x : StateM Desk _ := o.files.mapM (candidates o (settings.verbosity o.verbosity))
  exact ⟨(x.run d).1.flatten, rfl⟩

theorem nodup_resolved (settings : Settings) (o : Options) (d : Desk) :
    (resolved settings o d).Nodup := by
  obtain ⟨paths, hpaths⟩ := exists_resolved settings o d
  rw [hpaths]
  exact nodup_eraseDups _

theorem isPlace_of_mem_resolved {settings : Settings} {o : Options} {d : Desk}
    (hhome : IsPlace d.home) : ∀ p ∈ resolved settings o d, IsPlace p := by
  obtain ⟨paths, hpaths⟩ := exists_resolved settings o d
  intro p hp
  rw [hpaths, List.mem_eraseDups] at hp
  obtain ⟨path, -, rfl⟩ := List.mem_map.1 hp
  exact Path.isPlace_resolve hhome path

/-- The context of a run stands at the end of the store. -/
def World.withContext (w : World) (entries : List (Text × Option Text)) : World :=
  { w with store := w.store.push (.dict (entries.map fun (k, v) => (Key.name k, contextValue v))) }

/-- A run on a desk: without a context nothing is compiled, else the files take their course. -/
inductive Account (settings : Settings) (o : Options) (d : Desk) (w : World) :
    List Done → Option Stop → World → Prop
  | noContext {stop : Stop} {w' : World}
    (h : (Job.on (makeContext settings o (settings.verbosity o.verbosity)) w d).1 =
      (.error stop, w')) :
    Account settings o d w [] (some stop) w'
  | files {entries : List (Text × Option Text)} {w' w'' : World} {done : List Done}
    {stop : Option Stop}
    (h : (Job.on (makeContext settings o (settings.verbosity o.verbosity)) w d).1 =
      (.ok entries, w'))
    (hcourse : Course settings w'.store.size d (resolved settings o d)
      (World.withContext w' entries) done stop w'') :
    Account settings o d w done stop w''

/-- The closing note of a run that did not stop: how many files there were, and how many changed. -/
def closing (settings : Settings) (o : Options) (d : Desk) (done : List Done) (stop : Option Stop)
    (dryRun : Bool) : List Note :=
  match stop with
  | some _ => []
  | none =>
    seen (settings.verbosity o.verbosity)
      [.compiled (resolved settings o d).length (done.countP Done.changed) dryRun]

/-- A run does the same in a dry run and in another, up to what is written and the closing note. -/
theorem run_on (settings : Settings) (o : Options) {d : Desk} (hhome : IsPlace d.home) (w : World) :
    ∃ done stop w' notes complaints, Account settings o d w done stop w' ∧
      ∀ dryRun, Job.on (run settings d.home { o with dryRun }) w d =
        ((stop.elim (.ok ()) .error, w'), (d.after settings dryRun done).tell
          (notes ++ closing settings o d done stop dryRun) complaints) := by
  obtain ⟨r, notes, complaints, hmake⟩ :=
    looks_makeContext settings o (settings.verbosity o.verbosity) w d
  have hmake := hmake [] []
  rw [Desk.tell_nil, List.nil_append, List.nil_append] at hmake
  cases r with
  | error stop =>
    refine ⟨[], some stop, w, notes, complaints, .noContext (by rw [hmake]), fun dryRun => ?_⟩
    rw [Desk.after_nil, closing, List.append_nil]
    exact Job.on_bind_error hmake
  | ok entries =>
    obtain ⟨places, found, missed, hfind⟩ :=
      looks_findFiles d.home o (settings.verbosity o.verbosity) d
    have hplaces : resolved settings o d = places := congrArg Prod.fst (hfind [] [])
    subst hplaces
    obtain ⟨done, stop, w', notes', complaints', hcourse, hall⟩ :=
      compileAll_on settings (settings.verbosity o.verbosity) w.store.size d
        (isPlace_of_mem_resolved hhome) (nodup_resolved settings o d) (World.withContext w entries)
    have hdistinct : (done.map Done.place).Nodup :=
      hcourse.first_places.sublist.nodup (nodup_resolved settings o d)
    refine ⟨done, stop, w', notes ++ found ++ notes', complaints ++ missed ++ complaints',
      .files (by rw [hmake]) hcourse, fun dryRun => ?_⟩
    have hfiles := hall dryRun _ fun p _ =>
      Desk.read_tell d (notes ++ found) (complaints ++ missed) (display p)
    rw [Desk.foldl_rewrite_tell, Desk.foldl_rewrite settings dryRun d hdistinct, Desk.tell_tell]
      at hfiles
    have hcount : (done.map Done.changed).count true = done.countP Done.changed := by
      rw [List.count, List.countP_map]
      exact List.countP_congr fun f _ => by simp
    refine (Job.on_bind_ok hmake).trans ?_
    refine (Job.on_bind_ok (Job.on_lift (hfind notes complaints))).trans ?_
    have hget : ∀ d, Job.on (get : Job (StateM Desk) World) w d = ((.ok w, w), d) := fun _ => rfl
    have hset : ∀ d, Job.on (set (World.withContext w entries) : Job (StateM Desk) PUnit) w d =
        ((.ok (), World.withContext w entries), d) := fun _ => rfl
    refine (Job.on_bind_ok (hget _)).trans ((Job.on_bind_ok (hset _)).trans ?_)
    cases stop with
    | some stop =>
      rw [closing, List.append_nil]
      exact Job.on_bind_error hfiles
    | none =>
      refine (Job.on_bind_ok hfiles).trans ?_
      refine (Job.on_lift (say_run _ _ _)).trans ?_
      rw [Desk.tell_tell, List.append_nil, hcount]
      rfl

/-- Whether or not a run is dry, the same first files are compiled in order, each against the context
that the one before it left; the run ends in the same way, in the same world, with the same complaints
and the same counts. The bytes of a file are other ones only if it was compiled, its text has changed
and the run is not dry. A dry run can be asked for in front of all other arguments. -/
theorem start_course (settings : Settings) {d : Desk} (hhome : IsPlace d.home) (w : World)
    {arguments : List Text} {o : Options} (ho : Options.parse arguments = .ok o) :
    Options.parse ("--dry-run" :: arguments) = .ok { o with dryRun := true } ∧
    (resolved settings o d).Nodup ∧
    ∃ done stop w' notes complaints, Account settings o d w done stop w' ∧
      done.map Done.place = (resolved settings o d).take done.length ∧
      (stop = none → done.length = (resolved settings o d).length) ∧
      ∀ dryRun words, Options.parse words = .ok { o with dryRun } →
        (start settings d.home words w : StateM Desk _).run d =
          ((stop.elim .finished .stopped, w'), (d.after settings dryRun done).tell
            (notes ++ closing settings o d done stop dryRun) complaints) := by
  refine ⟨by rw [Options.parse_dryRun, ho]; rfl, nodup_resolved settings o d, ?_⟩
  obtain ⟨done, stop, w', notes, complaints, haccount, hrun⟩ := run_on settings o hhome w
  refine ⟨done, stop, w', notes, complaints, haccount, ?_, ?_, fun dryRun words hwords => ?_⟩
  · cases haccount with
    | noContext => rfl
    | files _ hcourse => simpa using List.prefix_iff_eq_take.1 hcourse.first_places
  · cases haccount with
    | noContext => nofun
    | files _ hcourse => exact hcourse.length_eq_iff.2
  · have hrun := hrun dryRun
    unfold Job.on at hrun
    unfold start
    rw [hwords]
    dsimp only
    rw [StateT.run_bind, hrun]
    cases stop <;> rfl

/-- Three scripts, the second of which cannot be compiled. -/
def sampleDesk : Desk where
  home := ["w"]
  files := [(["w", "a"], Utf8.encode "/*#if A*/x/*#endif*/"), (["w", "b"], Utf8.encode "//#else"),
    (["w", "c"], Utf8.encode "/*#if A*//*#endif*/")]

/-- The arguments for them. -/
def sampleArguments : List Text := ["-i", "-D", "A", "a", "b", "c"]

/-- The desk after a run over them. -/
def sampleFiles : List (List Text × List Byte) :=
  (["w", "a"], Utf8.encode "x") :: sampleDesk.files.drop 1

theorem start_sample :
    Prod.map Prod.fst Desk.files
      ((start {} sampleDesk.home sampleArguments {} : StateM Desk _).run sampleDesk) =
      (.stopped .refused, sampleFiles) := by
  decide +kernel

/-- The first script is written, the run stops at the second, and a dry run ends in the same way. -/
theorem start_course_stopped :
    let o : Options := { files := ["a", "b", "c"], vars := ["A"], inPlace := true }
    IsPlace sampleDesk.home ∧ Options.parse sampleArguments = .ok o ∧
    ∃ w' d' d'',
      (start {} sampleDesk.home sampleArguments {} : StateM Desk _).run sampleDesk =
        ((.stopped .refused, w'), d') ∧
      (start {} sampleDesk.home ("--dry-run" :: sampleArguments) {} : StateM Desk _).run sampleDesk =
        ((.stopped .refused, w'), d'') ∧
      d'.files = sampleFiles ∧ d''.files = sampleDesk.files ∧ d'.complaints = d''.complaints := by
  intro o
  have hhome : IsPlace sampleDesk.home := by decide
  have ho : Options.parse sampleArguments = .ok o := by rfl
  obtain ⟨hdry, -, done, stop, w', notes, complaints, -, -, -, hstart⟩ :=
    start_course {} hhome {} ho
  have hrun := start_sample
  rw [hstart false _ ho] at hrun
  obtain ⟨hending, hfiles⟩ := Prod.mk.inj hrun
  dsimp only at hending
  rw [← hending]
  exact ⟨hhome, ho, w', _, _, hstart false _ ho, hstart true _ hdry, hfiles, rfl, rfl⟩

end GuardedText.Command
