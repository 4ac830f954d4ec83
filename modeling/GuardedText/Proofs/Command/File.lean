import GuardedText.Proofs.Command.Work

/-
  Compiling one file. The text is that of the bytes found at the path (`textOf`); it is compiled
  (`Compiles`), or the run stops (`Stops`), and which of the two depends on nothing but what is found,
  the context and the world. The file is written last, and only where its text has changed
  (`Desk.rewrite`), so a dry run differs from another in the bytes of that file alone
  (`compileFile_on`).
-/

namespace GuardedText.Command

/-- The text of a file, from what is found at its path. -/
def textOf (settings : Settings) (found : Except DiskError (List Byte)) : Except ReadFailure Text :=
  match found with
  | .error e => .error (.disk e)
  | .ok bytes =>
    match Encoding.ofName? settings.fileEncoding with
    | none => .error .unknownEncoding
    | some encoding =>
      match encoding.decode bytes with
      | .error f => .error (.decode f)
      | .ok t => .ok t.unifyLineEnds

/-- Why a run stops at a file without a text. -/
def ReadFailure.stop : ReadFailure → Stop
  | .disk _ | .decode (.flaw _) => .refused
  | .decode .noMark => .escaped (.undecodable .noMark)
  | .unknownEncoding => .escaped .unknownEncoding

/-- The lines of complaint about a file without a text. -/
def ReadFailure.lines (path : Text) : ReadFailure → List Text
  | .disk e => [path ++ ": " ++ e.message path]
  | .decode (.flaw f) => [path ++ ": " ++ f.message]
  | .decode .noMark | .unknownEncoding => []

end GuardedText.Command

namespace GuardedText

/-- Why a run stops at a script that cannot be compiled. -/
def CompileError.stop : CompileError → Command.Stop
  | .parse .badLiteral => .escaped .badLiteral
  | _ => .refused

end GuardedText

namespace GuardedText.Command

/-- A file that was compiled. -/
structure Done where
  /-- Where it stands. -/
  place : List Text
  /-- The text that was read. -/
  source : Text
  /-- The text that remains. -/
  text : Text

/-- Whether the text of a compiled file is another one. -/
def Done.changed (f : Done) : Bool := f.text != f.source

/-- A file in which some bytes were found is compiled against a context in a world. -/
structure Compiles (settings : Settings) (context : Ref) (found : Except DiskError (List Byte))
    (w : World) (f : Done) (w' : World) : Prop where
  source : textOf settings found = .ok f.source
  lexer : knowsLexer settings.lexerName = true
  text : (compile .allowed context f.source w).1.result = .ok f.text
  world : (compile .allowed context f.source w).2 = w'

/-- A run stops at a file: it has no text, its language is not known, or its text cannot be
compiled. -/
inductive Stops (settings : Settings) (context : Ref) (found : Except DiskError (List Byte)) :
    World → Stop → World → Prop
  | unread {w : World} {f : ReadFailure} (h : textOf settings found = .error f) :
    Stops settings context found w f.stop w
  | unknown {w : World} {source : Text} (h : textOf settings found = .ok source)
    (hlexer : knowsLexer settings.lexerName = false) :
    Stops settings context found w (.escaped .unknownLexer) w
  | failed {w : World} {source : Text} {e : CompileError} (h : textOf settings found = .ok source)
    (hlexer : knowsLexer settings.lexerName = true)
    (he : (compile .allowed context source w).1.result = .error e) :
    Stops settings context found w e.stop (compile .allowed context source w).2

/-- The notes that are seen at a verbosity. -/
def seen (verbosity : Int) (notes : List Note) : List Note :=
  notes.filter fun n => decide ((n.level : Int) ≤ verbosity)

/-! ## The steps of a job -/

section

variable (settings : Settings) (verbosity : Int) (w : World) (d : Desk)

theorem readText_run (path : Text) :
    (readText settings path : StateM Desk _).run d = (textOf settings (d.read path), d) := by
  unfold readText textOf
  change StateT.run (match d.read path with
    | .error e => _
    | .ok bytes => _) d = _
  cases d.read path with
  | error e => rfl
  | ok bytes =>
    dsimp only
    cases Encoding.ofName? settings.fileEncoding with
    | none => rfl
    | some encoding =>
      dsimp only
      cases encoding.decode bytes <;> rfl

theorem say_run (n : Note) :
    (say verbosity n : StateM Desk _).run d = ((), d.tell (seen verbosity [n]) []) := by
  unfold say seen
  by_cases h : (n.level : Int) ≤ verbosity
  · rw [if_pos h, List.filter_cons_of_pos (by simpa using h)]
    rfl
  · rw [if_neg h, List.filter_cons_of_neg (by simpa using h)]
    rfl

/-- A loop in which every step passes something on. -/
theorem tellAll_on {α : Type} {x : α → StateM Desk Unit} {notes : α → List Note}
    {complaints : α → List Text}
    (hx : ∀ a (d : Desk), (x a).run d = ((), d.tell (notes a) (complaints a))) (l : List α) :
    Job.on (forIn l PUnit.unit fun a _ => do
      x a
      return ForInStep.yield PUnit.unit) w d =
      ((.ok PUnit.unit, w), d.tell (l.flatMap notes) (l.flatMap complaints)) := by
  induction l generalizing d with
  | nil => rfl
  | cons a l ih =>
    have hstep : Job.on (do
        liftM (x a)
        return ForInStep.yield PUnit.unit) w d =
        ((.ok (ForInStep.yield PUnit.unit), w), d.tell (notes a) (complaints a)) :=
      Job.on_bind_ok (Job.on_lift (hx a d))
    rw [List.forIn_cons, Job.on_bind_ok hstep]
    dsimp only
    rw [ih, Desk.tell_tell, List.flatMap_cons, List.flatMap_cons]

theorem sayAll_on (notes : List Note) :
    Job.on (forIn notes PUnit.unit fun n _ => do
      (say verbosity n : StateM Desk Unit)
      return ForInStep.yield PUnit.unit) w d =
      ((.ok PUnit.unit, w), d.tell (seen verbosity notes) []) := by
  have hseen : (notes.flatMap fun n => seen verbosity [n]) = seen verbosity notes := by
    unfold seen
    rw [← List.filter_flatMap, List.flatMap_singleton']
  rw [tellAll_on w d (fun n d => say_run verbosity d n) notes, hseen, List.flatMap_eq_nil_iff.2]
  exact fun _ _ => rfl

theorem refuse_on {α : Type} (lines : List Text) :
    Job.on (refuse lines : Job (StateM Desk) α) w d = ((.error .refused, w), d.tell [] lines) := by
  have hcomplain : ∀ (line : Text) (d : Desk),
      (Host.complain line : StateM Desk Unit).run d = ((), d.tell [] [line]) := fun _ _ => rfl
  have hnotes : (lines.flatMap fun _ => ([] : List Note)) = [] :=
    List.flatMap_eq_nil_iff.2 fun _ _ => rfl
  unfold refuse
  rw [Job.on_bind_ok (tellAll_on w d hcomplain lines), hnotes, List.flatMap_singleton']
  rfl

end

/-! ## One file -/

namespace Desk

/-- A desk on which a compiled file is written if its text has changed and the run is not dry. -/
def rewrite (settings : Settings) (dryRun : Bool) (d : Desk) (f : Done) : Desk :=
  if f.changed && !dryRun then
    match Encoding.ofName? settings.fileEncoding with
    | some encoding => d.put f.place (encoding.encode f.text)
    | none => d
  else d

end Desk

section

variable (settings : Settings) (dryRun : Bool) (verbosity : Int) (context : Ref) {place : List Text}
  (w : World) (d : Desk)

theorem compileFile_unread {f : ReadFailure}
    (h : textOf settings (d.read (Path.display place)) = .error f) :
    Job.on (compileFile settings dryRun verbosity context place) w d =
      ((.error f.stop, w), d.tell [] (f.lines (Path.display place))) := by
  unfold compileFile
  rw [Job.on_bind_ok (Job.on_lift (readText_run settings d _)), h]
  cases f with
  | disk e => exact Job.on_bind_error (refuse_on w d _)
  | unknownEncoding => rfl
  | decode failure =>
    cases failure with
    | flaw f => exact Job.on_bind_error (refuse_on w d _)
    | noMark => rfl

theorem compileFile_unknown {source : Text}
    (h : textOf settings (d.read (Path.display place)) = .ok source)
    (hlexer : knowsLexer settings.lexerName = false) :
    Job.on (compileFile settings dryRun verbosity context place) w d =
      ((.error (.escaped .unknownLexer), w), d.tell (seen verbosity [.parsing source.length]) []) := by
  unfold compileFile
  rw [Job.on_bind_ok (Job.on_lift (readText_run settings d _)), h]
  dsimp only
  rw [pure_bind, if_pos (by rw [hlexer]; rfl), Job.on_bind_ok (Job.on_lift (say_run verbosity d _))]
  rfl

/-- What is left to do for a file once its text is compiled. -/
def concludeFile (place : List Text) (source : Text) :
    Except CompileError Text → Job (StateM Desk) Bool
  | .error (.parse .badLiteral) => throw (.escaped .badLiteral)
  | .error e => refuse (complaintLines (Path.display place) e)
  | .ok text => do
    let changed := text != source
    if changed && !dryRun then
      if let some encoding := Encoding.ofName? settings.fileEncoding then
        (Host.write (Path.display place) (encoding.encode text) : StateM Desk Unit)
    (say verbosity (.done (Path.display place)) : StateM Desk Unit)
    return changed

theorem compileFile_conclude {source : Text}
    (h : textOf settings (d.read (Path.display place)) = .ok source)
    (hlexer : knowsLexer settings.lexerName = true) :
    Job.on (compileFile settings dryRun verbosity context place) w d =
      Job.on (concludeFile settings dryRun verbosity place source
          (compile .allowed context source w).1.result)
        (compile .allowed context source w).2
        (d.tell (seen verbosity (compile .allowed context source w).1.notes) []) := by
  unfold compileFile
  rw [Job.on_bind_ok (Job.on_lift (readText_run settings d _)), h]
  dsimp only
  rw [pure_bind, if_neg (by rw [hlexer]; decide)]
  have hget : Job.on (get : Job (StateM Desk) World) w d = ((.ok w, w), d) := rfl
  rw [Job.on_bind_ok hget]
  obtain ⟨compilation, w'⟩ := compile .allowed context source w
  have hset : Job.on (set w' : Job (StateM Desk) PUnit) w d = ((.ok (), w'), d) := rfl
  dsimp only
  rw [Job.on_bind_ok hset, Job.on_bind_ok (sayAll_on verbosity w' d compilation.notes)]
  rfl

theorem compileFile_failed {source : Text} {e : CompileError}
    (h : textOf settings (d.read (Path.display place)) = .ok source)
    (hlexer : knowsLexer settings.lexerName = true)
    (he : (compile .allowed context source w).1.result = .error e) :
    Job.on (compileFile settings dryRun verbosity context place) w d =
      ((.error e.stop, (compile .allowed context source w).2),
        d.tell (seen verbosity (compile .allowed context source w).1.notes)
          (complaintLines (Path.display place) e)) := by
  have hrefuse := refuse_on (α := Bool) (compile .allowed context source w).2
    (d.tell (seen verbosity (compile .allowed context source w).1.notes) [])
    (complaintLines (Path.display place) e)
  rw [Desk.tell_tell, List.append_nil, List.nil_append] at hrefuse
  rw [compileFile_conclude settings dryRun verbosity context w d h hlexer, he]
  cases e with
  | eval f => exact hrefuse
  | parse f =>
    cases f with
    | mistakes cs => exact hrefuse
    | badLiteral => rfl

theorem concludeFile_ok (hplace : Path.IsPlace place) {old : List Byte}
    (hread : d.read (Path.display place) = .ok old) (source text : Text) :
    Job.on (concludeFile settings dryRun verbosity place source (.ok text)) w d =
      ((.ok (text != source), w), (d.rewrite settings dryRun ⟨place, source, text⟩).tell
        (seen verbosity [.done (Path.display place)]) []) := by
  have hsay : ∀ d : Desk, Job.on (do
      (say verbosity (.done (Path.display place)) : StateM Desk Unit)
      return text != source) w d =
      ((.ok (text != source), w), d.tell (seen verbosity [.done (Path.display place)]) []) :=
    fun d => Job.on_bind_ok (Job.on_lift (say_run verbosity d _))
  unfold concludeFile Desk.rewrite Done.changed
  dsimp only
  split
  · cases Encoding.ofName? settings.fileEncoding with
    | none => exact hsay d
    | some encoding =>
      have hwrite : (Host.write (Path.display place) (encoding.encode text) : StateM Desk Unit).run d =
          ((), d.write (Path.display place) (encoding.encode text)) := rfl
      rw [Desk.write_display hplace hread] at hwrite
      exact (Job.on_bind_ok (Job.on_lift hwrite)).trans (hsay _)
  · exact hsay d

end

theorem read_of_textOf {settings : Settings} {found : Except DiskError (List Byte)} {source : Text}
    (h : textOf settings found = .ok source) : ∃ bytes, found = .ok bytes := by
  cases found with
  | error e => cases h
  | ok bytes => exact ⟨bytes, rfl⟩

theorem Desk.rewrite_tell (settings : Settings) (dryRun : Bool) (d : Desk) (f : Done)
    (notes : List Note) (complaints : List Text) :
    (d.tell notes complaints).rewrite settings dryRun f =
      (d.rewrite settings dryRun f).tell notes complaints := by
  unfold rewrite
  split
  · split <;> rfl
  · rfl

/-- A file is compiled or the run stops at it, with the same notes and complaints in a dry run and in
another, on every desk where the same is found at its path. -/
theorem compileFile_on (settings : Settings) (verbosity : Int) (context : Ref) {place : List Text}
    (hplace : Path.IsPlace place) (found : Except DiskError (List Byte)) (w : World) :
    (∃ f w' notes, f.place = place ∧ Compiles settings context found w f w' ∧
      ∀ dryRun (d : Desk), d.read (Path.display place) = found →
        Job.on (compileFile settings dryRun verbosity context place) w d =
          ((.ok f.changed, w'), (d.rewrite settings dryRun f).tell notes [])) ∨
    ∃ stop w' notes complaints, Stops settings context found w stop w' ∧
      ∀ dryRun (d : Desk), d.read (Path.display place) = found →
        Job.on (compileFile settings dryRun verbosity context place) w d =
          ((.error stop, w'), d.tell notes complaints) := by
  cases hsource : textOf settings found with
  | error f =>
    refine .inr ⟨f.stop, w, [], f.lines (Path.display place), .unread hsource, fun dryRun d hd => ?_⟩
    exact compileFile_unread settings dryRun verbosity context w d (hd ▸ hsource)
  | ok source =>
    by_cases hlexer : knowsLexer settings.lexerName = true
    · cases hresult : (compile .allowed context source w).1.result with
      | error e =>
        refine .inr ⟨e.stop, _, seen verbosity (compile .allowed context source w).1.notes,
          complaintLines (Path.display place) e, .failed hsource hlexer hresult, fun dryRun d hd => ?_⟩
        exact compileFile_failed settings dryRun verbosity context w d (hd ▸ hsource) hlexer hresult
      | ok text =>
        refine .inl ⟨⟨place, source, text⟩, _,
          seen verbosity (compile .allowed context source w).1.notes ++
            seen verbosity [.done (Path.display place)],
          rfl, ⟨hsource, hlexer, hresult, rfl⟩, fun dryRun d hd => ?_⟩
        subst hd
        obtain ⟨old, hold⟩ := read_of_textOf hsource
        rw [compileFile_conclude settings dryRun verbosity context w d hsource hlexer, hresult,
          concludeFile_ok settings dryRun verbosity _ _ hplace (by rw [Desk.read_tell, hold]),
          Desk.rewrite_tell, Desk.tell_tell, List.append_nil]
        rfl
    · rw [Bool.not_eq_true] at hlexer
      refine .inr ⟨_, w, seen verbosity [.parsing source.length], [], .unknown hsource hlexer,
        fun dryRun d hd => ?_⟩
      exact compileFile_unknown settings dryRun verbosity context w d (hd ▸ hsource) hlexer

end GuardedText.Command
