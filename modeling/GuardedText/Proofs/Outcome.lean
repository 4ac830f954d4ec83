import GuardedText.Compile
import GuardedText.Proofs.Block.Outline
import GuardedText.Proofs.Guard.Compile

/-
  How compiling a script ends (`compile_outcome`): with a text, with the complaints about its directives
  or with a failure of its guards, unless a guard has a string with a number in braces beyond the code
  points or an integer of too many digits. Such a literal stops the parse, and then nothing is said
  about the other directives (`compile_outcome_unspelled`).
-/

namespace GuardedText

section

variable (waiting : Waiting) (context : Ref) {source : Text} (w : World)

theorem compile_of_parse_error {failure : ParseFailure}
    (h : (Block.parse source).2 = .error failure) :
    (compile waiting context source w).1.result = .error (.parse failure) := by
  simp only [compile, h]

/-- A script whose directives form blocks gives a text, or its guards fail. -/
theorem compile_of_parse_ok {blocks : List Block} (h : (Block.parse source).2 = .ok blocks) :
    (∃ text, (compile waiting context source w).1.result = .ok text) ∨
      ∃ failure, (compile waiting context source w).1.result = .error (.eval failure) := by
  cases blocks with
  | nil =>
    simp only [compile, h]
    exact Or.inl ⟨source, rfl⟩
  | cons b bs =>
    simp only [compile, h]
    generalize Compilation.evaluate waiting context (b :: bs) w = evaluated
    obtain ⟨notes, marks, failure, v⟩ := evaluated
    cases failure with
    | none => exact Or.inl ⟨_, rfl⟩
    | some failure => exact Or.inr ⟨failure, rfl⟩

/-- A script with mistakes gives all of them. -/
theorem compile_of_entries {entries : List Complaint}
    (h : Block.entries? (Block.parse source).2 = some entries) (hsome : entries ≠ []) :
    (compile waiting context source w).1.result = .error (.parse (.mistakes entries)) := by
  refine compile_of_parse_error waiting context w ?_
  cases hparse : (Block.parse source).2 with
  | ok blocks =>
    rw [hparse] at h
    cases h
    exact absurd rfl hsome
  | error failure =>
    rw [hparse] at h
    cases failure with
    | mistakes complaints =>
      cases h
      rfl
    | badLiteral => cases h

/-- A script without mistakes gives a text, or its guards fail. -/
theorem compile_of_no_entries (h : Block.entries? (Block.parse source).2 = some []) :
    (∃ text, (compile waiting context source w).1.result = .ok text) ∨
      ∃ failure, (compile waiting context source w).1.result = .error (.eval failure) := by
  cases hparse : (Block.parse source).2 with
  | ok blocks => exact compile_of_parse_ok waiting context w hparse
  | error failure =>
    rw [hparse] at h
    cases failure with
    | mistakes complaints =>
      cases h
      exact absurd rfl (Block.mistakes_ne_nil hparse)
    | badLiteral => cases h

end

/-- How compiling a script ends. A guard in which a literal is misspelled may stop it: a string with
a number in braces beyond the code points, or an integer of too many digits. All other guards that do
not compile are complained about, together with every other mistake, and a script without mistakes
gives a text, or its guards fail. -/
theorem compile_outcome (waiting : Waiting) (context : Ref) (source : Text) (w : World) :
    let result := (compile waiting context source w).1.result
    let directives := Directive.scan source
    (result = .error (.parse .badLiteral) ↔ ∃ d ∈ directives, d.Stops) ∧
    (∀ d ∈ directives, d.Stops →
      ∃ t, Guard.Spelled d.payload t ∧ ∃ node ∈ t.nodes, node.Misspelled) ∧
    ((∀ d ∈ directives, ¬ d.Stops) →
      (∀ d ∈ directives, d.tag.takesGuard = true → (∀ g, ¬ d.Compiles g) →
        ∃ m, d.guardMistake? = some m ∧ m.kind = "invalid_expression" ∧
          ⟨m, d.span.position⟩ ∈ Outline.complaints [] directives) ∧
      (Outline.complaints [] directives ≠ [] →
        result = .error (.parse (.mistakes (Outline.complaints [] directives)))) ∧
      (Outline.complaints [] directives = [] →
        (∃ text, result = .ok text) ∨ ∃ failure, result = .error (.eval failure))) := by
  intro result directives
  have hentries (h : ∀ d ∈ directives, ¬ d.Stops) :
      Block.entries? (Block.parse source).2 = some (Outline.complaints [] directives) :=
    Block.entries?_ofDirectives h
  have hgoes (h : ∀ d ∈ directives, ¬ d.Stops) : Outline.complaints [] directives = [] →
      (∃ text, result = .ok text) ∨ ∃ failure, result = .error (.eval failure) := by
    intro hnone
    have hentries := hentries h
    rw [hnone] at hentries
    exact compile_of_no_entries waiting context w hentries
  have hrefused (h : ∀ d ∈ directives, ¬ d.Stops) : Outline.complaints [] directives ≠ [] →
      result = .error (.parse (.mistakes (Outline.complaints [] directives))) :=
    compile_of_entries waiting context w (hentries h)
  refine ⟨⟨fun hresult => ?_, fun hstops => ?_⟩, fun d _ hstops => ?_,
    fun h => ⟨?_, hrefused h, hgoes h⟩⟩
  · by_contra hnone
    have h : ∀ d ∈ directives, ¬ d.Stops := fun d hd hstops => hnone ⟨d, hd, hstops⟩
    by_cases hclean : Outline.complaints [] directives = []
    · rcases hgoes h hclean with ⟨text, htext⟩ | ⟨failure, hfailure⟩
      · rw [hresult] at htext
        cases htext
      · rw [hresult] at hfailure
        cases hfailure
    · rw [hrefused h hclean] at hresult
      cases hresult
  · exact compile_of_parse_error waiting context w (Block.ofDirectives_of_stops hstops)
  · exact Guard.misspelled_of_compile hstops.2.2
  · intro d hd htag hguard
    obtain ⟨m, hm, hkind⟩ := Directive.exists_guardMistake? hguard
    exact ⟨m, hm, hkind, Outline.mem_complaints hd htag hm []⟩

/-- A guard with a number in braces beyond the code points, and an `#endif` too many. -/
def unspelledSample : Text := "// #if '\\u\x7b110000\x7d'\n// #endif\n// #endif"

/-- Neither the guard nor the `#endif` is complained about. -/
theorem compile_outcome_unspelled :
    (compile .forbidden 0 unspelledSample {}).1.result = .error (.parse .badLiteral) := by
  have hnone : Block.entries? (Block.parse unspelledSample).2 = none := by decide +kernel
  refine compile_of_parse_error .forbidden 0 {} ?_
  cases hparse : (Block.parse unspelledSample).2 with
  | ok blocks =>
    rw [hparse] at hnone
    cases hnone
  | error failure =>
    rw [hparse] at hnone
    cases failure with
    | mistakes complaints => cases hnone
    | badLiteral => rfl

end GuardedText
