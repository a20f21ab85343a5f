import StyleTree.Proofs.CommandLines

/-!
# Reports

A command that fails says why. What it can fail of are the files, the style and what the linter finds
in it, and each of these has its own report. The one error that leaves a command without a report is
that of a blank selector: compiling for it is refused, but the command only reports faults of the
style.
-/

namespace StyleTree.Command

variable {files : Files} {args : List String} {job : Job} {c : Config} {tree : Mapping}

/-- What a failure of the job shows: why a file cannot be loaded, the fault that the compiler has
met, or all that the linter has found, with an error among it. -/
inductive Job.Reports (job : Job) (o : Outcome) : Prop where
  | unloaded {e : LoadError} (cause : job.Unloaded e)
      (shown : o.stderr = textOf [s!"Error: {e.message}"])
  | malformed {c : Config} {tree : Mapping} {f : Fault} (loads : job.Loads c tree)
      (cause : job.compiled c tree = .error (.malformed f))
      (shown : o.stderr = textOf [s!"Style error: {f.message}"])
  | found {c : Config} {tree : Mapping} {d : Lint.Diagnostic} {summary : List String}
      (loads : job.Loads c tree) (mem : d ∈ Lint.validate c tree []) (cause : d.isError = true)
      (shown : o.stdout =
        textOf ((Lint.validate c tree []).map Lint.Diagnostic.render ++ summary))

/-- The outcome of the job is a success or a failure that is reported, and no error is left. -/
structure Job.Settles (job : Job) (o : Outcome) : Prop where
  uncaught : o.uncaught = none
  exitCode : o.exitCode = 0 ∨ o.exitCode = 1 ∧ job.Reports o

/-- The job compiles what its files hold for a blank selector. -/
def Job.CompilesBlank (job : Job) : Prop :=
  job.verb = .compile ∧ job.hasBlankSelector = true ∧ ∃ c tree, job.Loads c tree

/-! ## One command after the other -/

theorem Job.settles_of_unloaded {e : LoadError} (h : job.Unloaded e) : job.Settles e.outcome :=
  ⟨rfl, .inr ⟨rfl, .unloaded h rfl⟩⟩

theorem Job.settles_compileOutcome (hloads : job.Loads c tree)
    (hblank : job.hasBlankSelector = false) : job.Settles (job.compileOutcome c tree) := by
  unfold compileOutcome
  rcases compiled_cases hblank c tree with ⟨-, r, hr⟩ | ⟨-, f, hf⟩
  · simp only [hr]
    cases job.output with
    | none => exact ⟨rfl, .inl rfl⟩
    | some file => exact ⟨rfl, .inl rfl⟩
  · simp only [hf]
    exact ⟨rfl, .inr ⟨rfl, .malformed hloads hf rfl⟩⟩

theorem Job.settles_validateOutcome (hloads : job.Loads c tree) :
    job.Settles (job.validateOutcome c tree) := by
  have huncaught : (job.validateOutcome c tree).uncaught = none := by
    obtain ⟨exitCode, stdout, heq⟩ := job.exists_validateOutcome_eq c tree
    rw [heq]
  refine ⟨huncaught, ?_⟩
  by_cases hwf : WellFormed c tree
  · exact .inl (job.exitCode_validateOutcome hwf)
  · obtain ⟨hexit, summary, hshown⟩ := hloads.validateOutcome_of_not_wellFormed hwf
    have herror : ∃ d ∈ Lint.validate c tree [], d.isError = true := by
      by_contra hnone
      refine hwf (hloads.wellFormed_iff.mpr fun d hd => ?_)
      exact Bool.eq_false_iff.mpr fun herror => hnone ⟨d, hd, herror⟩
    obtain ⟨d, hd, herror⟩ := herror
    exact .inr ⟨hexit, .found hloads hd herror hshown⟩

/-- Compiling for a blank selector is the only way for a job not to settle. -/
theorem Job.settles_run (h : ¬ job.CompilesBlank) : job.Settles job.run := by
  rcases job.run_cases with ⟨e, hunloaded, hrun⟩ | ⟨c, tree, hloads, hrun⟩
  · rw [hrun]
    exact settles_of_unloaded hunloaded
  · rw [hrun]
    unfold outcome
    cases hverb : job.verb with
    | compile =>
      refine settles_compileOutcome hloads (Bool.eq_false_iff.mpr fun hblank => ?_)
      exact h ⟨hverb, hblank, c, tree, hloads⟩
    | validate => exact settles_validateOutcome hloads
    | inspect => exact ⟨rfl, .inl rfl⟩

theorem Job.run_of_compilesBlank (h : job.CompilesBlank) :
    job.run = { exitCode := 1, uncaught := some (.compile .blankSelector) } := by
  obtain ⟨hverb, hblank, c, tree, hloads⟩ := h
  rcases job.run_cases with ⟨e, hunloaded, -⟩ | ⟨c', tree', -, hrun⟩
  · exact absurd hunloaded hloads.not_unloaded
  · rw [hrun]
    unfold outcome
    rw [hverb]
    unfold compileOutcome
    rw [compiled_of_blank hblank]

/-- A job settles exactly if it does not compile for a blank selector. -/
theorem Job.settles_run_iff : job.Settles job.run ↔ ¬ job.CompilesBlank := by
  refine ⟨fun h hblank => ?_, settles_run⟩
  have huncaught := h.uncaught
  rw [run_of_compilesBlank hblank] at huncaught
  cases huncaught

/-! ## Any command line -/

/-- A command line that writes no file passes or fails with a report, unless it compiles for a blank
selector what its files hold: then the error of the compiler is left, and nothing is shown. -/
theorem run_reports (hasks : Asks files args job) (houtput : job.output = none) :
    (¬ job.CompilesBlank → job.Settles (run files args)) ∧
      (job.CompilesBlank →
        run files args = { exitCode := 1, uncaught := some (.compile .blankSelector) }) := by
  rw [run_eq_of_asks hasks fun _ => houtput]
  exact ⟨Job.settles_run_iff.mpr, Job.run_of_compilesBlank⟩

/-- A modifier without a name, compiled for a class. -/
def namelessModifier : Job :=
  { verb := .compile
    verbose := false
    style := ⟨"card.json", "\x7b\"class\": \x7b\"color\": \"red\"\x7d\x7d"⟩
    breakpoints := none
    palette := false
    selector := some ".card"
    output := none }

theorem namelessModifier_stands : namelessModifier.Stands (.only [namelessModifier.style]) where
  style := by decide +kernel
  breakpoints := fun _ hb => nomatch hb
  output := fun _ houtput => nomatch houtput
  selector := fun _ hs => by cases hs; decide
  options := fun hverb => absurd rfl hverb

theorem run_reports_sample :
    Asks (.only [namelessModifier.style]) namelessModifier.line namelessModifier ∧
      namelessModifier.output = none ∧ ¬ namelessModifier.CompilesBlank ∧
      namelessModifier.Settles (run (.only [namelessModifier.style]) namelessModifier.line) ∧
      (run (.only [namelessModifier.style]) namelessModifier.line).stderr =
        "Style error: spec is missing required 'name' string (at class)\n" := by
  have hasks := asks_line namelessModifier_stands
  have hblank : ¬ namelessModifier.CompilesBlank := fun h => absurd h.2.1 (by decide +kernel)
  exact ⟨hasks, rfl, hblank, (run_reports hasks rfl).1 hblank, by decide +kernel⟩

/-- Compiling an empty tree for a lone blank leaves an error that is not reported. -/
theorem run_blank_selector :
    ∃ job, Asks (.only [⟨"s.json", "\x7b\x7d"⟩]) ["compile", "s.json", "-s", " "] job ∧
      job.output = none ∧
      ¬ job.Settles (run (.only [⟨"s.json", "\x7b\x7d"⟩]) ["compile", "s.json", "-s", " "]) := by
  have hrun : run (.only [⟨"s.json", "\x7b\x7d"⟩]) ["compile", "s.json", "-s", " "] =
      { exitCode := 1, uncaught := some (.compile .blankSelector) } := by decide +kernel
  refine ⟨⟨.compile, false, ⟨"s.json", "\x7b\x7d"⟩, none, false, some " ", none⟩, ?_, rfl, ?_⟩
  · exact ⟨⟨[⟨.selector, some " "⟩], ["s.json"]⟩, by decide +kernel, by decide +kernel⟩
  · rintro ⟨huncaught, -⟩
    rw [hrun] at huncaught
    cases huncaught

end StyleTree.Command
