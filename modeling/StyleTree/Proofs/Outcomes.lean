import StyleTree.Command.Run
import StyleTree.Proofs.ReadValues
import StyleTree.Proofs.Verdict

/-!
# What jobs come to

A job whose files cannot be loaded tells so. Otherwise compiling and validating pass exactly if the
tree is well formed (`PassesIf`), whichever of the two it is: a file has no specs that are hidden from
the linter, so it finds an error where the compiler does, and neither the selector nor the palette has
a part in it. A blank selector is the one thing that compiling refuses after loading and does not
report.
-/

namespace StyleTree

theorem Config.SameChecks.wellFormed_iff {c c' : Config} (h : c.SameChecks c') {tree : Mapping} :
    WellFormed c tree ↔ WellFormed c' tree := by
  rw [WellFormed, WellFormed]
  rcases (sameVerdict_itemsOf h tree none []).eq_ok_or_eq_error with
    ⟨items, items', hitems, hitems'⟩ | ⟨e, he, he'⟩
  · exact iff_of_true ⟨items, hitems⟩ ⟨items', hitems'⟩
  · rw [he, he']

/-- A tree that is well formed compiles for every scope, and another has a fault. -/
theorem compile_cases (c : Config) (tree : Mapping) (scope : Option String) :
    (WellFormed c tree ∧ ∃ o, compile c (.mapping tree) scope none = .ok o) ∨
      (¬ WellFormed c tree ∧
        ∃ f, compile c (.mapping tree) scope none = .error (.malformed f)) := by
  rcases compile_ok_or_malformed Registry.admits_none tree scope with ⟨o, ho⟩ | ⟨f, hf⟩
  · exact .inl ⟨(compile_eq_ok.mp ho).2.1, o, ho⟩
  · refine .inr ⟨fun hwf => ?_, f, hf⟩
    rw [compile_eq_ok.mpr ⟨Registry.admits_none, hwf, rfl⟩] at hf
    cases hf

namespace Command

variable {job job' : Job} {c c' : Config} {tree : Mapping}

/-! ## Loading -/

/-- The files of the job hold this configuration and this tree. -/
structure Job.Loads (job : Job) (c : Config) (tree : Mapping) : Prop where
  style : loadStyle job.style = .ok tree
  config : loadConfig job.breakpoints job.palette = .ok c

/-- In a style file no specs are hidden from the rules. -/
theorem Job.Loads.nothingHidden (h : job.Loads c tree) : NothingHidden (entries c tree []) := by
  have hstyle := h.style
  unfold loadStyle at hstyle
  split at hstyle
  · cases hstyle
  · rename_i hread
    cases hstyle
    exact (Json.listsOnly_readText hread).nothingHidden c
  · cases hstyle

theorem Job.Loads.wellFormed_iff (h : job.Loads c tree) :
    WellFormed c tree ↔ ∀ d ∈ Lint.validate c tree [], d.isError = false :=
  Lint.wellFormed_iff_validate h.nothingHidden

def loadRegistry : Option Source → Except LoadError Registry
  | none => .ok .standard
  | some source => loadBreakpoints source

/-- The standard configuration with this registry, and with the palette for constants or none. -/
def configWith (palette : Bool) (registry : Registry) : Config :=
  { Config.standard with
    breakpoints := registry
    constants := if palette then Constants.palette else [] }

theorem loadConfig_eq (breakpoints : Option Source) (palette : Bool) :
    loadConfig breakpoints palette = (loadRegistry breakpoints).map (configWith palette) := by
  cases breakpoints with
  | none => rfl
  | some source =>
    unfold loadConfig loadRegistry
    cases loadBreakpoints source <;> rfl

/-- The palette has no part in whether the configuration is loaded or in how entries are read. -/
theorem exists_loadConfig {breakpoints : Option Source} {palette : Bool} (palette' : Bool)
    (h : loadConfig breakpoints palette = .ok c) :
    ∃ c', loadConfig breakpoints palette' = .ok c' ∧ c.SameChecks c' := by
  rw [loadConfig_eq] at h ⊢
  cases hregistry : loadRegistry breakpoints with
  | error e =>
    rw [hregistry] at h
    cases h
  | ok registry =>
    rw [hregistry] at h
    cases h
    exact ⟨_, rfl, rfl, rfl, fun _ => Iff.rfl, fun _ => Iff.rfl⟩

/-- Jobs with the same files load the same tree and configurations that read entries alike. -/
theorem Job.Loads.exists_of_same_files (h : job.Loads c tree) (hstyle : job'.style = job.style)
    (hbreakpoints : job'.breakpoints = job.breakpoints) :
    ∃ c', job'.Loads c' tree ∧ c.SameChecks c' := by
  obtain ⟨c', hc', hsame⟩ := exists_loadConfig job'.palette h.config
  exact ⟨c', ⟨hstyle ▸ h.style, hbreakpoints ▸ hc'⟩, hsame⟩

/-- The files of the job hold a tree that is well formed. -/
def Job.HoldsWellFormed (job : Job) : Prop :=
  ∃ c tree, job.Loads c tree ∧ WellFormed c tree

theorem Job.Loads.holdsWellFormed_iff (h : job.Loads c tree) :
    job.HoldsWellFormed ↔ WellFormed c tree := by
  refine ⟨fun ⟨c', tree', h', hwf⟩ => ?_, fun hwf => ⟨c, tree, h, hwf⟩⟩
  cases h.style.symm.trans h'.style
  cases h.config.symm.trans h'.config
  exact hwf

/-- Nothing but the files of a job has a part in it. -/
theorem Job.HoldsWellFormed.of_same_files (h : job.HoldsWellFormed)
    (hstyle : job'.style = job.style) (hbreakpoints : job'.breakpoints = job.breakpoints) :
    job'.HoldsWellFormed := by
  obtain ⟨c, tree, hloads, hwf⟩ := h
  obtain ⟨c', hloads', hsame⟩ := hloads.exists_of_same_files hstyle hbreakpoints
  exact ⟨c', tree, hloads', hsame.wellFormed_iff.mp hwf⟩

/-- What the job comes to once its files are loaded. -/
def Job.outcome (job : Job) (c : Config) (tree : Mapping) : Outcome :=
  match job.verb with
  | .compile => job.compileOutcome c tree
  | .validate => job.validateOutcome c tree
  | .inspect => inspectOutcome c tree

/-- A file of the job cannot be loaded for this reason. -/
def Job.Unloaded (job : Job) (e : LoadError) : Prop :=
  loadStyle job.style = .error e ∨ loadConfig job.breakpoints job.palette = .error e

theorem Job.Loads.not_unloaded {e : LoadError} (h : job.Loads c tree) : ¬ job.Unloaded e := by
  rintro (hstyle | hconfig)
  · cases h.style.symm.trans hstyle
  · cases h.config.symm.trans hconfig

/-- A job tells why a file cannot be loaded, or comes to what its files say. -/
theorem Job.run_cases (job : Job) :
    (∃ e, job.Unloaded e ∧ job.run = e.outcome) ∨
      ∃ c tree, job.Loads c tree ∧ job.run = job.outcome c tree := by
  unfold run outcome
  cases hstyle : loadStyle job.style with
  | error e =>
    cases hconfig : loadConfig job.breakpoints job.palette with
    | error e' =>
      cases job.verb with
      | inspect => exact .inl ⟨e', .inr hconfig, rfl⟩
      | compile | validate => exact .inl ⟨e, .inl hstyle, rfl⟩
    | ok c => cases job.verb <;> exact .inl ⟨e, .inl hstyle, rfl⟩
  | ok tree =>
    cases hconfig : loadConfig job.breakpoints job.palette with
    | error e => cases job.verb <;> exact .inl ⟨e, .inr hconfig, rfl⟩
    | ok c => cases job.verb <;> exact .inr ⟨c, tree, ⟨hstyle, hconfig⟩, rfl⟩

theorem Job.written_compileOutcome (h : job.output = none) :
    (job.compileOutcome c tree).written = none := by
  unfold compileOutcome
  rw [h]
  split <;> rfl

/-- Validation does nothing but show something. -/
theorem Job.exists_validateOutcome_eq (job : Job) (c : Config) (tree : Mapping) :
    ∃ exitCode stdout, job.validateOutcome c tree = { exitCode, stdout } := by
  unfold validateOutcome
  simp only
  split
  · exact ⟨_, _, rfl⟩
  · exact ⟨_, _, rfl⟩

/-- Only compiling to a file writes one. -/
theorem Job.written_eq_none (h : job.verb = .compile → job.output = none) :
    job.run.written = none := by
  rcases job.run_cases with ⟨e, -, hrun⟩ | ⟨c, tree, -, hrun⟩
  · rw [hrun]
    rfl
  · rw [hrun]
    unfold outcome
    cases hverb : job.verb with
    | compile => exact written_compileOutcome (h hverb)
    | validate =>
      obtain ⟨exitCode, stdout, heq⟩ := job.exists_validateOutcome_eq c tree
      simp only [heq]
    | inspect => rfl

/-! ## Passing -/

/-- The outcome passes if the condition holds, and fails otherwise. -/
def Outcome.PassesIf (o : Outcome) (p : Prop) : Prop :=
  (p ∧ o.exitCode = 0) ∨ (¬ p ∧ o.exitCode = 1)

theorem Outcome.PassesIf.exitCode_of {o : Outcome} {p : Prop} (h : o.PassesIf p) (hp : p) :
    o.exitCode = 0 :=
  h.elim And.right fun hnot => absurd hp hnot.1

theorem Outcome.PassesIf.exitCode_of_not {o : Outcome} {p : Prop} (h : o.PassesIf p) (hp : ¬ p) :
    o.exitCode = 1 :=
  h.elim (fun hpasses => absurd hpasses.1 hp) And.right

/-- The selector of the job is given and blank. -/
def Job.hasBlankSelector (job : Job) : Bool :=
  job.selector.any Text.isBlank

theorem Job.compiled_of_blank (h : job.hasBlankSelector = true) :
    job.compiled c tree = .error .blankSelector := by
  unfold hasBlankSelector at h
  unfold compiled
  cases hs : job.selector with
  | none =>
    rw [hs] at h
    cases h
  | some selector =>
    rw [hs] at h
    have hroot : compileRoot c selector (.mapping tree) = .error .blankSelector := if_pos h
    simp only [hroot]
    rfl

theorem Job.compiled_cases (h : job.hasBlankSelector = false) (c : Config) (tree : Mapping) :
    (WellFormed c tree ∧ ∃ r, job.compiled c tree = .ok r) ∨
      (¬ WellFormed c tree ∧ ∃ f, job.compiled c tree = .error (.malformed f)) := by
  unfold hasBlankSelector at h
  unfold compiled
  cases hs : job.selector with
  | none =>
    refine (compile_cases c tree none).imp (And.imp_right ?_) (And.imp_right ?_)
    · rintro ⟨o, ho⟩
      exact ⟨(o, o.css), by simp only [ho]; rfl⟩
    · rintro ⟨f, hf⟩
      exact ⟨f, by simp only [hf]; rfl⟩
  | some selector =>
    rw [hs] at h
    have hroot : compileRoot c selector (.mapping tree) =
        compile c (.mapping tree) (some selector) none := if_neg (Bool.eq_false_iff.mp h)
    refine (compile_cases c tree (some selector)).imp (And.imp_right ?_) (And.imp_right ?_)
    · rintro ⟨o, ho⟩
      exact ⟨(o, o.standalone selector), by simp only [hroot, ho]; rfl⟩
    · rintro ⟨f, hf⟩
      exact ⟨f, by simp only [hroot, hf]; rfl⟩

theorem Job.passesIf_compileOutcome (h : job.hasBlankSelector = false) :
    (job.compileOutcome c tree).PassesIf (WellFormed c tree) := by
  unfold compileOutcome
  rcases compiled_cases h c tree with ⟨hwf, r, hr⟩ | ⟨hwf, f, hf⟩
  · refine .inl ⟨hwf, ?_⟩
    simp only [hr]
    cases job.output <;> rfl
  · refine .inr ⟨hwf, ?_⟩
    simp only [hf]
    rfl

theorem countP_error_eq_zero {ds : List Lint.Diagnostic} :
    ds.countP (fun d => d.severity = .error) = 0 ↔ ∀ d ∈ ds, d.isError = false := by
  rw [List.countP_eq_zero]
  exact forall₂_congr fun _ _ => Bool.not_eq_true _ ▸ Iff.rfl

theorem Job.exitCode_validateOutcome (job : Job) (h : WellFormed c tree) :
    (job.validateOutcome c tree).exitCode = 0 := by
  unfold validateOutcome
  simp only
  split
  · rfl
  · exact if_pos (countP_error_eq_zero.mpr (Lint.no_error_of_wellFormed h))

/-- Validation that finds an error fails, and shows all that it found. -/
theorem Job.Loads.validateOutcome_of_not_wellFormed (hloads : job.Loads c tree)
    (h : ¬ WellFormed c tree) :
    (job.validateOutcome c tree).exitCode = 1 ∧ ∃ summary,
      (job.validateOutcome c tree).stdout =
        textOf ((Lint.validate c tree []).map Lint.Diagnostic.render ++ summary) := by
  have hcount := mt (hloads.wellFormed_iff.mpr ∘ countP_error_eq_zero.mp) h
  unfold Job.validateOutcome
  simp only
  split
  · rename_i hempty
    rw [List.isEmpty_iff.mp hempty] at hcount
    exact absurd rfl hcount
  · exact ⟨rfl, _, rfl⟩

theorem Job.Loads.passesIf_validateOutcome (hloads : job.Loads c tree) :
    (job.validateOutcome c tree).PassesIf (WellFormed c tree) := by
  by_cases h : WellFormed c tree
  · exact .inl ⟨h, job.exitCode_validateOutcome h⟩
  · exact .inr ⟨h, (hloads.validateOutcome_of_not_wellFormed h).1⟩

/-- Compiling for a selector that is not blank and validating pass exactly if the files hold a tree
that is well formed. -/
theorem Job.passesIf_run (hverb : job.verb ≠ .inspect)
    (h : job.verb = .compile → job.hasBlankSelector = false) :
    job.run.PassesIf job.HoldsWellFormed := by
  rcases job.run_cases with ⟨e, hunloaded, hrun⟩ | ⟨c, tree, hloads, hrun⟩
  · rw [hrun]
    exact .inr ⟨fun ⟨_, _, hloads, _⟩ => hloads.not_unloaded hunloaded, rfl⟩
  · rw [hrun, hloads.holdsWellFormed_iff]
    unfold outcome
    cases hv : job.verb with
    | compile => exact passesIf_compileOutcome (h hv)
    | validate => exact hloads.passesIf_validateOutcome
    | inspect => exact absurd hv hverb

end Command

end StyleTree
