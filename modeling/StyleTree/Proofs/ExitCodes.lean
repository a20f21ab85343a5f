import StyleTree.Proofs.CommandLines

/-!
# Exit codes

A style that validation passes is one that compiles. The exit code of either command only tells
whether the files hold a tree that is well formed, so two command lines about the same files exit
with the same code, whatever palette and selector one of them compiles for.
-/

namespace StyleTree.Command

variable {files : Files} {args args' : List String} {job job' : Job}

/-- Of two jobs about the same files, validating the one and compiling the other both pass or both
fail. -/
theorem Job.exitCode_run_of_same_files (hverb : job.verb = .validate)
    (hverb' : job'.verb = .compile) (hstyle : job'.style = job.style)
    (hbreakpoints : job'.breakpoints = job.breakpoints)
    (hselector : job'.hasBlankSelector = false) :
    (job.run.exitCode = 0 ∧ job'.run.exitCode = 0) ∨
      (job.run.exitCode = 1 ∧ job'.run.exitCode = 1) := by
  have hvalidate : job.run.PassesIf job.HoldsWellFormed :=
    passesIf_run (by rw [hverb]; decide) fun hv => by
      rw [hverb] at hv
      cases hv
  have hcompile : job'.run.PassesIf job'.HoldsWellFormed :=
    passesIf_run (by rw [hverb']; decide) fun _ => hselector
  rcases hvalidate with ⟨hwf, hexit⟩ | ⟨hwf, hexit⟩
  · have hwf' := hwf.of_same_files hstyle hbreakpoints
    exact .inl ⟨hexit, hcompile.exitCode_of hwf'⟩
  · have hwf' : ¬ job'.HoldsWellFormed :=
      fun h => hwf (h.of_same_files hstyle.symm hbreakpoints.symm)
    exact .inr ⟨hexit, hcompile.exitCode_of_not hwf'⟩

/-- Validation and compilation of the same files both pass or both fail. -/
theorem validate_passes_with_compile (hasks : Asks files args job) (hasks' : Asks files args' job')
    (hverb : job.verb = .validate) (hverb' : job'.verb = .compile)
    (hstyle : job'.style = job.style) (hbreakpoints : job'.breakpoints = job.breakpoints)
    (houtput : job'.output = none) (hselector : job'.hasBlankSelector = false) :
    ((run files args).exitCode = 0 ∧ (run files args').exitCode = 0) ∨
      ((run files args).exitCode = 1 ∧ (run files args').exitCode = 1) := by
  have hwritten : job.verb = .compile → job.output = none := fun hv => by
    rw [hverb] at hv
    cases hv
  rw [run_eq_of_asks hasks hwritten, run_eq_of_asks hasks' fun _ => houtput]
  exact Job.exitCode_run_of_same_files hverb hverb' hstyle hbreakpoints hselector

/-- A block for `tablet`. -/
def tabletStyle : Source :=
  ⟨"card.json", "\x7b\"tablet\": \x7b\"gap\": 2\x7d\x7d"⟩

/-- A registry without that breakpoint. -/
def wideRegistry : Source :=
  ⟨"wide.json", "\x7b\"wide\": \"screen\"\x7d"⟩

def tabletFiles : Files :=
  .only [tabletStyle, wideRegistry]

def validateTablet (breakpoints : Option Source) : Job :=
  { verb := .validate
    verbose := false
    style := tabletStyle
    breakpoints
    palette := false
    selector := none
    output := none }

def compileTablet (breakpoints : Option Source) : Job :=
  { verb := .compile
    verbose := false
    style := tabletStyle
    breakpoints
    palette := true
    selector := some ".card"
    output := none }

theorem asks_validateTablet :
    Asks tabletFiles ["validate", "card.json"] (validateTablet none) ∧
      Asks tabletFiles ["validate", "card.json", "-b", "wide.json"]
        (validateTablet (some wideRegistry)) :=
  ⟨⟨⟨[], ["card.json"]⟩, by decide +kernel, by decide +kernel⟩,
    ⟨⟨[⟨.breakpoints, some "wide.json"⟩], ["card.json"]⟩, by decide +kernel, by decide +kernel⟩⟩

theorem asks_compileTablet :
    Asks tabletFiles ["compile", "-s", ".card", "--palette", "card.json"] (compileTablet none) ∧
      Asks tabletFiles ["compile", "-s", ".card", "--palette", "-bwide.json", "card.json"]
        (compileTablet (some wideRegistry)) :=
  ⟨⟨⟨[⟨.selector, some ".card"⟩, ⟨.palette, none⟩], ["card.json"]⟩, by decide +kernel,
      by decide +kernel⟩,
    ⟨⟨[⟨.selector, some ".card"⟩, ⟨.palette, none⟩, ⟨.breakpoints, some "wide.json"⟩],
      ["card.json"]⟩, by decide +kernel, by decide +kernel⟩⟩

theorem hasBlankSelector_compileTablet (breakpoints : Option Source) :
    (compileTablet breakpoints).hasBlankSelector = false := by
  have hblank : Text.isBlank ".card" = false := by decide +kernel
  exact hblank

/-- Both pass with the standard registry, and both fail with the one that has no such breakpoint. -/
theorem validate_passes_with_compile_sample :
    (∀ breakpoints, (compileTablet breakpoints).style = (validateTablet breakpoints).style ∧
      (compileTablet breakpoints).breakpoints = (validateTablet breakpoints).breakpoints ∧
      (compileTablet breakpoints).output = none ∧
      (compileTablet breakpoints).hasBlankSelector = false) ∧
    (Asks tabletFiles ["validate", "card.json"] (validateTablet none) ∧
      Asks tabletFiles ["compile", "-s", ".card", "--palette", "card.json"] (compileTablet none) ∧
      (run tabletFiles ["validate", "card.json"]).exitCode = 0 ∧
      (run tabletFiles ["compile", "-s", ".card", "--palette", "card.json"]).exitCode = 0) ∧
    Asks tabletFiles ["validate", "card.json", "-b", "wide.json"]
        (validateTablet (some wideRegistry)) ∧
      Asks tabletFiles ["compile", "-s", ".card", "--palette", "-bwide.json", "card.json"]
        (compileTablet (some wideRegistry)) ∧
      (run tabletFiles ["validate", "card.json", "-b", "wide.json"]).exitCode = 1 ∧
      (run tabletFiles ["compile", "-s", ".card", "--palette", "-bwide.json",
        "card.json"]).exitCode = 1 := by
  obtain ⟨hasks, hasksWide⟩ := asks_validateTablet
  obtain ⟨hasks', hasksWide'⟩ := asks_compileTablet
  have hselector := hasBlankSelector_compileTablet
  have hpasses : (run tabletFiles ["validate", "card.json"]).exitCode = 0 := by decide +kernel
  have hfails : (run tabletFiles ["validate", "card.json", "-b", "wide.json"]).exitCode = 1 := by
    decide +kernel
  refine ⟨fun breakpoints => ⟨rfl, rfl, rfl, hselector breakpoints⟩, ⟨hasks, hasks', ?_⟩,
    hasksWide, hasksWide', ?_⟩
  · rcases validate_passes_with_compile hasks hasks' rfl rfl rfl rfl rfl (hselector none) with
      hboth | ⟨hfailed, -⟩
    · exact hboth
    · rw [hpasses] at hfailed
      cases hfailed
  · rcases validate_passes_with_compile hasksWide hasksWide' rfl rfl rfl rfl rfl
      (hselector (some wideRegistry)) with ⟨hpassed, -⟩ | hboth
    · rw [hfails] at hpassed
      cases hpassed
    · exact hboth

end StyleTree.Command
