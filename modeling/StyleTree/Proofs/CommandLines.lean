import StyleTree.Proofs.Outcomes
import StyleTree.Proofs.Results

/-!
# Command lines and jobs

With the files at hand a command line asks for a job. Every job whose files are there can be asked
for: its options can be written out in front of the style file (`asks_line`), whatever the names of
the files and the selector are. What a command line comes to is what its job comes to, as long as no
file is written (`run_eq_of_asks`).
-/

namespace StyleTree.Command

variable {files : Files} {job : Job} {args : List String}

/-- These files, and nothing else. -/
def Files.only (sources : List Source) : Files := fun name =>
  match sources.find? fun source => source.name == name with
  | none => .missing
  | some source => .text source.text

/-- With these files the command line comes to the job. -/
def Asks (files : Files) (args : List String) (job : Job) : Prop :=
  ∃ words, readLine args = .ok (.command job.verbose job.verb words) ∧
    jobOf files job.verbose job.verb words = .ok job

/-! ## Running a command line -/

theorem run_eq_of_asks (hasks : Asks files args job)
    (h : job.verb = .compile → job.output = none) : run files args = job.run := by
  obtain ⟨words, hread, hjob⟩ := hasks
  unfold run
  simp only [hread, hjob]
  rw [Outcome.checkWrite, Job.written_eq_none h]
  rfl

/-! ## Writing out a job -/

def Given.words (g : Given) : List String :=
  g.form.long :: g.value.toList

/-- The options of the job that differ from what holds without them. -/
def Job.given (job : Job) : List Given :=
  (job.selector.map fun s => ⟨.selector, some s⟩).toList ++
    (job.breakpoints.map fun b => ⟨.breakpoints, some b.name⟩).toList ++
    (if job.palette then [⟨.palette, none⟩] else []) ++
    (job.output.map fun name => ⟨.output, some name⟩).toList

/-- The words behind the command. -/
def Job.words (job : Job) : List String :=
  job.given.flatMap Given.words ++ ["--", job.style.name]

/-- A command line for the job. -/
def Job.line (job : Job) : List String :=
  if job.verbose then OptionForm.verbose.long :: job.verb.name :: job.words
  else job.verb.name :: job.words

/-- The files of the job are there, and its command takes its options. -/
structure Job.Stands (files : Files) (job : Job) : Prop where
  style : files job.style.name = .text job.style.text
  breakpoints : ∀ b ∈ job.breakpoints, files b.name = .text b.text
  output : ∀ name ∈ job.output, name ≠ "" ∧ files name ≠ .directory
  selector : ∀ s ∈ job.selector, s ≠ ""
  options : job.verb ≠ .compile → job.selector = none ∧ job.palette = false ∧ job.output = none

/-- An option by its long name is read as that option, which waits for its value if it takes one. -/
theorem readOption_long {verb : Verb} {form : OptionForm} (h : form ∈ verb.options) :
    (form.long ≠ "--" ∧ isOptionWord form.long = true) ∧
      readOption verb.options form.long =
        .ok (if form.takesValue then ([], some ⟨form, form.long⟩) else ([⟨form, none⟩], none)) := by
  cases verb <;> simp only [Verb.options, List.mem_cons, List.not_mem_nil, or_false] at h
  · rcases h with rfl | rfl | rfl | rfl | rfl <;> exact ⟨by decide, rfl⟩
  · rcases h with rfl | rfl <;> exact ⟨by decide, rfl⟩
  · rcases h with rfl | rfl <;> exact ⟨by decide, rfl⟩

/-- Options that are written out are read again. -/
theorem readWords_given {verb : Verb} {gs : List Given}
    (h : ∀ g ∈ gs, g.form ∈ verb.options ∧ g.value.isSome = g.form.takesValue) (name : String) :
    readWords verb.options true none (gs.flatMap Given.words ++ ["--", name]) =
      .ok ⟨gs, [name]⟩ := by
  induction gs with
  | nil => rfl
  | cons g rest ih =>
    obtain ⟨⟨hform, hvalue⟩, hrest⟩ := List.forall_mem_cons.mp h
    obtain ⟨⟨hne, hword⟩, hread⟩ := readOption_long hform
    obtain ⟨form, value⟩ := g
    rw [List.flatMap_cons, Given.words, List.append_assoc, List.cons_append, readWords,
      if_neg hne, if_pos hword, hread]
    cases value with
    | none =>
      have htakes : form.takesValue = false := hvalue.symm
      rw [htakes]
      exact bind_eq_ok.mpr ⟨_, rfl, bind_eq_ok.mpr ⟨_, ih hrest, rfl⟩⟩
    | some v =>
      have htakes : form.takesValue = true := hvalue.symm
      rw [htakes]
      refine bind_eq_ok.mpr ⟨_, rfl, bind_eq_ok.mpr ⟨⟨⟨form, some v⟩ :: rest, [name]⟩, ?_, rfl⟩⟩
      exact bind_eq_ok.mpr ⟨_, ih hrest, rfl⟩

/-! ## What is read of a job that is written out -/

section
variable (operands : List String)

theorem flag_palette : Words.flag ⟨job.given, operands⟩ .palette = job.palette := by
  obtain ⟨_, _, _, _ | _, _ | _, _ | _, _ | _⟩ := job <;> rfl

theorem flag_help : Words.flag ⟨job.given, operands⟩ .help = false := by
  obtain ⟨_, _, _, _ | _, _ | _, _ | _, _ | _⟩ := job <;> rfl

theorem value?_selector : Words.value? ⟨job.given, operands⟩ .selector = job.selector := by
  obtain ⟨_, _, _, _ | _, _ | _, _ | _, _ | _⟩ := job <;> rfl

theorem value?_breakpoints :
    Words.value? ⟨job.given, operands⟩ .breakpoints = job.breakpoints.map Source.name := by
  obtain ⟨_, _, _, _ | _, _ | _, _ | _, _ | _⟩ := job <;> rfl

theorem value?_output : Words.value? ⟨job.given, operands⟩ .output = job.output := by
  obtain ⟨_, _, _, _ | _, _ | _, _ | _, _ | _⟩ := job <;> rfl

theorem value?_palette : Words.value? ⟨job.given, operands⟩ .palette = none := by
  obtain ⟨_, _, _, _ | _, _ | _, _ | _, _ | _⟩ := job <;> rfl

end

theorem mem_given {g : Given} (h : g ∈ job.given) :
    (∃ s, job.selector = some s ∧ g = ⟨.selector, some s⟩) ∨
      (∃ b, job.breakpoints = some b ∧ g = ⟨.breakpoints, some b.name⟩) ∨
      (job.palette = true ∧ g = ⟨.palette, none⟩) ∨
      ∃ name, job.output = some name ∧ g = ⟨.output, some name⟩ := by
  unfold Job.given at h
  simp only [List.mem_append, Option.mem_toList, Option.map_eq_some_iff, or_assoc] at h
  rcases h with ⟨s, hs, rfl⟩ | ⟨b, hb, rfl⟩ | h | ⟨name, hname, rfl⟩
  · exact .inl ⟨s, hs, rfl⟩
  · exact .inr (.inl ⟨b, hb, rfl⟩)
  · split at h
    · rename_i hpalette
      exact .inr (.inr (.inl ⟨hpalette, List.mem_singleton.mp h⟩))
    · cases h
  · exact .inr (.inr (.inr ⟨name, hname, rfl⟩))

theorem breakpoints_mem_options (verb : Verb) : OptionForm.breakpoints ∈ verb.options := by
  cases verb <;> decide

/-- The options of a job are among those of its command, with values where they take them. -/
theorem Job.Stands.fits_given (h : job.Stands files) {g : Given} (hg : g ∈ job.given) :
    g.form ∈ job.verb.options ∧ g.value.isSome = g.form.takesValue := by
  by_cases hverb : job.verb = .compile
  · have hcompile : ∀ form ∈ [OptionForm.selector, .palette, .output], form ∈ job.verb.options := by
      rw [hverb]
      decide
    rcases mem_given hg with ⟨s, -, rfl⟩ | ⟨b, -, rfl⟩ | ⟨-, rfl⟩ | ⟨name, -, rfl⟩
    · exact ⟨hcompile .selector (by decide), rfl⟩
    · exact ⟨breakpoints_mem_options _, rfl⟩
    · exact ⟨hcompile .palette (by decide), rfl⟩
    · exact ⟨hcompile .output (by decide), rfl⟩
  · obtain ⟨hselector, hpalette, houtput⟩ := h.options hverb
    rcases mem_given hg with ⟨s, hs, -⟩ | ⟨b, -, rfl⟩ | ⟨hp, -⟩ | ⟨name, hname, -⟩
    · cases hselector.symm.trans hs
    · exact ⟨breakpoints_mem_options _, rfl⟩
    · cases hpalette.symm.trans hp
    · cases houtput.symm.trans hname

theorem Job.Stands.checkOption_given (h : job.Stands files) (operands : List String) {g : Given}
    (hg : g ∈ job.given) : files.checkOption ⟨job.given, operands⟩ g.form = .ok () := by
  unfold Files.checkOption
  rcases mem_given hg with ⟨s, hs, rfl⟩ | ⟨b, hb, rfl⟩ | ⟨-, rfl⟩ | ⟨name, hname, rfl⟩
  · simp only [value?_selector, hs]
    rfl
  · simp only [value?_breakpoints, hb]
    unfold Files.source
    simp only [Option.map_some, h.breakpoints b hb]
    rfl
  · simp only [value?_palette]
  · rw [value?_output, hname]
    have hform : OptionForm.output ≠ .breakpoints := by decide
    have hdirectory : ¬ (OptionForm.output = .output ∧ files name = .directory) :=
      fun hd => (h.output name hname).2 hd.2
    exact (if_neg hform).trans (if_neg hdirectory)

theorem source_of_text {name text : String} (parameter : String) (h : files name = .text text) :
    files.source parameter name = .ok ⟨name, text⟩ := by
  unfold Files.source
  rw [h]

theorem noneIfEmpty_eq_self {s : Option String} (h : ∀ a ∈ s, a ≠ "") : noneIfEmpty s = s := by
  cases s with
  | none => rfl
  | some a => exact Option.filter_some_pos (decide_eq_true (h a rfl))

/-- The options of a job and its file make up the job. -/
theorem jobOf_given (h : job.Stands files) :
    jobOf files job.verbose job.verb ⟨job.given, [job.style.name]⟩ = .ok job := by
  have hchecks : (job.given.map Given.form).forM (files.checkOption ⟨job.given, [job.style.name]⟩) =
      .ok () := by
    refine forM_eq_ok.mpr fun form hform => ?_
    obtain ⟨g, hg, rfl⟩ := List.mem_map.mp hform
    exact h.checkOption_given _ hg
  have hbreakpoints : ((Words.value? ⟨job.given, [job.style.name]⟩ .breakpoints).mapM
      (files.source OptionForm.breakpoints.parameter)) = .ok job.breakpoints := by
    rw [value?_breakpoints]
    cases hb : job.breakpoints with
    | none => rfl
    | some b =>
      exact bind_eq_ok.mpr ⟨b, source_of_text _ (h.breakpoints b hb), rfl⟩
  unfold jobOf
  refine bind_eq_ok.mpr ⟨(), hchecks, bind_eq_ok.mpr ⟨_, source_of_text _ h.style, ?_⟩⟩
  refine bind_eq_ok.mpr ⟨_, hbreakpoints, ?_⟩
  rw [flag_palette, value?_selector, value?_output, noneIfEmpty_eq_self h.selector,
    noneIfEmpty_eq_self fun name hname => (h.output name hname).1]
  rfl

/-- The words of a job behind its command are read as its options and its file. -/
theorem readCommand_words (h : job.Stands files) (verbose : Bool) :
    readCommand verbose job.verb job.words =
      .ok (.command verbose job.verb ⟨job.given, [job.style.name]⟩) := by
  have hread := readWords_given (fun g hg => h.fits_given hg) job.style.name
  refine bind_eq_ok.mpr ⟨_, mapError_eq_ok.mpr hread, ?_⟩
  rw [flag_help]
  rfl

theorem readLine_verb (verb : Verb) (words : List String) :
    readLine (verb.name :: words) = readCommand false verb words := by
  cases verb <;> rfl

theorem readLine_verbose (verb : Verb) (words : List String) :
    readLine (OptionForm.verbose.long :: verb.name :: words) = readCommand true verb words := by
  cases verb <;> rfl

/-- The line that is written out for a job asks for it. -/
theorem asks_line (h : job.Stands files) : Asks files job.line job := by
  refine ⟨_, ?_, jobOf_given h⟩
  unfold Job.line
  cases hverbose : job.verbose with
  | false => exact (readLine_verb _ _).trans (readCommand_words h false)
  | true => exact (readLine_verbose _ _).trans (readCommand_words h true)

end StyleTree.Command
