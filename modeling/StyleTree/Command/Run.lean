import StyleTree.Command.Load
import StyleTree.Compile
import StyleTree.Entry
import StyleTree.Lint.Validate
import StyleTree.Text.ControlSequence

/-!
# Running commands

What a command line comes to: an exit code, texts for the two output streams, perhaps a file to
write. An error that no command reports is kept as it is.
-/

namespace StyleTree.Command

/-- An error that ends the program without a report. -/
inductive Uncaught where
  | compile (e : CompileError)
  | write (fault : WriteFault)
  deriving DecidableEq, Repr

def Uncaught.message : Uncaught → String
  | compile e => e.message
  | write fault => fault.message

structure Outcome where
  exitCode : Nat := 0
  stdout : String := ""
  stderr : String := ""
  /-- A file to write: its name and its text. -/
  written : Option (String × String) := none
  uncaught : Option Uncaught := none
  deriving DecidableEq, Repr

/-- What an output stream shows of lines. -/
def textOf (lines : List String) : String :=
  Text.withoutSequences (String.join (lines.map (· ++ "\n")))

def failed (message : String) : Outcome :=
  { exitCode := 1, stderr := textOf [message] }

def LoadError.outcome (e : LoadError) : Outcome :=
  failed s!"Error: {e.message}"

def UsageError.outcome (e : UsageError) : Outcome :=
  { exitCode := 2, stderr := textOf e.lines }

namespace Job

/-! ## Compiling -/

/-- What is compiled for a job: the output, and the text that is made of it. -/
def compiled (job : Job) (c : Config) (tree : Mapping) :
    Except CompileError (Output × String) :=
  match job.selector with
  | none => (compile c (.mapping tree) none none).map fun o => (o, o.css)
  | some selector =>
    (compileRoot c selector (.mapping tree)).map fun o => (o, o.standalone selector)

/-- The line that a verbose job reports about its output. -/
def trace (job : Job) (c : Config) (o : Output) : List String :=
  if job.verbose then
    [s!"DEBUG nestcss.compiler.compiler: Compiled {Text.quoted (c.scopeOf job.selector)}: " ++
      s!"{o.declarations.length} declaration bytes, {o.rules.length} auxiliary rule(s)"]
  else []

def compileOutcome (job : Job) (c : Config) (tree : Mapping) : Outcome :=
  match job.compiled c tree with
  | .error (.malformed fault) => failed s!"Style error: {fault.message}"
  | .error e => { exitCode := 1, uncaught := some (.compile e) }
  | .ok (o, result) =>
    let stderr := textOf (job.trace c o)
    match job.output with
    | none => { stdout := textOf [result], stderr }
    | some file =>
      { stdout := textOf [s!"Wrote {result.length} bytes to {file}"]
        stderr
        written := some (plainName file, result ++ "\n") }

/-! ## Validating -/

def validateOutcome (job : Job) (c : Config) (tree : Mapping) : Outcome :=
  let found := Lint.validate c tree []
  if found.isEmpty then
    { stdout := textOf [s!"OK: {baseName job.style.name} is valid (0 diagnostics)"] }
  else
    let count (severity : Lint.Severity) : Nat :=
      found.countP fun d => d.severity = severity
    let summary := s!"Summary: {count .error} error(s), {count .warning} warning(s), " ++
      s!"{count .info} info"
    { exitCode := if count .error = 0 then 0 else 1
      stdout := textOf (found.map Lint.Diagnostic.render ++ ["", summary]) }

/-! ## Inspecting -/

/-- The line of an entry, indented by its depth; the value of a property is shown. -/
def entryLine (e : Entry) : String :=
  let indent := String.join (List.replicate e.path.length "  ")
  let value := if e.kind = .property then e.value.display? else none
  s!"{indent}{e.key}  [{e.kind.name}]" ++ (value.map (" = " ++ ·)).getD ""

def inspectOutcome (c : Config) (tree : Mapping) : Outcome :=
  let found := entries c tree []
  let counts := KeyKind.all.map fun kind =>
    s!"{found.countP fun e => e.kind = kind} {kind.name}"
  { stdout := textOf (found.map entryLine ++ ["", "Summary: " ++ ", ".intercalate counts]) }

/-! ## Any job -/

/-- Runs a job. Inspection loads the breakpoints before the style, the others after it. -/
def run (job : Job) : Outcome :=
  let style := loadStyle job.style
  let config := loadConfig job.breakpoints job.palette
  match job.verb, style, config with
  | .inspect, _, .error e => e.outcome
  | _, .error e, _ => e.outcome
  | _, _, .error e => e.outcome
  | .compile, .ok tree, .ok c => job.compileOutcome c tree
  | .validate, .ok tree, .ok c => job.validateOutcome c tree
  | .inspect, .ok tree, .ok c => inspectOutcome c tree

end Job

/-- An outcome that has nothing to tell but why its file cannot be written, if it cannot. -/
def Outcome.checkWrite (o : Outcome) (files : Files) : Outcome :=
  match o.written.bind fun (name, _) => files.writeFault? name with
  | none => o
  | some fault => { exitCode := 1, stderr := o.stderr, uncaught := some (.write fault) }

/-- Runs a command line. -/
def run (files : Files) (args : List String) : Outcome :=
  match readLine args with
  | .error e => e.outcome
  | .ok .version => { stdout := textOf [s!"{program}, version {version}"] }
  | .ok (.help verb) => { stdout := textOf [usageLine verb] }
  | .ok (.command verbose verb words) =>
    match jobOf files verbose verb words with
    | .error fault => UsageError.outcome ⟨some verb, fault⟩
    | .ok job => job.run.checkWrite files

end StyleTree.Command
