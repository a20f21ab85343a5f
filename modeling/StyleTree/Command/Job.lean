import StyleTree.Command.Files
import StyleTree.Command.Line

/-!
# Jobs

What a command line asks for: the version, help, or a job with its files at hand. The files that the
options name are checked first, in the order of the options, then the style file, then whether
operands are left over.
-/

namespace StyleTree.Command

/-- A file that has been read. -/
structure Source where
  name : String
  text : String
  deriving DecidableEq, Repr

/-! ## Options -/

namespace OptionForm

def help : OptionForm := ⟨"--help", none, false⟩

def version : OptionForm := ⟨"--version", none, false⟩

def verbose : OptionForm := ⟨"--verbose", some 'v', false⟩

def selector : OptionForm := ⟨"--selector", some 's', true⟩

def breakpoints : OptionForm := ⟨"--breakpoints", some 'b', true⟩

def palette : OptionForm := ⟨"--palette", none, false⟩

def output : OptionForm := ⟨"--output", some 'o', true⟩

end OptionForm

/-- The options of the program itself, which stand before the command. -/
def programOptions : List OptionForm :=
  [.version, .verbose, .help]

def Verb.options : Verb → List OptionForm
  | compile => [.selector, .breakpoints, .palette, .output, .help]
  | validate => [.breakpoints, .help]
  | inspect => [.breakpoints, .help]

/-! ## From the command line to the job -/

/-- A command line that has been read. -/
inductive Reading where
  | version
  | help (verb : Option Verb)
  | command (verbose : Bool) (verb : Verb) (words : Words)
  deriving DecidableEq, Repr

/-- Reads the words behind a command. -/
def readCommand (verbose : Bool) (verb : Verb) (args : List String) :
    Except UsageError Reading := do
  let words ← (readWords verb.options true none args).mapError fun fault => ⟨some verb, fault⟩
  return if words.flag .help then .help (some verb) else .command verbose verb words

/-- Reads words as options of the program and what is left behind them. -/
def readProgram (args : List String) : Except UsageError Words :=
  (readWords programOptions false none args).mapError fun fault => ⟨none, fault⟩

/-- The reading that the options of the program ask for before any command. Of the version and help
the one that is asked for first is given. -/
def Words.early? (words : Words) : Option Reading :=
  (words.given.find? fun g => g.form == .version || g.form == .help).map fun g =>
    if g.form == .version then .version else .help none

/-- Reads a command line. What stands where the command should be and is none is read as options of
the program once more, so that a `--` before them does not count. -/
def readLine (args : List String) : Except UsageError Reading := do
  if args.isEmpty then return .help none
  let words ← readProgram args
  match words.early?, words.operands with
  | some reading, _ => return reading
  | none, [] => .error ⟨none, .commandMissing⟩
  | none, name :: rest =>
    match Verb.ofName? name with
    | some verb => readCommand (words.flag .verbose) verb rest
    | none =>
      match (← readProgram words.operands).early? with
      | some reading => return reading
      | none => .error ⟨none, .unknownCommand name (Text.similarTo name (Verb.all.map Verb.name))⟩

/-- The names that a command line refers to, of files and of the directories on their way. -/
def fileNames (args : List String) : List String :=
  match readLine args with
  | .ok (.command _ _ words) =>
    let names := words.given.filterMap Given.value ++ words.operands
    names ++ names.flatMap foldersOf
  | _ => []

structure Job where
  verb : Verb
  verbose : Bool
  style : Source
  breakpoints : Option Source
  palette : Bool
  /-- The root selector of a style sheet; an empty one is none. -/
  selector : Option String
  /-- The file to write to; an empty name is none. -/
  output : Option String
  deriving DecidableEq, Repr

def noneIfEmpty (s : Option String) : Option String :=
  s.filter (· ≠ "")

/-- The file that an input names. -/
def Files.source (files : Files) (parameter name : String) : Except UsageFault Source :=
  match files name with
  | .missing => .error (.noFile parameter name)
  | .directory => .error (.isDirectory parameter name)
  | .text contents => .ok ⟨name, contents⟩

/-- Checks the file of an option: an input is to exist, and an output is to be no directory. -/
def Files.checkOption (files : Files) (words : Words) (form : OptionForm) :
    Except UsageFault Unit :=
  match words.value? form with
  | none => .ok ()
  | some name =>
    if form = .breakpoints then (files.source form.parameter name).map fun _ => ()
    else if form = .output ∧ files name = .directory then
      .error (.isDirectory form.parameter name)
    else .ok ()

def jobOf (files : Files) (verbose : Bool) (verb : Verb) (words : Words) :
    Except UsageFault Job := do
  (words.given.map Given.form).forM (files.checkOption words)
  match words.operands with
  | [] => .error .operandMissing
  | name :: left =>
    let style ← files.source s!"'{styleOperand}'" name
    let breakpoints ←
      (words.value? .breakpoints).mapM (files.source OptionForm.breakpoints.parameter)
    if !left.isEmpty then .error (.operandsLeft left)
    else return {
      verb
      verbose
      style
      breakpoints
      palette := words.flag .palette
      selector := noneIfEmpty (words.value? .selector)
      output := noneIfEmpty (words.value? .output) }

end StyleTree.Command
