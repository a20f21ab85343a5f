import StyleTree.Text.Quoted

/-!
# Usage errors

What can be wrong with a command line, and the page that reports it: how the command is used, where
to find help, and the error.
-/

namespace StyleTree.Command

def program : String := "nestcss"

def version : String := "0.1.0"

inductive Verb where
  | compile
  | validate
  | inspect
  deriving DecidableEq, Repr

namespace Verb

def name : Verb → String
  | compile => "compile"
  | validate => "validate"
  | inspect => "inspect"

def all : List Verb :=
  [compile, validate, inspect]

def ofName? (name : String) : Option Verb :=
  all.find? fun verb => verb.name == name

end Verb

inductive UsageFault where
  | unknownOption (name : String) (similar : List String)
  | valueMissing (name : String)
  | valueRefused (name : String)
  | commandMissing
  | unknownCommand (name : String) (similar : List String)
  | operandMissing
  | operandsLeft (operands : List String)
  | noFile (parameter name : String)
  | isDirectory (parameter name : String)
  deriving DecidableEq, Repr

/-- The operand of every command. -/
def styleOperand : String := "STYLEFILE"

/-- What an unknown name is followed by: the names that may be meant. -/
def suggestion : List String → String
  | [] => ""
  | [one] => s!" Did you mean {Text.quoted one}?"
  | many => " (Did you mean one of: " ++ ", ".intercalate (many.map Text.quoted) ++ "?)"

def UsageFault.message : UsageFault → String
  | unknownOption name similar => s!"No such option {Text.quoted name}." ++ suggestion similar
  | valueMissing name => s!"Option {Text.quoted name} requires an argument."
  | valueRefused name => s!"Option {Text.quoted name} does not take a value."
  | commandMissing => "Missing command."
  | unknownCommand name similar => s!"No such command {Text.quoted name}." ++ suggestion similar
  | operandMissing => s!"Missing argument '{styleOperand}'."
  | operandsLeft [one] => s!"Got unexpected extra argument ({one})"
  | operandsLeft operands =>
    "Got unexpected extra arguments (" ++ " ".intercalate operands ++ ")"
  | noFile parameter name =>
    s!"Invalid value for {parameter}: File {Text.quoted name} does not exist."
  | isDirectory parameter name =>
    s!"Invalid value for {parameter}: File {Text.quoted name} is a directory."

/-- A usage error, of a command or of the program as a whole. -/
structure UsageError where
  verb : Option Verb
  fault : UsageFault
  deriving DecidableEq, Repr

/-- The words that call a command, or the program. -/
def callOf : Option Verb → String
  | none => program
  | some verb => program ++ " " ++ verb.name

def usageLine (verb : Option Verb) : String :=
  let operands := if verb.isSome then styleOperand else "COMMAND [ARGS]..."
  s!"Usage: {callOf verb} [OPTIONS] {operands}"

/-- Whether the fault is that an option lacks its value or has one that it does not take. -/
def UsageFault.aboutValue : UsageFault → Bool
  | valueMissing _ | valueRefused _ => true
  | _ => false

/-- The page of an error. One about the value of an option stands alone. -/
def UsageError.lines (e : UsageError) : List String :=
  let usage := [usageLine e.verb, s!"Try '{callOf e.verb} --help' for help.", ""]
  (if e.fault.aboutValue then [] else usage) ++ [s!"Error: {e.fault.message}"]

end StyleTree.Command
