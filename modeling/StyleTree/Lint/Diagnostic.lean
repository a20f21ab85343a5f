import StyleTree.Path

/-!
# Diagnostics

A diagnostic reports something about a style tree: which rule found it, how serious it is, what and
where it is, and how it can be mended.
-/

namespace StyleTree.Lint

inductive Severity where
  | error
  | warning
  | info
  deriving DecidableEq, Repr

def Severity.name : Severity → String
  | error => "ERROR"
  | warning => "WARNING"
  | info => "INFO"

structure Diagnostic where
  rule : String
  severity : Severity
  message : String
  path : Path
  fix : Option String
  deriving DecidableEq, Repr

namespace Diagnostic

def isError (d : Diagnostic) : Bool :=
  d.severity = .error

def isWarning (d : Diagnostic) : Bool :=
  d.severity = .warning

def render (d : Diagnostic) : String :=
  s!"{d.severity.name} [{Path.display d.path}]: {d.message}"

end Diagnostic

end StyleTree.Lint
