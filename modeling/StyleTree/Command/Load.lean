import StyleTree.Breakpoint.Table
import StyleTree.Command.Job
import StyleTree.Config
import StyleTree.Json.Reader

/-!
# Loading

A style file holds a style tree as a JSON object, a breakpoint file the description of a registry
that takes the place of the standard one.
-/

namespace StyleTree.Command

inductive LoadError where
  | notJson (file message : String)
  | notObject (file : String)
  | badBreakpoints (file message : String)
  deriving DecidableEq, Repr

def LoadError.message : LoadError → String
  | notJson file message => s!"Invalid JSON in {file}: {message}"
  | notObject file => s!"{file} must contain a JSON object"
  | badBreakpoints file message => s!"Invalid breakpoints in {file}: {message}"

def loadStyle (source : Source) : Except LoadError Mapping :=
  match Json.readText source.text with
  | .error message => .error (.notJson source.name message)
  | .ok (.mapping tree) => .ok tree
  | .ok _ => .error (.notObject source.name)

def loadBreakpoints (source : Source) : Except LoadError Registry :=
  match Json.readText source.text with
  | .error message => .error (.badBreakpoints source.name message)
  | .ok (.mapping m) =>
    (Registry.ofMapping m).mapError fun fault => .badBreakpoints source.name fault.message
  | .ok _ => .error (.badBreakpoints source.name "breakpoint file must contain a JSON object")

def loadConfig (breakpoints : Option Source) (palette : Bool) : Except LoadError Config := do
  let registry ← match breakpoints with
    | none => .ok Registry.standard
    | some source => loadBreakpoints source
  return { Config.standard with
    breakpoints := registry
    constants := if palette then Constants.palette else [] }

end StyleTree.Command
