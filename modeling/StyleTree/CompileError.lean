import StyleTree.Breakpoint.Registry
import StyleTree.Fault

/-!
# Why a style tree is not compiled

A tree can be malformed, the media context to start in can be unknown, and the selector of a style
sheet can be blank. The look-ups of breakpoints and pseudo keys on the way have errors of their own.
-/

namespace StyleTree

inductive CompileError where
  | malformed (fault : Fault)
  /-- The media context to start in is no breakpoint of the configuration. -/
  | unknownMedia (name : String)
  | blankSelector
  | unknownBreakpoint (unknown : UnknownBreakpoint)
  | unknownPseudo (key : String)
  deriving DecidableEq, Repr

def CompileError.message : CompileError → String
  | malformed fault => fault.message
  | unknownMedia name => s!"Unknown media context: {Text.quoted name}"
  | blankSelector => "stylesheet() needs a non-empty selector"
  | unknownBreakpoint unknown => unknown.message
  | unknownPseudo key => s!"Unknown pseudo key: {Text.quoted key}"

/-- A fault at `path` ends the compilation. -/
def malformedAt {α : Type} (path : Path) (reason : Reason) : Except CompileError α :=
  .error (.malformed ⟨reason, path⟩)

end StyleTree
