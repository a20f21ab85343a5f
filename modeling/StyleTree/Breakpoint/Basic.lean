import StyleTree.Text.Quoted

/-!
# Breakpoints

A breakpoint is a named media predicate. It inherits from others when the styles declared for those
are also visible at it; a mobile-only breakpoint applies at its own width and nowhere else.
-/

namespace StyleTree

/-- What is wrong with a breakpoint or with a collection of them. -/
inductive BreakpointFault where
  | emptyName
  | emptyPredicate (name : String)
  | duplicate (name : String)
  | mobileOnlyInherits (name : String)
  | inheritsItself (name : String)
  | inheritsUnknown (name parent : String)
  | inheritsMobileOnly (name parent : String)
  /-- The description of a breakpoint is neither a text nor a mapping. -/
  | describedAs (name : String)
  | blankPredicate (name : String)
  | parentsShape (name : String)
  deriving DecidableEq, Repr

def BreakpointFault.message : BreakpointFault → String
  | emptyName => "Breakpoint name must be a non-empty string"
  | emptyPredicate name => s!"Breakpoint '{name}' needs a media predicate"
  | duplicate name => s!"Duplicate breakpoint name: {Text.quoted name}"
  | mobileOnlyInherits name =>
    s!"Mobile-only breakpoint '{name}' cannot inherit from other breakpoints"
  | inheritsItself name => s!"Breakpoint '{name}' cannot inherit from itself"
  | inheritsUnknown name parent =>
    s!"Breakpoint '{name}' inherits from unknown breakpoint '{parent}'"
  | inheritsMobileOnly name parent =>
    s!"Breakpoint '{name}' cannot inherit from mobile-only breakpoint '{parent}'"
  | describedAs name => s!"Breakpoint '{name}' must be a string or a mapping"
  | blankPredicate name => s!"Breakpoint '{name}' needs a non-empty string predicate"
  | parentsShape name =>
    s!"Breakpoint '{name}': inherits_from must be a name or a list of names"

structure Breakpoint where
  name : String
  predicate : String
  inheritsFrom : List String := []
  mobileOnly : Bool := false
  name_ne : name ≠ "" := by decide
  predicate_ne : predicate ≠ "" := by decide
  deriving DecidableEq, Repr

namespace Breakpoint

def make (name predicate : String) (inheritsFrom : List String) (mobileOnly : Bool) :
    Except BreakpointFault Breakpoint :=
  if hn : name = "" then .error .emptyName
  else if hp : predicate = "" then .error (.emptyPredicate name)
  else .ok ⟨name, predicate, inheritsFrom, mobileOnly, hn, hp⟩

/-- What a media rule for the breakpoint starts with. -/
def media (b : Breakpoint) : String :=
  "@media " ++ b.predicate

end Breakpoint

end StyleTree
