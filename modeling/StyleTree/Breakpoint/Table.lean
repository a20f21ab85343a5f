import StyleTree.Breakpoint.Registry
import StyleTree.Text.Blank
import StyleTree.Value

/-!
# Registries as mappings

A registry is described by a mapping from names to breakpoints. A breakpoint is described by a
mapping with a predicate, the names it inherits from, and whether it is mobile-only; a text stands
for the predicate alone.
-/

namespace StyleTree.Registry

/-- The text of every item, if all items are texts. -/
def allTexts? : List Value → Option (List String)
  | [] => some []
  | .text s :: rest => (allTexts? rest).map (s :: ·)
  | _ :: _ => none

/-- The parents that a description lists: one name, or a sequence of names. -/
def parents? : Option Value → Option (List String)
  | none => some []
  | some (.text s) => some [s]
  | some v => v.items?.bind allTexts?

def describedBreakpoint (name : String) (description : Mapping) :
    Except BreakpointFault Breakpoint :=
  match description.get? "predicate" with
  | some (.text predicate) =>
    if Text.isBlank predicate then .error (.blankPredicate name)
    else match parents? (description.get? "inherits_from") with
      | none => .error (.parentsShape name)
      | some parents =>
        let mobileOnly := (description.get? "mobile_only").any Value.isTruthy
        Breakpoint.make name predicate parents mobileOnly
  | _ => .error (.blankPredicate name)

def breakpointOf (name : String) : Value → Except BreakpointFault Breakpoint
  | .text predicate => describedBreakpoint name [("predicate", .text predicate)]
  | .mapping description => describedBreakpoint name description
  | _ => .error (.describedAs name)

/-- Reads a registry from its description, in the order of the mapping. -/
def ofMapping (m : Mapping) : Except BreakpointFault Registry := do
  let bs ← m.mapM fun (name, description) => breakpointOf name description
  ofList bs

def describe (b : Breakpoint) : Value :=
  .mapping
    [("predicate", .text b.predicate),
     ("inherits_from", .list (b.inheritsFrom.map .text)),
     ("mobile_only", .flag b.mobileOnly)]

/-- The description of a registry. -/
def toMapping (r : Registry) : Mapping :=
  r.toList.map fun b => (b.name, describe b)

end StyleTree.Registry
