import StyleTree.Path
import StyleTree.Value

/-!
# Faults of a style tree

What makes a style tree malformed, and where. A message gives the reason and then the location.
-/

namespace StyleTree

inductive Reason where
  /-- The root is no mapping. -/
  | rootNotMapping (typeName : String)
  /-- A block stands under a key that opens none. -/
  | nestedBlock (key modifierKey childKey : String)
  | booleanValue (property : String)
  | bareNumber (property : String) (value : Number)
  | nonFinite (property : String) (value : Number)
  | unsupportedType (property typeName : String)
  | paramMissing (key : String)
  | paramType (typeName : String)
  /-- A sequence of specs without items. -/
  | emptySpecs (key : String)
  | specShape (key typeName : String)
  | specField (field : String)
  deriving DecidableEq, Repr

def Reason.message : Reason → String
  | rootNotMapping typeName => s!"Style tree must be a mapping, got {typeName}"
  | nestedBlock key modifierKey childKey =>
    s!"'{key}' is not a pseudo, breakpoint, '{modifierKey}' or '{childKey}' key " ++
      "and cannot hold a nested block"
  | booleanValue property => s!"Boolean is not a valid value for '{property}'"
  | bareNumber property value => s!"'{property}' does not accept a bare number ({value.text})"
  | nonFinite property value => s!"'{property}' has a non-finite value ({value.literal})"
  | unsupportedType property typeName => s!"Unsupported value type {typeName} for '{property}'"
  | paramMissing key => s!"'{key}' requires a 'param' value"
  | paramType typeName => s!"'param' must be a string or number, got {typeName}"
  | emptySpecs key => s!"'{key}' is an empty list"
  | specShape key typeName => s!"'{key}' expects a mapping or a list of mappings, got {typeName}"
  | specField field => s!"spec is missing required '{field}' string"

structure Fault where
  reason : Reason
  path : Path
  deriving DecidableEq, Repr

def Fault.message (f : Fault) : String :=
  Path.locate f.path f.reason.message

end StyleTree
