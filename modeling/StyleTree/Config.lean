import StyleTree.Breakpoint.Registry
import StyleTree.Declaration

/-!
# Configurations

What a style tree is compiled against: how values are written, which breakpoints there are, which
keys hold modifiers and children, and the placeholder that stands for the selector of the host rule.
-/

namespace StyleTree

structure Config extends ValueRules where
  placeholder : String := "&"
  breakpoints : Registry := .standard
  modifierKey : String := "class"
  childKey : String := "child"
  keys_ne : modifierKey ≠ childKey := by decide
  deriving DecidableEq, Repr

/-- The modifier key and the child key of a configuration are the same. -/
structure SameKeys where
  key : String
  deriving DecidableEq, Repr

def SameKeys.message (_ : SameKeys) : String :=
  "modifier_key and child_key must differ"

/-- Changes to a configuration; what is absent stays. -/
structure Overrides where
  unit : Option String := none
  unitless : Option (List String) := none
  nonNumeric : Option (List String) := none
  constants : Option Constants := none
  placeholder : Option String := none
  breakpoints : Option Registry := none
  modifierKey : Option String := none
  childKey : Option String := none
  deriving Repr

namespace Config

def standard : Config := {}

def override (c : Config) (o : Overrides) : Except SameKeys Config :=
  let modifierKey := o.modifierKey.getD c.modifierKey
  let childKey := o.childKey.getD c.childKey
  if h : modifierKey = childKey then .error ⟨modifierKey⟩
  else .ok
    { unit := o.unit.getD c.unit
      unitless := o.unitless.getD c.unitless
      nonNumeric := o.nonNumeric.getD c.nonNumeric
      constants := o.constants.getD c.constants
      placeholder := o.placeholder.getD c.placeholder
      breakpoints := o.breakpoints.getD c.breakpoints
      modifierKey
      childKey
      keys_ne := h }

end Config

end StyleTree
