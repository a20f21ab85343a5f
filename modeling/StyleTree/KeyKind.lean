import StyleTree.Config
import StyleTree.Pseudo
import StyleTree.Spec

/-!
# What a key stands for

The modifier key and the child key are reserved: whatever they hold is read as specs, so that a
malformed value is a fault and not a declaration. Under any other key a scalar is a declaration, and
a mapping is a pseudo block or a breakpoint block when the key names one. What is left is a
declaration, too.
-/

namespace StyleTree

inductive KeyKind where
  | property
  | pseudo
  | breakpoint
  | modifier
  | child
  deriving DecidableEq, Repr

namespace KeyKind

def name : KeyKind → String
  | property => "property"
  | pseudo => "pseudo"
  | breakpoint => "breakpoint"
  | modifier => "modifier"
  | child => "child"

def all : List KeyKind :=
  [property, pseudo, breakpoint, modifier, child]

/-- The kind of the specs that such a key holds. -/
def specKind? : KeyKind → Option SpecKind
  | modifier => some .modifier
  | child => some .child
  | _ => none

/-- The key that a block of this kind uses up for itself, so that it is no entry of the body. -/
def consumedKey : KeyKind → Option String
  | property => none
  | pseudo => some Pseudo.paramKey
  | breakpoint => none
  | modifier => some SpecKind.modifier.field
  | child => some SpecKind.child.field

end KeyKind

/-- What the entry `key: v` is compiled as. -/
def classify (c : Config) (key : String) (v : Value) : KeyKind :=
  if key = c.modifierKey then .modifier
  else if key = c.childKey then .child
  else if v.isMapping then
    if (Pseudo.ofKey? key).isSome then .pseudo
    else if c.breakpoints.has key then .breakpoint
    else .property
  else .property

end StyleTree
