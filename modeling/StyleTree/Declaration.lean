import StyleTree.Constants
import StyleTree.Fault
import StyleTree.Property

/-!
# Declarations

A declaration gives a property its value. A text is written as it stands, after the constants have
been looked up; quotes are neither added nor removed. A number takes the unit unless its property
is unitless.
-/

namespace StyleTree

structure Declaration where
  property : String
  value : String
  deriving DecidableEq, Repr

def Declaration.render (d : Declaration) : String :=
  d.property ++ ":" ++ d.value ++ ";"

def renderDeclarations (ds : List Declaration) : String :=
  String.join (ds.map Declaration.render)

/-- How the values of declarations are written. -/
structure ValueRules where
  unit : String := "px"
  unitless : List String := Property.unitless
  nonNumeric : List String := Property.nonNumeric
  constants : Constants := []
  deriving DecidableEq, Repr

namespace ValueRules

/-- The text of a number as the value of `property`. A property that takes no number is named
before a number that is not finite. -/
def writeNumber (rules : ValueRules) (property : String) (n : Number) : Except Reason String :=
  if property ∈ rules.nonNumeric then .error (.bareNumber property n)
  else if !n.isFinite then .error (.nonFinite property n)
  else if property ∈ rules.unitless then .ok n.text
  else .ok (n.text ++ rules.unit)

/-- The text of a value as the value of `property`, a name in hyphenated form. -/
def write (rules : ValueRules) (property : String) : Value → Except Reason String
  | .flag _ => .error (.booleanValue property)
  | .number n => rules.writeNumber property n
  | .text s => .ok (rules.constants.resolve s)
  | v => .error (.unsupportedType property v.typeName)

end ValueRules

end StyleTree
