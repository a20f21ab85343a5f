import StyleTree.Number.Decimal

/-!
# Numbers of a style tree

A number is an integer of any size or a double. Its text in a style sheet is the plain decimal
numeral where the number is whole, and the literal of the double otherwise; its literal tells the
two sorts apart.
-/

namespace StyleTree

inductive Number where
  | int (value : Int)
  | float (value : Binary64)
  deriving DecidableEq, Repr

namespace Number

/-- A double that is whole loses its fraction; its numeral is exact at any size. Integers of any
length are assumed to have a numeral: a host that limits the digits it writes is not modelled. -/
def text : Number → String
  | .int value => toString value
  | .float value =>
    match value.toInt? with
    | some whole => toString whole
    | none => value.literal

def literal : Number → String
  | .int value => toString value
  | .float value => value.literal

def isFinite : Number → Bool
  | .int _ => true
  | .float value => value.isFinite

def isNonzero : Number → Bool
  | .int value => value != 0
  | .float value => value.isNonzero

end Number

end StyleTree
