/-!
# Locations in a style tree

A location is the list of keys that lead to it from the root. The items of a sequence are numbered
from zero, in brackets behind the key that holds the sequence.
-/

namespace StyleTree

abbrev Path := List String

namespace Path

def display : Path → String
  | [] => "<root>"
  | path => " > ".intercalate path

/-- The step to item `index` of the sequence under `key`. -/
def itemStep (key : String) (index : Nat) : String :=
  s!"{key}[{index}]"

/-- A reason, followed by its location. -/
def locate (path : Path) (reason : String) : String :=
  s!"{reason} (at {path.display})"

end Path

end StyleTree
