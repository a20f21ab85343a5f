/-!
# Classes of characters

A class of characters is given by the ranges of code points that it covers.
-/

namespace StyleTree.Text

/-- Closed ranges of code points. -/
abbrev CharClass := List (Nat × Nat)

def CharClass.has (ranges : CharClass) (c : Char) : Bool :=
  ranges.any fun (low, high) => low ≤ c.toNat && c.toNat ≤ high

end StyleTree.Text
