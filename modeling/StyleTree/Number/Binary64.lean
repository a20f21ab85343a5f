/-!
# Double-precision numbers

A finite double is a sign and a whole number of units, the unit being the least positive double
2⁻¹⁰⁷⁴. Of all counts of units below 2²⁰⁹⁸ (that is, of all magnitudes below 2¹⁰²⁴) those with at
most 53 significant bits are doubles. The sign is kept beside the count, so zero has two forms.
-/

namespace StyleTree

/-- The number one, in units. -/
def unitsPerOne : Nat := Nat.pow 2 1074

/-- The magnitude of a finite double is below this count of units. -/
def unitLimit : Nat := Nat.pow 2 2098

/-- A count of units that is the magnitude of a finite double. -/
def Representable (units : Nat) : Prop :=
  units < unitLimit ∧ Nat.pow 2 (units.log2 - 52) ∣ units

instance (units : Nat) : Decidable (Representable units) :=
  inferInstanceAs (Decidable (_ ∧ _))

theorem unitLimit_pos : 0 < unitLimit := by
  unfold unitLimit
  apply Nat.pow_pos
  decide

theorem representable_zero : Representable 0 :=
  ⟨unitLimit_pos, Nat.dvd_zero _⟩

inductive Binary64 where
  | nan
  | infinity (negative : Bool)
  | finite (negative : Bool) (units : Nat) (representable : Representable units)
  deriving DecidableEq, Repr

namespace Binary64

def zero (negative : Bool) : Binary64 :=
  .finite negative 0 representable_zero

def isFinite : Binary64 → Bool
  | .finite .. => true
  | _ => false

/-- Only the two zeros are false; a number that is not finite is true. -/
def isNonzero : Binary64 → Bool
  | .finite _ units _ => units != 0
  | _ => true

/-- The quotient of `n` by `d`, rounded to the nearest whole number, a half to the even one. -/
def roundDiv (n d : Nat) : Nat :=
  let q := n / d
  let twice := 2 * (n % d)
  if twice < d ∨ (twice = d ∧ q % 2 = 0) then q else q + 1

/-- The double nearest to `n / d`, a half going to the even significand. A quotient that rounds to
2¹⁰²⁴ or more gives an infinity. -/
def ofRatio (negative : Bool) (n d : Nat) : Binary64 :=
  let scaled := n * unitsPerOne
  let step := Nat.pow 2 ((scaled / d).log2 - 52)
  let units := roundDiv scaled (d * step) * step
  if h : Representable units then .finite negative units h else .infinity negative

/-- The exact value of a finite double that is a whole number. -/
def toInt? : Binary64 → Option Int
  | .finite negative units _ =>
    if units % unitsPerOne = 0 then
      let whole : Int := (units / unitsPerOne : Nat)
      some (if negative then -whole else whole)
    else none
  | _ => none

end Binary64

end StyleTree
