import StyleTree.Number.Binary64

/-!
# Decimal literals of doubles

A double is read from a decimal literal by rounding to the nearest double. It is written with the
fewest significant digits that read back as the same double; of two such numerals the nearer one is
taken, and of two equally near ones the one with the even last digit.
-/

namespace StyleTree

/-- The magnitude `significand · 10 ^ exponent`. -/
structure Decimal where
  significand : Nat
  exponent : Int
  deriving DecidableEq, Repr

namespace Decimal

/-- The number of decimal digits of `n`. -/
def width (n : Nat) : Nat :=
  (Nat.toDigits 10 n).length

/-- The double nearest to the decimal. Magnitudes far outside the range of doubles are decided by
their size alone, so that no large power of ten is computed. -/
def nearest (negative : Bool) (d : Decimal) : Binary64 :=
  let size := (width d.significand : Int) + d.exponent
  if d.significand = 0 ∨ size < -400 then .zero negative
  else if 400 < size then .infinity negative
  else match d.exponent with
    | .ofNat e => .ofRatio negative (d.significand * Nat.pow 10 e) 1
    | .negSucc e => .ofRatio negative d.significand (Nat.pow 10 (e + 1))

/-- The exact decimal value of a count of units: 2⁻¹⁰⁷⁴ is 5¹⁰⁷⁴ · 10⁻¹⁰⁷⁴. -/
def ofUnits (units : Nat) : Decimal :=
  ⟨units * Nat.pow 5 1074, -1074⟩

/-- The decimal reads as the double with this count of units. -/
def readsAs (units : Nat) (d : Decimal) : Bool :=
  match d.nearest false with
  | .finite _ u _ => u == units
  | _ => false

/-- The decimals next to `d` below and above that end `drop` digits earlier, nearest first. -/
def neighbours (d : Decimal) (drop : Nat) : List Decimal :=
  let step := Nat.pow 10 drop
  let below : Decimal := ⟨d.significand / step, d.exponent + drop⟩
  let above : Decimal := ⟨d.significand / step + 1, d.exponent + drop⟩
  if Binary64.roundDiv d.significand step = below.significand then [below, above]
  else [above, below]

/-- The shortest decimal that reads as the double with this count of units. -/
def shortest (units : Nat) : Decimal :=
  let exact := ofUnits units
  let drops := (List.range (width exact.significand)).reverse
  (drops.findSome? fun drop => (exact.neighbours drop).find? (readsAs units)).getD exact

/-! ## Layout -/

/-- The digits without trailing zeros, and the place of the leading digit as a power of ten. -/
def scientific (d : Decimal) : List Char × Int :=
  if d.significand = 0 then (['0'], 0)
  else
    let digits := Nat.toDigits 10 d.significand
    ((digits.reverse.dropWhile (· = '0')).reverse, d.exponent + digits.length - 1)

def zeros (n : Nat) : List Char :=
  List.replicate n '0'

/-- Positional notation, always with a fraction. -/
def positional (digits : List Char) : Int → List Char
  | .ofNat place =>
    let whole := digits.take (place + 1)
    let fraction := digits.drop (place + 1)
    whole ++ zeros (place + 1 - whole.length) ++
      '.' :: (if fraction.isEmpty then ['0'] else fraction)
  | .negSucc gap => '0' :: '.' :: zeros gap ++ digits

/-- Scientific notation: a point only before further digits, the exponent signed and of at least
two digits. -/
def exponential (digits : List Char) (place : Int) : List Char :=
  let mantissa := match digits with
    | [] => []
    | first :: [] => [first]
    | first :: more => first :: '.' :: more
  let size := Nat.toDigits 10 place.natAbs
  mantissa ++ 'e' :: (if place < 0 then '-' else '+') :: zeros (2 - size.length) ++ size

/-- Positional when the leading digit stands between the fourth place after the point and the
sixteenth before it, scientific otherwise. -/
def layout (d : Decimal) : List Char :=
  let (digits, place) := d.scientific
  if -4 ≤ place ∧ place < 16 then positional digits place else exponential digits place

/-! ## Reading -/

def ofDigits (digits : List Char) : Nat :=
  Nat.ofDigitChars 10 digits 0

/-- A sign, if one is written, and the rest. -/
def splitSign : List Char → Bool × List Char
  | '-' :: rest => (true, rest)
  | '+' :: rest => (false, rest)
  | rest => (false, rest)

/-- The exponent part of a literal: nothing, or a mark, a sign and digits. -/
def readExponent? : List Char → Option Int
  | [] => some 0
  | mark :: rest =>
    let (negative, digits) := splitSign rest
    if (mark = 'e' ∨ mark = 'E') ∧ !digits.isEmpty ∧ digits.all Char.isDigit then
      let size : Int := ofDigits digits
      some (if negative then -size else size)
    else none

/-- Reads an unsigned literal: digits, a fraction, an exponent. -/
def read? (cs : List Char) : Option Decimal := do
  let whole := cs.takeWhile Char.isDigit
  let (fraction, rest) := match cs.dropWhile Char.isDigit with
    | '.' :: rest => (rest.takeWhile Char.isDigit, rest.dropWhile Char.isDigit)
    | rest => ([], rest)
  if whole.isEmpty && fraction.isEmpty then none
  else
    let exponent ← readExponent? rest
    some ⟨ofDigits (whole ++ fraction), exponent - fraction.length⟩

end Decimal

namespace Binary64

/-- Reads a decimal literal, `inf` or `nan`, with or without a sign. -/
def read? (text : String) : Option Binary64 :=
  let (negative, body) := Decimal.splitSign text.toList
  if body = ['i', 'n', 'f'] then some (.infinity negative)
  else if body = ['n', 'a', 'n'] then some .nan
  else (Decimal.read? body).map (Decimal.nearest negative)

/-- The shortest literal that reads back as the double. -/
def literal : Binary64 → String
  | .nan => "nan"
  | .infinity negative => if negative then "-inf" else "inf"
  | .finite negative units _ =>
    let digits := (Decimal.shortest units).layout
    String.ofList (if negative then '-' :: digits else digits)

end Binary64

end StyleTree
