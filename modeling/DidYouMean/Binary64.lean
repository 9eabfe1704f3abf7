/-!
# Doubles

A double is its sign and its magnitude, the lower 63 bits of its 64. The nonnegative doubles in
increasing order have the magnitudes `0, 1, 2, …`, so two of them compare as their magnitudes do.

Every finite double is a whole number of units, the unit being the least positive double
`2 ^ -1074`. A quotient of units is rounded to the nearest double in one place,
`magnitudeOf`: past `2 ^ 53` units it counts the binary places that have to go and rounds what is
left, and the carry of that rounding runs into the exponent by itself. Being one rounding of an
exact quotient, it keeps order, and everything here that computes with doubles goes through it.
-/

namespace DidYouMean

/-- A double: the sign, and the other 63 bits as a number. -/
structure Binary64 where
  negative : Bool
  magnitude : Nat
  deriving DecidableEq, Repr

namespace Binary64

/-- The quotient rounded to the nearest whole number, halves to the even neighbour. -/
def roundHalfEven (num den : Nat) : Nat :=
  let q := num / den
  let r := num % den
  if 2 * r < den then q else if den < 2 * r then q + 1 else q + q % 2

/-- How many units make one. -/
def unitsPerOne : Nat := Nat.pow 2 1074

/-- How many doubles there are with one exponent. -/
def binade : Nat := Nat.pow 2 52

/-- The magnitude of infinity; every greater one is not a number. -/
def infinite : Nat := 2047 * binade

/-- The magnitude of one. -/
def one : Nat := 1023 * binade

/-- The magnitude of the double nearest to `num / den` units, ties to even. -/
def magnitudeOf (num den : Nat) : Nat :=
  let shift := (num / den).log2 - 52
  min infinite (shift * binade + roundHalfEven num (den * Nat.pow 2 shift))

/-- The units in the finite double of that magnitude. -/
def unitsOf (magnitude : Nat) : Nat :=
  let exponent := magnitude / binade
  if exponent = 0 then magnitude
  else (binade + magnitude % binade) * Nat.pow 2 (exponent - 1)

/-- The nonnegative double nearest to `num / den`. -/
def ofRatio (num den : Nat) : Binary64 := ⟨false, magnitudeOf (num * unitsPerOne) den⟩

/-- Positive zero. -/
def zero : Binary64 := ⟨false, 0⟩

/-- Whether this is not a number. -/
def isNaN (x : Binary64) : Bool := decide (infinite < x.magnitude)

/-- Where a double that is a number stands among the others; both zeros stand at the same place. -/
def place (x : Binary64) : Int := if x.negative then -x.magnitude else x.magnitude

/-- Less than, which nothing that is not a number takes part in. -/
def lt (x y : Binary64) : Bool := !x.isNaN && !y.isNaN && decide (x.place < y.place)

/-- At most, which nothing that is not a number takes part in. -/
def le (x y : Binary64) : Bool := !x.isNaN && !y.isNaN && decide (x.place ≤ y.place)

/-- The 64 bits as a number. -/
def bits (x : Binary64) : Nat := (if x.negative then Nat.pow 2 63 else 0) + x.magnitude

end Binary64

end DidYouMean
