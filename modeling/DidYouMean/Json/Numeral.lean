import DidYouMean.Binary64.Decimal
import DidYouMean.Json

/-!
# JSON numbers as machine numbers

A number without point and exponent is a word if it is below `2 ^ 64`. As a double, a number is its
leading digits, as many as a word holds, times a power of ten, both rounded before they are
multiplied or divided; it is out of range if that overflows.

Written out, a double has its shortest digits, and of two equally near choices the even one. It is
positional from `0.00001` up to sixteen digits before the point, and then a whole one ends in `.0`.
-/

namespace DidYouMean

namespace Json

/-- The product of two finite nonnegative doubles, by magnitude. -/
def product (x y : Nat) : Nat :=
  Binary64.magnitudeOf (Binary64.unitsOf x * Binary64.unitsOf y) Binary64.unitsPerOne

/-- The quotient of two finite positive doubles, by magnitude. -/
def quotient (x y : Nat) : Nat :=
  Binary64.magnitudeOf (Binary64.unitsOf x * Binary64.unitsPerOne) (Binary64.unitsOf y)

/-- The power of ten, rounded. -/
def powerOfTen (n : Nat) : Nat := Binary64.magnitudeOf (Nat.pow 10 n * Binary64.unitsPerOne) 1

/-- The greatest power of ten that is a double. -/
def maxPower : Nat := 308

/-- A magnitude divided by `10 ^ n`, by the greatest power at a time. -/
def scaleDown (x n : Nat) : Nat :=
  if n ≤ maxPower then quotient x (powerOfTen n)
  else if x = 0 then 0
  else scaleDown (quotient x (powerOfTen maxPower)) (n - maxPower)
termination_by n
decreasing_by
  simp only [maxPower] at *
  omega

/-- A magnitude times `10 ^ n`, unless it overflows. -/
def scaleUp? (x n : Nat) : Option Nat :=
  if n ≤ maxPower then
    let y := product x (powerOfTen n)
    if y = Binary64.infinite then none else some y
  else if x = 0 then some 0
  else none

/-- Puts digits after `n` as long as a word holds them, and counts those that are left over. -/
def keepDigits (n : Nat) : Text → Nat × Nat
  | [] => (n, 0)
  | c :: cs =>
    let next := n * 10 + (Text.digit? c).getD 0
    if next < Text.wordLimit then keepDigits next cs else (n, cs.length + 1)

namespace Numeral

/-- The number as a word. -/
def word? (n : Numeral) : Option Nat :=
  if n.negative ∨ n.fraction ≠ [] ∨ n.exponent.isSome then none
  else (Text.digits? n.whole).filter (· < Text.wordLimit)

/-- The number as a double, unless it is out of range. -/
def double? (n : Numeral) : Option Binary64 :=
  let (whole, wholeLeft) := keepDigits 0 n.whole
  let (kept, fractionLeft) := keepDigits whole n.fraction
  let power : Int := wholeLeft + fractionLeft - n.fraction.length + n.exponent.getD 0
  let start := Binary64.magnitudeOf (kept * Binary64.unitsPerOne) 1
  let scaled :=
    if power < 0 then some (scaleDown start power.natAbs) else scaleUp? start power.natAbs
  scaled.map (⟨n.negative, ·⟩)

/-- A natural number. -/
def ofNat (n : Nat) : Numeral := ⟨false, Text.ofNat n, [], none⟩

/-- A finite double. -/
def ofDouble (x : Binary64) : Numeral :=
  if x.magnitude = 0 then ⟨x.negative, ['0'], ['0'], none⟩
  else
    let d := Binary64.shortest .toEven x.magnitude
    if -5 < d.point ∧ d.point ≤ 16 then
      let (whole, fraction) := d.positional
      ⟨x.negative, whole, if fraction = [] then ['0'] else fraction, none⟩
    else
      let digits := Text.ofNat d.digits
      ⟨x.negative, digits.take 1, digits.drop 1, some (d.point - 1)⟩

/-- The number as text. -/
def toText (n : Numeral) : Text :=
  (if n.negative then ['-'] else []) ++ n.whole
    ++ (if n.fraction = [] then [] else '.' :: n.fraction)
    ++ match n.exponent with
      | none => []
      | some e => 'e' :: (if e < 0 then ['-'] else []) ++ Text.ofNat e.natAbs

end Numeral

end Json

end DidYouMean
