import DidYouMean.Binary64
import DidYouMean.Text

/-!
# Doubles in decimal

Reading a decimal is one exact quotient rounded once. Writing a double takes the fewest digits
that read back as it: the decimals that do are those between the midpoints to its two neighbours,
and on the grid of a given number of digits only the two points around the double can lie there,
unless a coarser grid already had one. If a double lies halfway between two points that both read
back as it, the form it is written in says which one is taken.
-/

namespace DidYouMean

namespace Binary64

/-- The magnitude of the double nearest to `digits * 10 ^ exponent`. Powers beyond the range of
doubles are cut off before they are computed. -/
def magnitudeOfDecimal (digits : Nat) (exponent : Int) : Nat :=
  if digits = 0 then 0
  else if 400 < exponent then infinite
  else if exponent + (Nat.toDigits 10 digits).length < -400 then 0
  else magnitudeOf (digits * Nat.pow 10 exponent.toNat * unitsPerOne) (Nat.pow 10 (-exponent).toNat)

/-- A decimal `digits * 10 ^ exponent`. -/
structure Decimal where
  digits : Nat
  exponent : Int
  deriving DecidableEq, Repr

namespace Decimal

/-- Whether the decimal lies between two bounds given in half units, the bounds included or not. -/
def isBetween (low high : Nat) (closed : Bool) (d : Decimal) : Bool :=
  let value := d.digits * Nat.pow 10 d.exponent.toNat * (2 * unitsPerOne)
  let scale := Nat.pow 10 (-d.exponent).toNat
  if closed then decide (low * scale ≤ value ∧ value ≤ high * scale)
  else decide (low * scale < value ∧ value < high * scale)

/-- The same decimal without trailing zeros, at most `fuel` of them. -/
def stripZeros : (fuel : Nat) → Decimal → Decimal
  | 0, d => d
  | fuel + 1, d =>
    if d.digits ≠ 0 ∧ d.digits % 10 = 0 then stripZeros fuel ⟨d.digits / 10, d.exponent + 1⟩ else d

end Decimal

/-- The power of ten of the leading digit of a positive number of units. -/
def leadingPower (units : Nat) : Int :=
  ((Nat.toDigits 10 (units * Nat.pow 10 400 / unitsPerOne)).length : Int) - 401

/-- Which of two whole numbers is taken for their midpoint. -/
inductive Tie where
  | toEven
  | up
  deriving DecidableEq, Repr

/-- The quotient rounded to the nearest whole number. -/
def roundHalf (tie : Tie) (num den : Nat) : Nat :=
  match tie with
  | .toEven => roundHalfEven num den
  | .up => (2 * num + den) / (2 * den)

/-- The decimals with last digit at `10 ^ power` around the double of that magnitude, the nearer
first. -/
def neighbours (tie : Tie) (magnitude : Nat) (power : Int) : List Decimal :=
  let num := unitsOf magnitude * Nat.pow 10 (-power).toNat
  let den := unitsPerOne * Nat.pow 10 power.toNat
  let nearest := roundHalf tie num den
  let below := num / den
  [⟨nearest, power⟩, ⟨if nearest = below then below + 1 else below, power⟩]

/-- The shortest decimal that reads back as the positive finite double of that magnitude, and of
several the nearest. -/
def shortest (tie : Tie) (magnitude : Nat) : Decimal :=
  let units := unitsOf magnitude
  let low := unitsOf (magnitude - 1) + units
  let high := units + unitsOf (magnitude + 1)
  let top := leadingPower units
  let onGrid (count : Nat) : Option Decimal :=
    (neighbours tie magnitude (top - count)).find? (·.isBetween low high (magnitude % 2 == 0))
  match (List.range 17).findSome? onGrid with
  | some d => d.stripZeros 17
  | none => ⟨units, 0⟩

namespace Decimal

/-- Where the point stands, counted in digits from the first one. -/
def point (d : Decimal) : Int := ((Text.ofNat d.digits).length : Int) + d.exponent

/-- The digits before and after the point when a decimal is written without an exponent. There is
always one before it, and none after it exactly in a whole number. -/
def positional (d : Decimal) : Text × Text :=
  let digits := Text.ofNat d.digits
  if 0 ≤ d.exponent then (digits ++ List.replicate d.exponent.toNat '0', [])
  else if 0 < d.point then (digits.take d.point.toNat, digits.drop d.point.toNat)
  else (['0'], List.replicate (-d.point).toNat '0' ++ digits)

end Decimal

/-- The text of a double, all its digits in place and no exponent. Of two shortest decimals that are
equally near, the greater in magnitude is written. -/
def toText (x : Binary64) : Text :=
  if x.isNaN then "NaN".toList
  else
    let (whole, fraction) :=
      if x.magnitude = 0 then (['0'], [])
      else if x.magnitude = infinite then ("inf".toList, [])
      else (shortest .up x.magnitude).positional
    (if x.negative then ['-'] else []) ++ whole ++ if fraction = [] then [] else '.' :: fraction

/-- What a text writes before its exponent mark: the digits as one number, how many of them follow
the point, and what is left of the text. -/
def readMantissa? (t : Text) : Option (Nat × Nat × Text) :=
  let whole := t.takeWhile (Text.digit? · |>.isSome)
  let rest := t.dropWhile (Text.digit? · |>.isSome)
  let (fraction, rest) := match rest with
    | '.' :: rest =>
      (rest.takeWhile (Text.digit? · |>.isSome), rest.dropWhile (Text.digit? · |>.isSome))
    | _ => ([], rest)
  (Text.digits? (whole ++ fraction)).map (·, fraction.length, rest)

/-- The power of ten written by what follows the mantissa. -/
def readExponent? : Text → Option Int
  | [] => some 0
  | mark :: t =>
    if mark = 'e' ∨ mark = 'E' then
      match t with
      | '-' :: t => (Text.digits? t).map fun n => -(n : Int)
      | '+' :: t => (Text.digits? t).map fun n => (n : Int)
      | t => (Text.digits? t).map fun n => (n : Int)
    else none

/-- The magnitude a text without a sign writes: a decimal, or the name of infinity or of what is
not a number in letters of any case. -/
def readMagnitude? (t : Text) : Option Nat :=
  let word := t.map Char.toLower
  if word = "inf".toList ∨ word = "infinity".toList then some infinite
  else if word = "nan".toList then some (infinite + binade / 2)
  else do
    let (digits, places, rest) ← readMantissa? t
    let exponent ← readExponent? rest
    return magnitudeOfDecimal digits (exponent - places)

/-- The double a text writes, to the nearest. -/
def ofText? : Text → Option Binary64
  | '-' :: t => (readMagnitude? t).map (⟨true, ·⟩)
  | '+' :: t => (readMagnitude? t).map (⟨false, ·⟩)
  | t => (readMagnitude? t).map (⟨false, ·⟩)

end Binary64

end DidYouMean
