/-
**Floating point numbers of 64 bits, held as their bits.**

A number is decoded to `significand * 2 ^ exponent` and rounded from a quotient of naturals, so that
all arithmetic is exact. The main definitions:

* `Binary64.magnitude`, the exact value of a finite number without its sign;
* `roundQuotient`, the nearest number of a given precision to a quotient, ties to even;
* `Binary64.ofDecimal`, the nearest number to a decimal fraction;
* `Binary64.ofSingle` and `Binary64.toSingle`, the passage from and to 32 bits.
-/

import WireProgram.Bytes

namespace WireProgram

/-- A floating point number of 64 bits, given by its bits. -/
structure Binary64 where
  /-- Sign, eleven bits of exponent and fifty-two of fraction. -/
  bits : UInt64
  deriving DecidableEq, Inhabited

/-! ### Rounding -/

/-- A quotient scaled by a power of two, as a fraction of naturals. -/
def scaleQuotient (numerator denominator : Nat) (exponent : Int) : Nat × Nat :=
  if 0 ≤ exponent then (numerator, denominator * Nat.pow 2 exponent.toNat)
  else (numerator * Nat.pow 2 (-exponent).toNat, denominator)

/-- The nearest natural to a quotient; a tie goes to the even neighbour. -/
def nearestEven (numerator denominator : Nat) : Nat :=
  let floor := numerator / denominator
  let twice := 2 * (numerator % denominator)
  if twice < denominator then floor
  else if denominator < twice then floor + 1
  else floor + floor % 2

/--
The nearest `significand * 2 ^ exponent` to a quotient, where the significand has at most
`precision` bits and the exponent is at least `least`.
-/
def roundQuotient (precision : Nat) (least : Int) (numerator denominator : Nat) : Nat × Int :=
  if numerator = 0 then (0, least)
  else
    let guess := (numerator.log2 : Int) - (denominator.log2 : Int) - (precision : Int)
    let fits := fun exponent : Int =>
      let scaled := scaleQuotient numerator denominator exponent
      scaled.1 < scaled.2 * Nat.pow 2 precision
    let exponent := if fits guess then guess else guess + 1
    let exponent := if exponent < least then least else exponent
    let scaled := scaleQuotient numerator denominator exponent
    let significand := nearestEven scaled.1 scaled.2
    if significand = Nat.pow 2 precision then (Nat.pow 2 (precision - 1), exponent + 1)
    else (significand, exponent)

/--
The bits of an interchange format with `precision` bits of significand: the biased exponent above
the fraction, without the sign. Values beyond the range give infinity.
-/
def packMagnitude (precision : Nat) (least greatest : Int) (value : Nat × Int) : Nat :=
  if greatest < value.2 then (greatest - least + 2).toNat * Nat.pow 2 (precision - 1)
  else if value.1 < Nat.pow 2 (precision - 1) then value.1
  else
    (value.2 - least + 1).toNat * Nat.pow 2 (precision - 1) +
      (value.1 - Nat.pow 2 (precision - 1))

namespace Binary64

/-! ### Parts of a number -/

/-- The bits without the sign. -/
def unsignedBits (x : Binary64) : Nat :=
  x.bits.toNat % Nat.pow 2 63

/-- The sign bit. -/
def isNegative (x : Binary64) : Bool :=
  Nat.pow 2 63 ≤ x.bits.toNat

/-- The biased exponent. -/
def exponentField (x : Binary64) : Nat :=
  x.unsignedBits / Nat.pow 2 52

/-- The fraction below the leading bit. -/
def fractionField (x : Binary64) : Nat :=
  x.unsignedBits % Nat.pow 2 52

/-- No number: the exponent is full and the fraction is not zero. -/
def isNaN (x : Binary64) : Bool :=
  x.exponentField = 2047 ∧ x.fractionField ≠ 0

/-- One of the two infinities. -/
def isInfinite (x : Binary64) : Bool :=
  x.exponentField = 2047 ∧ x.fractionField = 0

/-- One of the two zeros. -/
def isZero (x : Binary64) : Bool :=
  x.unsignedBits = 0

/-- A finite number without its sign, as `significand * 2 ^ exponent`. -/
def magnitude (x : Binary64) : Nat × Int :=
  if x.exponentField = 0 then (x.fractionField, -1074)
  else (Nat.pow 2 52 + x.fractionField, (x.exponentField : Int) - 1075)

/-! ### Making a number -/

/-- The number with given sign and unsigned bits. -/
def ofParts (negative : Bool) (unsigned : Nat) : Binary64 :=
  ⟨UInt64.ofNat ((if negative then Nat.pow 2 63 else 0) + unsigned)⟩

/-- The nearest number to a quotient. -/
def ofQuotient (negative : Bool) (numerator denominator : Nat) : Binary64 :=
  ofParts negative (packMagnitude 53 (-1074) 971 (roundQuotient 53 (-1074) numerator denominator))

/-- The nearest number to `significand * 2 ^ exponent`. -/
def ofScaled (negative : Bool) (significand : Nat) (exponent : Int) : Binary64 :=
  if 0 ≤ exponent then ofQuotient negative (significand * Nat.pow 2 exponent.toNat) 1
  else ofQuotient negative significand (Nat.pow 2 (-exponent).toNat)

/-- Infinity of the given sign. -/
def infinity (negative : Bool) : Binary64 :=
  ofParts negative (2047 * Nat.pow 2 52)

/-- A quiet value that is no number. -/
def nan : Binary64 :=
  ofParts false (2047 * Nat.pow 2 52 + Nat.pow 2 51)

/--
The nearest number to `significand * 10 ^ exponent`, where `digits` is the number of decimal digits
of the significand. Far beyond the range the power of ten is not computed.
-/
def ofDecimal (negative : Bool) (significand : Nat) (digits : Nat) (exponent : Int) : Binary64 :=
  if significand = 0 then ofParts negative 0
  else if 400 < (digits : Int) + exponent then infinity negative
  else if (digits : Int) + exponent < -400 then ofParts negative 0
  else if 0 ≤ exponent then ofQuotient negative (significand * Nat.pow 10 exponent.toNat) 1
  else ofQuotient negative significand (Nat.pow 10 (-exponent).toNat)

/-! ### Numbers of 32 bits -/

/-- The number with the value of a 32 bit one. -/
def ofSingle (bits : Nat) : Binary64 :=
  let negative : Bool := Nat.pow 2 31 ≤ bits
  let unsigned := bits % Nat.pow 2 31
  let exponent : Nat := unsigned / Nat.pow 2 23
  let fraction : Nat := unsigned % Nat.pow 2 23
  if exponent = 255 then ofParts negative (2047 * Nat.pow 2 52 + fraction * Nat.pow 2 29)
  else if exponent = 0 then ofScaled negative fraction (-149)
  else ofScaled negative (Nat.pow 2 23 + fraction) ((exponent : Int) - 150)

/-- The bits of the nearest 32 bit number. -/
def toSingle (x : Binary64) : Nat :=
  let sign : Nat := if x.isNegative then Nat.pow 2 31 else 0
  if x.isNaN then sign + 255 * Nat.pow 2 23 + Nat.pow 2 22
  else if x.isInfinite then sign + 255 * Nat.pow 2 23
  else
    let value := x.magnitude
    let quotient : Nat × Nat := if 0 ≤ value.2 then (value.1 * Nat.pow 2 value.2.toNat, 1)
      else (value.1, Nat.pow 2 (-value.2).toNat)
    sign + packMagnitude 24 (-149) 104 (roundQuotient 24 (-149) quotient.1 quotient.2)

/-- The value after a passage through 32 bits. -/
def roundSingle (x : Binary64) : Binary64 :=
  ofSingle x.toSingle

/-! ### Whole numbers -/

/-- The integer that a number equals, if it equals one. -/
def toInt? (x : Binary64) : Option Int :=
  if x.exponentField = 2047 then none
  else
    let value := x.magnitude
    let sign : Int := if x.isNegative then -1 else 1
    let down : Nat := Nat.pow 2 (-value.2).toNat
    if 0 ≤ value.2 then some (sign * Int.ofNat (value.1 * Nat.pow 2 value.2.toNat))
    else if value.1 % down = 0 then some (sign * Int.ofNat (value.1 / down))
    else none

/-- An integer in units of the least positive number. -/
def units (value : Int) : Int :=
  value * Int.ofNat (Nat.pow 2 1074)

/-- A finite number in units of the least positive one. -/
def toUnits (x : Binary64) : Int :=
  let value := x.magnitude
  let sign : Int := if x.isNegative then -1 else 1
  sign * Int.ofNat (value.1 * Nat.pow 2 (value.2 + 1074).toNat)

/-- A number less one, rounded. What is no number becomes another thing that is no number. -/
def lessOne (x : Binary64) : Binary64 :=
  if x.isNaN then ofParts (!x.isNegative) x.unsignedBits
  else if x.isInfinite then x
  else
    let value := x.toUnits - units 1
    ofQuotient (value < 0) value.natAbs (Nat.pow 2 1074)

end Binary64

end WireProgram
