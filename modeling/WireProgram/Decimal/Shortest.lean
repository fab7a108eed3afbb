/-
**The fewest decimal digits that read back as a given floating point number.**

A finite number is the nearest one to every point of an interval around it. The digits are those of
the coarsest decimal grid with a point in that interval, and of two such points the nearer one.

* `RoundingInterval` holds the interval in exact arithmetic;
* `shortestDigits` gives the digits and the place of the decimal point;
* `DecimalLayout.render` lays the digits out, in positional or in scientific notation.
-/

import WireProgram.Binary64

namespace WireProgram

/-! ### The interval of a number -/

/--
The points that round to a number: `lower`, `value` and `upper` over a common `denominator`. The
ends belong to the interval iff `closed`.
-/
structure RoundingInterval where
  lower : Nat
  value : Nat
  upper : Nat
  denominator : Nat
  closed : Bool

/-- The interval of a finite positive number. Below a power of two the gap is half as wide. -/
def Binary64.interval (x : Binary64) : RoundingInterval :=
  let parts := x.magnitude
  let below := if x.fractionField = 0 ∧ 1 < x.exponentField then 1 else 2
  let scale := if 0 ≤ parts.2 then Nat.pow 2 parts.2.toNat else 1
  let denominator := if 0 ≤ parts.2 then 4 else 4 * Nat.pow 2 (-parts.2).toNat
  ⟨(4 * parts.1 - below) * scale, 4 * parts.1 * scale, (4 * parts.1 + 2) * scale, denominator,
    parts.1 % 2 = 0⟩

/-- Whether the point `numerator / denominator` of a grid lies in the interval. -/
def RoundingInterval.holds (interval : RoundingInterval) (numerator denominator : Nat) : Bool :=
  let point := numerator * interval.denominator
  let low := interval.lower * denominator
  let high := interval.upper * denominator
  (low < point ∨ (interval.closed ∧ low = point)) ∧
    (point < high ∨ (interval.closed ∧ point = high))

/-! ### The digits -/

/-- The number of decimal digits of a natural. -/
def decimalLength (value : Nat) : Nat :=
  (Nat.toDigits 10 value).length

/-- The least `k` with `numerator / denominator < 10 ^ k`. -/
def decimalOrder (numerator denominator : Nat) : Int :=
  let whole := numerator / denominator
  if whole ≠ 0 then (decimalLength whole : Int)
  else
    let inverse := (denominator + numerator - 1) / numerator
    let guess := (decimalLength inverse : Int) - 1
    -- `1 / inverse ≤ value`, so the order is `-guess` or one more
    if numerator * Nat.pow 10 guess.toNat < denominator then -guess else 1 - guess

/--
The point of the grid with step `10 ^ (order - count)` that stands for the number, if one of the two
neighbours of the number on that grid lies in its interval.
-/
def RoundingInterval.gridPoint? (interval : RoundingInterval) (order : Int) (count : Nat) :
    Option Nat :=
  let power := order - (count : Int)
  let up := if 0 ≤ power then Nat.pow 10 power.toNat else 1
  let down := if 0 ≤ power then 1 else Nat.pow 10 (-power).toNat
  let floor := interval.value * down / (interval.denominator * up)
  let above := floor + 1
  let floorHolds := interval.holds (floor * up) down
  let aboveHolds := interval.holds (above * up) down
  if floorHolds ∧ aboveHolds then
    let belowBy := interval.value * down - floor * up * interval.denominator
    let aboveBy := above * up * interval.denominator - interval.value * down
    if belowBy < aboveBy then some floor
    else if aboveBy < belowBy then some above
    else some (floor + floor % 2)
  else if floorHolds then some floor
  else if aboveHolds then some above
  else none

/-- Drops the zeros at the end of a list of digits. -/
def dropTrailingZeros (digits : List Char) : List Char :=
  (digits.reverse.dropWhile (· = '0')).reverse

/--
The digits of a finite positive number and the place of the decimal point: the value is
`0.digits * 10 ^ place`. Seventeen digits always suffice.
-/
def Binary64.shortestDigits (x : Binary64) : List Char × Int :=
  let interval := x.interval
  let order := decimalOrder interval.value interval.denominator
  let pick := (List.range 17).findSome? fun before =>
    (interval.gridPoint? order (before + 1)).map fun point => (point, before + 1)
  match pick with
  | none => (['0'], 1)
  | some (point, count) =>
    let digits := Nat.toDigits 10 point
    (dropTrailingZeros digits, order + ((digits.length : Int) - (count : Int)))

/-! ### Layout -/

/-- How the digits of a number are laid out. -/
structure DecimalLayout where
  /-- The least place of the decimal point that is still written positionally. -/
  leastPlace : Int
  /-- The greatest place of the decimal point that is still written positionally. -/
  greatestPlace : Int
  /-- The least number of digits of an exponent. -/
  exponentDigits : Nat
  /-- The text of a value that is no number. -/
  notANumber : String
  /-- The text of positive infinity. -/
  infinite : String

/-- Pads a list of digits with zeros on the left. -/
def padDigits (width : Nat) (digits : List Char) : List Char :=
  List.replicate (width - digits.length) '0' ++ digits

/-- The digits without a sign. A whole number keeps one zero after the point. -/
def DecimalLayout.renderDigits (layout : DecimalLayout) (digits : List Char) (place : Int) :
    List Char :=
  if layout.leastPlace ≤ place ∧ place ≤ layout.greatestPlace then
    if place ≤ 0 then ['0', '.'] ++ List.replicate (-place).toNat '0' ++ digits
    else if (digits.length : Int) ≤ place then
      digits ++ List.replicate (place.toNat - digits.length) '0' ++ ['.', '0']
    else digits.take place.toNat ++ ['.'] ++ digits.drop place.toNat
  else
    let exponent := place - 1
    let fraction := match digits.drop 1 with
      | [] => []
      | rest => '.' :: rest
    let sign := if exponent < 0 then '-' else '+'
    digits.take 1 ++ fraction ++ ['e', sign] ++
      padDigits layout.exponentDigits (Nat.toDigits 10 exponent.natAbs)

/-- The text of a number. -/
def DecimalLayout.render (layout : DecimalLayout) (x : Binary64) : String :=
  if x.isNaN then layout.notANumber
  else
    let sign := if x.isNegative then "-" else ""
    if x.isInfinite then sign ++ layout.infinite
    else if x.isZero then sign ++ "0.0"
    else
      let shortest := x.shortestDigits
      sign ++ String.ofList (layout.renderDigits shortest.1 shortest.2)

end WireProgram
