/-
**Documents as numbers.**

Truth values, whole numbers and fractions have one order. What is no number stands nowhere in it,
although it is a fraction. The main definitions:

* `Json.isNumber` tells the documents that can be compared;
* `Json.isLess` and `Json.isAtMost`, the order of numbers by their exact values;
* `Json.lessOne?` is a number less one.
-/

import WireProgram.Json

namespace WireProgram.Json

/-- Whether a document can be compared with numbers. -/
def isNumber : Json → Bool
  | .bool _ | .int _ | .float _ => true
  | _ => false

/--
Where a number stands among the others: its side, which is not zero for an infinity, and its value
in units of the least positive fraction.
-/
def standing? : Json → Option (Int × Int)
  | .bool value => some (0, if value then Binary64.units 1 else 0)
  | .int value => some (0, Binary64.units value)
  | .float value =>
    if value.isNaN then none
    else if value.isInfinite then some (if value.isNegative then -1 else 1, 0)
    else some (0, value.toUnits)
  | _ => none

/-- Whether a number is less than another one. -/
def isLess : Json → Json → Bool
  | .int left, .int right => left < right
  | left, right =>
    match left.standing?, right.standing? with
    | some left, some right => left.1 < right.1 || (left.1 = right.1 && left.2 < right.2)
    | _, _ => false

/-- Whether a number is less than another one or equal to it. -/
def isAtMost : Json → Json → Bool
  | .int left, .int right => left ≤ right
  | left, right =>
    match left.standing?, right.standing? with
    | some left, some right => left.1 < right.1 || (left.1 = right.1 && left.2 ≤ right.2)
    | _, _ => false

/-- A number less one. -/
def lessOne? : Json → Option Json
  | .bool value => some (.int ((if value then 1 else 0) - 1))
  | .int value => some (.int (value - 1))
  | .float value => some (.float value.lessOne)
  | _ => none

end WireProgram.Json
