/-
**The range of a register.**

Two spellings of one number are one register, so whether a register is in range depends on its slot
alone: the order of numbers goes by their exact values. The main definitions and statements:

* `Slot.standing?`, where the number of a slot stands, and `Json.standing?_eq_of_slot?`;
* `Json.isLess_eq` and `Json.isAtMost_eq`, the order by where two numbers stand;
* `inCount_eq_of_slot?`, **the range of a register is that of its slot**.
-/

import WireProgram.Program.Discipline

namespace WireProgram

/-! ### Whole numbers -/

namespace Binary64

theorem neg_le_exponent (x : Binary64) : -1074 ≤ x.magnitude.2 := by
  unfold magnitude
  split
  · exact Int.le_refl _
  · rename_i normal
    show -1074 ≤ (x.exponentField : Int) - 1075
    omega

/-- A product with a sign, in two factors. -/
theorem sign_mul {whole left right : Nat} (sign : Int) (same : whole = left * right) :
    sign * Int.ofNat whole = sign * Int.ofNat left * Int.ofNat right := by
  rw [same, Int.mul_assoc]
  exact congrArg _ (Int.natCast_mul left right)

theorem mul_pow_add (significand up base : Nat) :
    significand * Nat.pow 2 (up + base) = significand * Nat.pow 2 up * Nat.pow 2 base := by
  rw [Nat.pow_eq, Nat.pow_eq, Nat.pow_eq, Nat.pow_add, Nat.mul_assoc]

/-- A number that is an integer has the value of this integer. -/
theorem toUnits_of_toInt? {x : Binary64} {whole : Int} (same : x.toInt? = some whole) :
    x.isNaN = false ∧ x.isInfinite = false ∧ x.toUnits = units whole := by
  have least := x.neg_le_exponent
  unfold toInt? at same
  split at same
  · cases same
  rename_i finite
  refine ⟨decide_eq_false fun full => finite full.1, decide_eq_false fun full => finite full.1, ?_⟩
  unfold toUnits units
  generalize natural : (1074 : Nat) = base
  generalize x.magnitude = value at same least ⊢
  obtain ⟨significand, exponent⟩ := value
  dsimp only at same least ⊢
  split at same
  · rename_i up
    obtain rfl := Option.some.inj same
    have power : (exponent + 1074).toNat = exponent.toNat + base := by omega
    rw [power, mul_pow_add]
    exact sign_mul _ rfl
  · split at same
    · rename_i divides
      obtain rfl := Option.some.inj same
      obtain ⟨quotient, rfl⟩ := Nat.dvd_of_mod_eq_zero divides
      have power : base = (-exponent).toNat + (exponent + 1074).toNat := by omega
      rw [Nat.pow_eq, Nat.mul_div_cancel_left _ (Nat.two_pow_pos _), ← Nat.pow_eq]
      refine sign_mul _ ?_
      calc Nat.pow 2 (-exponent).toNat * quotient * Nat.pow 2 (exponent + 1074).toNat
          = quotient * Nat.pow 2 (-exponent).toNat * Nat.pow 2 (exponent + 1074).toNat := by
            rw [Nat.mul_comm quotient]
        _ = quotient * Nat.pow 2 ((-exponent).toNat + (exponent + 1074).toNat) :=
            (mul_pow_add quotient _ _).symm
        _ = quotient * Nat.pow 2 base := by rw [← power]
    · cases same

theorem mul_pow_lt_iff (left right : Int) (power : Nat) :
    left * Int.ofNat (Nat.pow 2 power) < right * Int.ofNat (Nat.pow 2 power) ↔ left < right :=
  Int.mul_lt_mul_right (Int.natCast_pos.mpr (Nat.two_pow_pos power))

theorem units_lt_iff (left right : Int) : units left < units right ↔ left < right := by
  unfold units
  generalize (1074 : Nat) = power
  exact mul_pow_lt_iff left right power

theorem units_le_iff (left right : Int) : units left ≤ units right ↔ left ≤ right := by
  rw [← Int.not_lt, ← Int.not_lt, units_lt_iff]

end Binary64

/-! ### The order of numbers -/

/-- Where the number of a slot stands among the others. -/
def Slot.standing? : Slot → Option (Int × Int)
  | .index value => some (0, Binary64.units value)
  | .fraction value => (Json.float value).standing?
  | .word _ | .nothing => none

namespace Json

/-- A document stands where the number of its slot does. -/
theorem standing?_eq_of_slot? {document : Json} {slot : Slot} (addresses : document.slot? = some slot) :
    document.standing? = slot.standing? := by
  cases document with
  | null =>
    cases addresses
    rfl
  | bool value =>
    cases addresses
    cases value with
    | false =>
      show some ((0 : Int), (0 : Int)) = some (0, Binary64.units 0)
      rw [Binary64.units, Int.zero_mul]
    | true => rfl
  | int value =>
    cases addresses
    rfl
  | float value =>
    simp only [slot?] at addresses
    cases whole : value.toInt? with
    | none =>
      rw [whole] at addresses
      cases addresses
      rfl
    | some integer =>
      rw [whole] at addresses
      cases addresses
      obtain ⟨number, finite, units⟩ := Binary64.toUnits_of_toInt? whole
      simp only [standing?, number, finite, units, Bool.false_eq_true, if_false, Slot.standing?]
  | string text =>
    cases addresses
    rfl
  | array items => cases addresses
  | object fields => cases addresses

/-- One number is less than another one by where they stand. -/
theorem isLess_eq (left right : Json) : left.isLess right =
    match left.standing?, right.standing? with
    | some left, some right => left.1 < right.1 || (left.1 = right.1 && left.2 < right.2)
    | _, _ => false := by
  cases left with
  | int first =>
    cases right with
    | int second =>
      show decide (first < second) = (decide ((0 : Int) < 0) ||
        (decide ((0 : Int) = 0) && decide (Binary64.units first < Binary64.units second)))
      rw [decide_eq_decide.mpr (Binary64.units_lt_iff first second)]
      rfl
    | _ => rfl
  | _ => rfl

/-- One number is at most another one by where they stand. -/
theorem isAtMost_eq (left right : Json) : left.isAtMost right =
    match left.standing?, right.standing? with
    | some left, some right => left.1 < right.1 || (left.1 = right.1 && left.2 ≤ right.2)
    | _, _ => false := by
  cases left with
  | int first =>
    cases right with
    | int second =>
      show decide (first ≤ second) = (decide ((0 : Int) < 0) ||
        (decide ((0 : Int) = 0) && decide (Binary64.units first ≤ Binary64.units second)))
      rw [decide_eq_decide.mpr (Binary64.units_le_iff first second)]
      rfl
    | _ => rfl
  | _ => rfl

end Json

/-! ### Registers -/

/-- **The range of a register is that of its slot.** -/
theorem inCount_eq_of_slot? {register other : Register} {slot : Slot}
    (addresses : register.slot? = some slot) (addresses' : other.slot? = some slot) (count : Json) :
    inCount count register = inCount count other := by
  have same : register.toJson.standing? = other.toJson.standing? :=
    (Json.standing?_eq_of_slot? addresses).trans (Json.standing?_eq_of_slot? addresses').symm
  unfold inCount
  rw [Json.isAtMost_eq, Json.isAtMost_eq, Json.isLess_eq, Json.isLess_eq, same]

end WireProgram
