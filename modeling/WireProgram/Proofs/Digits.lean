/-
**Numbers in bytes.**

A byte string spells a number by its digits of base 256, in either order. Written with so many digits, a
number is read back as far as there is room, and the digits of what a byte string spells are the byte
string. The main statements:

* `Bytes.littleEndian_ofLittleEndian` and `Bytes.ofLittleEndian_littleEndian`, the last digit in front;
* `Bytes.bigEndian_ofBigEndian` and `Bytes.ofBigEndian_bigEndian`, the first digit in front.
-/

import Mathlib.Data.List.Induction
import WireProgram.Bytes

namespace WireProgram.Bytes

/-! ### The last digit in front -/

/-- The bytes of a number spell it, as far as there is room. -/
theorem littleEndian_ofLittleEndian (width value : Nat) :
    littleEndian (ofLittleEndian width value) = value % Nat.pow 256 width := by
  induction width generalizing value with
  | zero => exact (Nat.mod_one value).symm
  | succ width hypothesis =>
    have parts : value % Nat.pow 256 (width + 1) =
        value % 256 + 256 * (value / 256 % Nat.pow 256 width) := by
      rw [← Nat.mod_mul, Nat.mul_comm]
      rfl
    rw [ofLittleEndian, littleEndian, hypothesis, UInt8.toNat_ofNat', Nat.mod_mod, parts]

/-- A number that fits in two bytes. -/
theorem littleEndian_ofLittleEndian_two {value : Nat} (small : value ≤ 0xFFFF) :
    littleEndian (ofLittleEndian 2 value) = value :=
  (littleEndian_ofLittleEndian 2 value).trans (Nat.mod_eq_of_lt (Nat.lt_succ_of_le small))

/-- The digits of what a byte string spells are its bytes. -/
theorem ofLittleEndian_littleEndian (bytes : Bytes) :
    ofLittleEndian bytes.length (littleEndian bytes) = bytes := by
  induction bytes with
  | nil => rfl
  | cons byte rest hypothesis =>
    have small : byte.toNat < 256 := byte.toNat_lt
    have first : (byte.toNat + 256 * littleEndian rest) % 256 = byte.toNat := by omega
    have others : (byte.toNat + 256 * littleEndian rest) / 256 = littleEndian rest := by omega
    rw [List.length_cons, littleEndian, ofLittleEndian, first, others, hypothesis, UInt8.ofNat_toNat]

theorem littleEndian_lt (bytes : Bytes) : littleEndian bytes < Nat.pow 256 bytes.length := by
  induction bytes with
  | nil => exact Nat.one_pos
  | cons byte rest hypothesis =>
    have small : byte.toNat < 256 := byte.toNat_lt
    have scaled : Nat.pow 256 (rest.length + 1) = Nat.pow 256 rest.length * 256 := rfl
    rw [List.length_cons, littleEndian, scaled]
    omega

theorem length_ofLittleEndian (width value : Nat) : (ofLittleEndian width value).length = width := by
  induction width generalizing value with
  | zero => rfl
  | succ width hypothesis => exact congrArg (· + 1) (hypothesis _)

/-! ### The first digit in front -/

/-- The two orders spell the same number backwards. -/
theorem bigEndian_eq_littleEndian_reverse (bytes : Bytes) :
    bigEndian bytes = littleEndian bytes.reverse := by
  induction bytes using List.reverseRecOn with
  | nil => rfl
  | append_singleton front last hypothesis =>
    unfold bigEndian at hypothesis ⊢
    rw [List.foldl_append, hypothesis, List.reverse_append]
    show littleEndian front.reverse * 256 + last.toNat = last.toNat + 256 * littleEndian front.reverse
    omega

theorem bigEndian_lt (bytes : Bytes) : bigEndian bytes < Nat.pow 256 bytes.length := by
  rw [bigEndian_eq_littleEndian_reverse, ← List.length_reverse]
  exact littleEndian_lt _

theorem length_ofBigEndian (width value : Nat) : (ofBigEndian width value).length = width := by
  rw [ofBigEndian, List.length_reverse, length_ofLittleEndian]

theorem bigEndian_ofBigEndian (width value : Nat) :
    bigEndian (ofBigEndian width value) = value % Nat.pow 256 width := by
  rw [bigEndian_eq_littleEndian_reverse, ofBigEndian, List.reverse_reverse,
    littleEndian_ofLittleEndian]

theorem ofBigEndian_bigEndian (bytes : Bytes) :
    ofBigEndian bytes.length (bigEndian bytes) = bytes := by
  rw [bigEndian_eq_littleEndian_reverse, ofBigEndian, ← List.length_reverse,
    ofLittleEndian_littleEndian, List.reverse_reverse]

end WireProgram.Bytes
