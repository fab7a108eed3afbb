/-
**The scalar types of the wire and their encodings.**

All are big-endian; the signed integers are two's complement. The main definitions:

* `Primitive`, its `name`, its `width` in bytes and the reverse look-up `Primitive.ofName?`;
* `Scalar`, the value of one element;
* `Primitive.decode`, the value of a string of exactly `width` bytes;
* `Primitive.encode`, the bytes of an integer.
-/

import WireProgram.Binary64

namespace WireProgram

/-- A scalar type. -/
inductive Primitive where
  | bool
  | u8
  | u16
  | u32
  | u64
  | u128
  | i8
  | i16
  | i32
  | i64
  | i128
  | f32
  | f64
  deriving DecidableEq, Inhabited

/-- The value of a scalar. -/
inductive Scalar where
  | bool (value : Bool)
  | int (value : Int)
  | float (value : Binary64)
  deriving DecidableEq, Inhabited

namespace Primitive

/-- Every scalar type. -/
def all : List Primitive :=
  [.bool, .u8, .u16, .u32, .u64, .u128, .i8, .i16, .i32, .i64, .i128, .f32, .f64]

/-- The name of a scalar type in programs and messages. -/
def name : Primitive → String
  | .bool => "bool"
  | .u8 => "u8"
  | .u16 => "u16"
  | .u32 => "u32"
  | .u64 => "u64"
  | .u128 => "u128"
  | .i8 => "i8"
  | .i16 => "i16"
  | .i32 => "i32"
  | .i64 => "i64"
  | .i128 => "i128"
  | .f32 => "f32"
  | .f64 => "f64"

/-- The scalar type of a name. -/
def ofName? (name : String) : Option Primitive :=
  all.find? fun primitive => primitive.name = name

/-- The number of bytes of a scalar. -/
def width : Primitive → Nat
  | .bool | .u8 | .i8 => 1
  | .u16 | .i16 => 2
  | .u32 | .i32 | .f32 => 4
  | .u64 | .i64 | .f64 => 8
  | .u128 | .i128 => 16

/-- Whether the scalars are signed integers. -/
def isSigned : Primitive → Bool
  | .i8 | .i16 | .i32 | .i64 | .i128 => true
  | _ => false

/-- The integer that a byte string spells, signed or not. -/
def integer (primitive : Primitive) (bytes : Bytes) : Int :=
  if primitive.isSigned then twosComplement (8 * bytes.length) bytes.bigEndian
  else bytes.bigEndian

/-- The scalar that a string of `width` bytes spells. A truth value is true unless it is zero. -/
def decode (primitive : Primitive) (bytes : Bytes) : Scalar :=
  match primitive with
  | .bool => .bool (bytes.bigEndian ≠ 0)
  | .f32 => .float (Binary64.ofSingle bytes.bigEndian)
  | .f64 => .float ⟨UInt64.ofNat bytes.bigEndian⟩
  | primitive => .int (primitive.integer bytes)

/-- The bytes of an integer: its residue modulo `256 ^ width`. -/
def encode (primitive : Primitive) (value : Int) : Bytes :=
  Bytes.ofBigEndian primitive.width (value % (Nat.pow 256 primitive.width : Nat)).toNat

/-- Cuts a byte string into pieces of a width; a shorter last piece is dropped. -/
def pieces (width : Nat) : (count : Nat) → Bytes → List Bytes
  | 0, _ => []
  | count + 1, bytes => bytes.take width :: pieces width count (bytes.drop width)

/-- The scalars of a byte string, one after another. -/
def decodeAll (primitive : Primitive) (bytes : Bytes) : List Scalar :=
  (pieces primitive.width (bytes.length / primitive.width) bytes).map primitive.decode

/-- The memory form of a scalar: least significant byte first. -/
def memory (primitive : Primitive) : Scalar → Bytes
  | .bool value => [if value then 1 else 0]
  | .int value => (primitive.encode value).reverse
  | .float value =>
    if primitive = .f32 then Bytes.ofLittleEndian 4 value.toSingle
    else Bytes.ofLittleEndian 8 value.bits.toNat

end Primitive

end WireProgram
