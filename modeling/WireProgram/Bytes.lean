/-
**Byte strings and how integers are read from them.**

A byte string is a list of octets. The main definitions:

* `Bytes.bigEndian` and `Bytes.ofBigEndian` read and write a natural number, most significant byte
  first;
* `twosComplement` reads a number below `2 ^ bits` as a signed one;
* `Bytes.toHex` and `Bytes.ofHex?` write and read the hexadecimal form of a byte string.
-/

namespace WireProgram

/-- A string of octets. -/
abbrev Bytes := List UInt8

/-- The reading of a number below `2 ^ bits` as a two's complement number of `bits` bits. -/
def twosComplement (bits : Nat) (value : Nat) : Int :=
  if value < Nat.pow 2 (bits - 1) then (value : Int) else (value : Int) - (Nat.pow 2 bits : Nat)

namespace Bytes

/-! ### Integers -/

/-- The number that a byte string spells, most significant byte first. -/
def bigEndian (bytes : Bytes) : Nat :=
  bytes.foldl (fun total byte => total * 256 + byte.toNat) 0

/-- The number that a byte string spells, least significant byte first. -/
def littleEndian : Bytes → Nat
  | [] => 0
  | byte :: rest => byte.toNat + 256 * littleEndian rest

/-- The last `width` base-256 digits of a number, least significant byte first. -/
def ofLittleEndian : Nat → Nat → Bytes
  | 0, _ => []
  | width + 1, value => UInt8.ofNat (value % 256) :: ofLittleEndian width (value / 256)

/-- The last `width` base-256 digits of a number, most significant byte first. -/
def ofBigEndian (width value : Nat) : Bytes :=
  (ofLittleEndian width value).reverse

/-! ### Hexadecimal text -/

/-- The lower case hexadecimal digit of a number below sixteen. -/
def hexDigit (value : Nat) : Char :=
  if value < 10 then Char.ofNat (48 + value) else Char.ofNat (87 + value)

/-- The value of a hexadecimal digit of either case. -/
def hexValue? (c : Char) : Option Nat :=
  if '0' ≤ c ∧ c ≤ '9' then some (c.toNat - 48)
  else if 'a' ≤ c ∧ c ≤ 'f' then some (c.toNat - 87)
  else if 'A' ≤ c ∧ c ≤ 'F' then some (c.toNat - 55)
  else none

/-- Two lower case digits for each byte. -/
def toHex (bytes : Bytes) : String :=
  String.ofList (bytes.flatMap fun byte => [hexDigit (byte.toNat / 16), hexDigit (byte.toNat % 16)])

/-- The blanks that may stand between two pairs of hexadecimal digits. -/
def isHexBlank (c : Char) : Bool :=
  c = ' ' ∨ ('\t' ≤ c ∧ c ≤ '\r')

/-- Reads pairs of hexadecimal digits, which blanks may separate. -/
def ofHexChars? : List Char → Option Bytes
  | [] => some []
  | [c] => if isHexBlank c then some [] else none
  | high :: low :: rest =>
    if isHexBlank high then ofHexChars? (low :: rest)
    else do
      let upper ← hexValue? high
      let lower ← hexValue? low
      let bytes ← ofHexChars? rest
      return UInt8.ofNat (16 * upper + lower) :: bytes

/-- Reads the hexadecimal form of a byte string. -/
def ofHex? (text : String) : Option Bytes :=
  ofHexChars? text.toList

end Bytes

end WireProgram
