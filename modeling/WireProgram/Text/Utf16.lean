/-
**Text in units of two bytes, most significant byte first.**

A character above U+FFFF takes a pair of surrogate units. There is no byte order mark: U+FEFF is a
character like all others.

* `Utf16.encode` writes characters;
* `Utf16.decode` reads them, or names the first range of bytes that is not well formed.
-/

import WireProgram.Bytes
import WireProgram.Text.Encoding

namespace WireProgram.Utf16

open Text

/-- The units of a character. -/
def units (c : Char) : List Nat :=
  if c.toNat < 0x10000 then [c.toNat]
  else
    let offset := c.toNat - 0x10000
    [0xD800 + offset / 0x400, 0xDC00 + offset % 0x400]

/-- The bytes of a text. -/
def encode (chars : List Char) : Bytes :=
  (chars.flatMap units).flatMap (Bytes.ofBigEndian 2)

/-- The unit that two bytes hold. -/
def unitOf (high low : UInt8) : Nat :=
  high.toNat * 256 + low.toNat

/-- Puts a character before the rest of a text. -/
def prepend (c : Char) : Except TextFault (List Char) → Except TextFault (List Char)
  | .ok chars => .ok (c :: chars)
  | .error fault => .error fault

/-- Reads the characters of a byte string that starts at a position. -/
def decodeFrom (position : Nat) : Bytes → Except TextFault (List Char)
  | [] => .ok []
  | [byte] => .error ⟨position, 1, byte, .truncated⟩
  | high :: low :: rest =>
    let unit := unitOf high low
    if unit < 0xD800 ∨ 0xDFFF < unit then
      prepend (Char.ofNat unit) (decodeFrom (position + 2) rest)
    else if 0xDC00 ≤ unit then .error ⟨position, 2, high, .illegalEncoding⟩
    else
      match rest with
      | [] => .error ⟨position, 2, high, .unexpectedEnd⟩
      | [_] => .error ⟨position, 3, high, .unexpectedEnd⟩
      | nextHigh :: nextLow :: after =>
        let next := unitOf nextHigh nextLow
        if 0xDC00 ≤ next ∧ next ≤ 0xDFFF then
          prepend (Char.ofNat (0x10000 + (unit - 0xD800) * 0x400 + (next - 0xDC00)))
            (decodeFrom (position + 4) after)
        else .error ⟨position, 2, high, .illegalSurrogate⟩

/-- Reads the characters of a byte string. -/
def decode (bytes : Bytes) : Except TextFault (List Char) :=
  decodeFrom 0 bytes

end WireProgram.Utf16
