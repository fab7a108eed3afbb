/-
**Text in the alphabet of sixty-four characters.**

Four characters carry three bytes. The reader is strict: it refuses characters outside the alphabet,
padding completes a group of four, and nothing follows the padding that completes one.

* `Base64.digit?` and `Base64.character` are the alphabet;
* `Base64.decode` reads a text without blanks;
* `Base64.encode` writes the padded text of a byte string.
-/

import WireProgram.Bytes

namespace WireProgram

/-- Why a text in the alphabet of sixty-four characters is refused. -/
inductive Base64Fault where
  | leadingPadding
  | foreignCharacter
  | discontinuousPadding
  | excessAfterPadding
  | incorrectPadding
  | danglingCharacter (count : Nat)
  deriving DecidableEq, Inhabited

/-- The wording of a fault. -/
def Base64Fault.message : Base64Fault → String
  | .leadingPadding => "Leading padding not allowed"
  | .foreignCharacter => "Only base64 data is allowed"
  | .discontinuousPadding => "Discontinuous padding not allowed"
  | .excessAfterPadding => "Excess data after padding"
  | .incorrectPadding => "Incorrect padding"
  | .danglingCharacter count =>
    "Invalid base64-encoded string: number of data characters (" ++ toString count ++
      ") cannot be 1 more than a multiple of 4"

namespace Base64

/-- The padding character. -/
def padding : UInt8 := 61

/-- The value of a character of the alphabet. -/
def digit? (character : UInt8) : Option Nat :=
  let code := character.toNat
  if 65 ≤ code ∧ code ≤ 90 then some (code - 65)
  else if 97 ≤ code ∧ code ≤ 122 then some (code - 71)
  else if 48 ≤ code ∧ code ≤ 57 then some (code + 4)
  else if code = 43 then some 62
  else if code = 47 then some 63
  else none

/-- The character of a value below sixty-four. -/
def character (digit : Nat) : UInt8 :=
  if digit < 26 then UInt8.ofNat (digit + 65)
  else if digit < 52 then UInt8.ofNat (digit + 71)
  else if digit < 62 then UInt8.ofNat (digit - 4)
  else if digit = 62 then 43
  else 47

/-- Where a reader stands in a text. -/
structure Progress where
  /-- The place in the group of four. -/
  place : Nat := 0
  /-- The bits of the last character that no byte holds yet. -/
  carry : Nat := 0
  /-- The padding characters read since the last character of the alphabet. -/
  pads : Nat := 0
  /-- The characters of the alphabet read so far. -/
  count : Nat := 0
  /-- Whether padding has been seen. -/
  padded : Bool := false

/-- The byte that a character completes, if it completes one, and the bits that it leaves over. -/
def join (place carry digit : Nat) : Bytes × Nat :=
  if place = 0 then ([], digit)
  else if place = 1 then ([UInt8.ofNat (carry * 4 + digit / 16)], digit % 16)
  else if place = 2 then ([UInt8.ofNat (carry * 16 + digit / 4)], digit % 4)
  else ([UInt8.ofNat (carry * 64 + digit)], 0)

/-- Reads the rest of a text. -/
def read : Progress → Bytes → Except Base64Fault Bytes
  | progress, [] =>
    if progress.place = 0 then .ok []
    else if progress.place = 1 then .error (.danglingCharacter progress.count)
    else .error .incorrectPadding
  | progress, next :: rest =>
    if next = padding then
      if 2 ≤ progress.place then
        if 4 ≤ progress.place + progress.pads + 1 then
          if rest.isEmpty then .ok [] else .error .excessAfterPadding
        else read { progress with padded := true, pads := progress.pads + 1 } rest
      else read { progress with padded := true } rest
    else
      match digit? next with
      | none => .error .foreignCharacter
      | some digit =>
        if progress.padded then .error .discontinuousPadding
        else
          let (bytes, carry) := join progress.place progress.carry digit
          match read ⟨(progress.place + 1) % 4, carry, 0, progress.count + 1, false⟩ rest with
          | .ok others => .ok (bytes ++ others)
          | .error fault => .error fault

/-- Reads a text. -/
def decode (text : Bytes) : Except Base64Fault Bytes :=
  if text.head? = some padding then .error .leadingPadding else read {} text

/-- The padded text of a byte string. -/
def encode : Bytes → Bytes
  | [] => []
  | [a] => [character (a.toNat / 4), character (a.toNat % 4 * 16), padding, padding]
  | [a, b] =>
    [character (a.toNat / 4), character (a.toNat % 4 * 16 + b.toNat / 16),
      character (b.toNat % 16 * 4), padding]
  | a :: b :: c :: rest =>
    character (a.toNat / 4) :: character (a.toNat % 4 * 16 + b.toNat / 16) ::
      character (b.toNat % 16 * 4 + c.toNat / 64) :: character (c.toNat % 64) :: encode rest

end Base64

end WireProgram
