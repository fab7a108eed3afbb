/-
**Halves of pairs that stand alone.**

A character beyond the first plane is a pair of UTF-16 units. A text may escape one half of a pair
without the other one, which then is no character. It is kept as the private character 0xF0000
above it, and such a private character always means the half: it is written as one.

* `isHighSurrogate` and `isLowSurrogate` tell the halves apart;
* `loneSurrogate` is the character that keeps a half, and `loneSurrogate?` gives the half back.
-/

import WireProgram.Bytes

namespace WireProgram.Text

/-- Whether a UTF-16 unit is the first half of a pair. -/
def isHighSurrogate (unit : Nat) : Bool :=
  0xD800 ≤ unit ∧ unit < 0xDC00

/-- Whether a UTF-16 unit is the second half of a pair. -/
def isLowSurrogate (unit : Nat) : Bool :=
  0xDC00 ≤ unit ∧ unit < 0xE000

/-- The character that keeps half a pair. -/
def loneSurrogate (unit : Nat) : Char :=
  Char.ofNat (0xF0000 + unit)

/-- The half of a pair that a character keeps. -/
def loneSurrogate? (c : Char) : Option Nat :=
  let unit := c.toNat - 0xF0000
  if isHighSurrogate unit || isLowSurrogate unit then some unit else none

end WireProgram.Text
