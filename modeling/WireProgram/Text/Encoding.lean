/-
**Faults in encoded text.**

A decoder of text refuses at the first range of bytes that no text has at that place, and says which
bytes they are and why.

* `TextFault` names the range and the reason;
* `TextFault.message` words it.
-/

import WireProgram.Text.Quoted

namespace WireProgram.Text

/-- Why a range of bytes is refused. -/
inductive TextFaultReason where
  | invalidStart
  | invalidContinuation
  | unexpectedEnd
  | truncated
  | illegalEncoding
  | illegalSurrogate
  deriving DecidableEq, Inhabited

/-- The wording of a reason. -/
def TextFaultReason.message : TextFaultReason → String
  | .invalidStart => "invalid start byte"
  | .invalidContinuation => "invalid continuation byte"
  | .unexpectedEnd => "unexpected end of data"
  | .truncated => "truncated data"
  | .illegalEncoding => "illegal encoding"
  | .illegalSurrogate => "illegal UTF-16 surrogate"

/-- A refused range of bytes: its place, its length, its first byte and the reason. -/
structure TextFault where
  position : Nat
  length : Nat
  byte : UInt8
  reason : TextFaultReason
  deriving DecidableEq, Inhabited

/-- The wording of a fault found by the decoder of an encoding. -/
def TextFault.message (encoding : String) (fault : TextFault) : String :=
  let place :=
    if fault.length = 1 then
      "byte 0x" ++ String.ofList (hexPadded 2 fault.byte.toNat) ++ " in position " ++
        toString fault.position
    else
      "bytes in position " ++ toString fault.position ++ "-" ++
        toString (fault.position + fault.length - 1)
  "'" ++ encoding ++ "' codec can't decode " ++ place ++ ": " ++ fault.reason.message

end WireProgram.Text
