/-
**Incremental codecs.**

A codec takes bytes as they come and gives decoded ones. It uses all it is given until it is
finished; what it does not use stays where it was.

* `ChunkCodec` is the interface of a codec, by its states.
-/

import WireProgram.Fault

namespace WireProgram

/-- The operations of a codec on its states. -/
class ChunkCodec (State : Type) where
  /-- Whether the codec wants no more bytes. -/
  finished : State → Bool
  /-- Takes bytes; gives decoded bytes and the number of bytes used, and the next state. -/
  feed : State → Bytes → Except Fault (Bytes × Int) × State
  /-- Ends the input; gives the last decoded bytes. -/
  finish : State → Except Fault Bytes × State
  /-- At most so many bytes come out for one that goes in. -/
  gain : Nat
  /-- At most so many more bytes come out in the end. -/
  reserve : State → Nat

end WireProgram
