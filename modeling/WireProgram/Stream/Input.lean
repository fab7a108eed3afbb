/-
**Raw inputs: what the replies to a sequence of reads will be.**

A raw input is read in chunks. Its future is the list of its replies: some bytes, nothing yet, or a
failure; after the last one every reply is empty, which is the end of the input.

* `Chunk` is one reply;
* `Input` is a raw input and the number of bytes it has handed out;
* `Input.ofBytes` cuts a byte string into the chunks that reads of one size get.
-/

import WireProgram.Bytes

namespace WireProgram

/-- A reply of a raw input. -/
inductive Chunk where
  /-- Some bytes; none at all are the end of the input. -/
  | bytes (content : Bytes)
  /-- Nothing yet. -/
  | absent
  /-- A failure with its description. -/
  | failure (reason : String)
  deriving DecidableEq, Inhabited

/-- The number of bytes of a reply. -/
def Chunk.size : Chunk → Nat
  | .bytes content => content.length
  | _ => 0

/-- A raw input. -/
structure Input where
  /-- The replies to come. -/
  pending : List Chunk := []
  /-- The number of bytes handed out so far. -/
  pulled : Nat := 0
  deriving DecidableEq, Inhabited

namespace Input

/-- Cuts a byte string into pieces of a positive size; the fuel bounds their number. -/
def split (size : Nat) : (fuel : Nat) → Bytes → List Chunk
  | 0, _ => []
  | fuel + 1, bytes =>
    if bytes.isEmpty then [] else .bytes (bytes.take size) :: split size fuel (bytes.drop size)

/--
The replies of a byte string to reads of one size. A read of no bytes gets none, a read of fewer
gets them all.
-/
def ofBytes (size : Int) (bytes : Bytes) : Input :=
  if size < 0 then ⟨if bytes.isEmpty then [] else [.bytes bytes], 0⟩
  else if size = 0 then ⟨[], 0⟩
  else ⟨split size.toNat bytes.length bytes, 0⟩

/-- The number of bytes that may still come. -/
def remaining (input : Input) : Nat :=
  (input.pending.map Chunk.size).foldr (· + ·) 0

end Input

end WireProgram
