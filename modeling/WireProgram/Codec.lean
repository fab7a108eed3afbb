/-
**The codecs that a transformed view can run.**

* `Codec` holds the states of all codecs;
* `Codec.feed` and `Codec.finish` are their operations, and `Codec` is an instance of `ChunkCodec`.

Text in the alphabet of sixty-four characters is decoded in whole groups of four; the characters of
an unfinished group wait for the next bytes. A compressed member is decoded as far as its bytes go,
and once it is refused it stays refused.
-/

import WireProgram.Stream.ChunkCodec

namespace WireProgram

/-- The state of a codec. -/
inductive Codec where
  /-- Text in the alphabet of sixty-four characters, with the characters of an unfinished group. -/
  | base64 (pending : Bytes)
  /-- A compressed member, with the fault that it was refused for. -/
  | gzip (member : Gzip.Member) (refused : Option Gzip.Fault)
  /-- Every byte combined with a key by exclusive or. -/
  | xor (key : Int)
  /-- A block of so many bytes as they are. -/
  | block (left : Int)
  deriving Inhabited

namespace Codec

/-- The blanks that may stand anywhere in a text of sixty-four characters. -/
def isBlankByte (byte : UInt8) : Bool :=
  byte = 32 ∨ byte = 9 ∨ byte = 13 ∨ byte = 10

/-- Decodes a piece of text, with its faults as faults of the input. -/
def decodeText (text : Bytes) : Except Fault Bytes :=
  (Base64.decode text).mapError fun fault => .decode (.malformedBase64 fault)

/-- Takes the characters of a text; whole groups of four are decoded, the others wait. -/
def feedBase64 (pending given : Bytes) : Except Fault (Bytes × Int) × Codec :=
  let text := pending ++ given.filter fun byte => !isBlankByte byte
  let whole := text.length - text.length % 4
  ((decodeText (text.take whole)).map fun bytes => (bytes, (given.length : Int)),
    .base64 (text.drop whole))

/-- Takes the bytes of a member; the output is what they add to the content. -/
def feedGzip (member : Gzip.Member) (refused : Option Gzip.Fault) (given : Bytes) :
    Except Fault (Bytes × Int) × Codec :=
  match refused with
  | some fault => (.error (.decode (.malformedGzip fault)), .gzip member refused)
  | none =>
    let before := member.body.output.size
    match member.takeAll given with
    | .error fault => (.error (.decode (.malformedGzip fault)), .gzip {} (some fault))
    | .ok (next, rest) =>
      (.ok ((next.body.output.extract before next.body.output.size).toList,
        (given.length : Int) - (rest.length : Int)), .gzip next none)

/-- The exclusive or of a byte with a key; only a key of one byte gives a byte. -/
def xorByte (key : Int) (byte : UInt8) : Option UInt8 :=
  if 0 ≤ key ∧ key < 256 then some (byte ^^^ UInt8.ofNat key.toNat) else none

/-- Passes on the bytes of a block. A negative length counts from the end of the bytes. -/
def feedBlock (left : Int) (given : Bytes) : Except Fault (Bytes × Int) × Codec :=
  let used := min left (given.length : Int)
  let passed := if used < 0 then given.length - (-used).toNat else used.toNat
  (.ok (given.take passed, used), .block (left - used))

/-- Whether a codec wants no more bytes. -/
def finished : Codec → Bool
  | .gzip member _ => member.isComplete
  | .block left => left = 0
  | _ => false

/-- Takes bytes. -/
def feed : Codec → Bytes → Except Fault (Bytes × Int) × Codec
  | .base64 pending, given => feedBase64 pending given
  | .gzip member refused, given => feedGzip member refused given
  | .xor key, given =>
    match given.mapM (xorByte key) with
    | some bytes => (.ok (bytes, (given.length : Int)), .xor key)
    | none => (.error (.misuse .wrongValue), .xor key)
  | .block left, given => feedBlock left given

/-- Ends the input. -/
def finish : Codec → Except Fault Bytes × Codec
  | .base64 pending =>
    (if pending.isEmpty then .ok [] else decodeText pending, .base64 pending)
  | .gzip member refused =>
    (if member.isComplete then .ok [] else .error (.decode .truncatedMember),
      .gzip member refused)
  | .xor key => (.ok [], .xor key)
  | .block left => (.ok [33], .block left)

/-- The bytes that may come out at the end without any going in. -/
def reserve : Codec → Nat
  | .base64 pending => pending.length
  | .gzip _ _ => 0
  | .xor _ => 0
  | .block _ => 1

instance : ChunkCodec Codec where
  finished := finished
  feed := feed
  finish := finish
  -- a bit completes at most one copy, and a copy has at most 258 bytes
  gain := 8 * 258
  reserve := reserve

end Codec

end WireProgram
