/-
**One compressed member: header, body and trailer.**

The reader takes one byte at a time and stands in a new state or refuses, so that feeding it in
pieces is feeding it the whole. Bytes after the member are not taken. The main definitions:

* `Gzip.Stage`, the part of the member that comes next;
* `Gzip.Member.takeByte` and `Gzip.Member.takeAll`, its transitions;
* `checksum`, the cyclic redundancy check of header and content.
-/

import WireProgram.Codec.Deflate

namespace WireProgram.Gzip

/-- Why a member is refused. -/
inductive Fault where
  | headerMagic
  | compressionMethod
  | headerFlags
  | headerSum
  | body (fault : Deflate.Fault)
  | contentSum
  | contentLength
  deriving DecidableEq, Inhabited

/-- The wording of a fault. -/
def Fault.message : Fault → String
  | .headerMagic => "incorrect header check"
  | .compressionMethod => "unknown compression method"
  | .headerFlags => "unknown header flags set"
  | .headerSum => "header crc mismatch"
  | .body fault => fault.message
  | .contentSum => "incorrect data check"
  | .contentLength => "incorrect length check"

/-! ### Checksums -/

/-- Shifts a remainder by so many bits, dividing by the polynomial of the check. -/
def shiftRemainder : Nat → UInt32 → UInt32
  | 0, remainder => remainder
  | count + 1, remainder =>
    shiftRemainder count
      (if remainder % 2 = 1 then (remainder >>> 1) ^^^ 0xEDB88320 else remainder >>> 1)

/-- Takes one byte into a running check, whose bits are inverted. -/
def checkByte (remainder : UInt32) (byte : UInt8) : UInt32 :=
  shiftRemainder 8 (remainder ^^^ byte.toUInt32)

/-- The running check of no bytes. -/
def checkStart : UInt32 := 0xFFFFFFFF

/-- The check that a running one stands for. -/
def checkValue (remainder : UInt32) : Nat :=
  (remainder ^^^ 0xFFFFFFFF).toNat

/-- The cyclic redundancy check of a byte string. -/
def checksum (bytes : Bytes) : Nat :=
  checkValue (bytes.foldl checkByte checkStart)

/-! ### The member -/

/-- The optional parts of a header, as its flags announce them. -/
structure Flags where
  /-- An extra field with its length. -/
  extra : Bool
  /-- A file name that ends with a zero. -/
  name : Bool
  /-- A comment that ends with a zero. -/
  comment : Bool
  /-- A check of the header. -/
  check : Bool
  deriving DecidableEq, Inhabited

/-- Reads the flags of a byte. -/
def Flags.ofByte (byte : UInt8) : Flags :=
  ⟨byte.toNat / 4 % 2 = 1, byte.toNat / 8 % 2 = 1, byte.toNat / 16 % 2 = 1, byte.toNat / 2 % 2 = 1⟩

/-- The part of a member that comes next. -/
inductive Stage where
  /-- The ten fixed bytes of the header. -/
  | fixed (read : Bytes)
  /-- The two bytes with the length of the extra field. -/
  | extraLength (flags : Flags) (read : Bytes)
  /-- The bytes of the extra field. -/
  | extra (flags : Flags) (left : Nat)
  /-- The bytes of the file name. -/
  | name (flags : Flags)
  /-- The bytes of the comment. -/
  | comment (flags : Flags)
  /-- The two bytes with the check of the header. -/
  | headerSum (read : Bytes)
  /-- The compressed body. -/
  | body
  /-- The eight bytes with the check and the length of the content. -/
  | trailer (read : Bytes)
  /-- Nothing: the member is complete. -/
  | complete
  deriving Inhabited

/-- A reader of a member: its stage, the running check of the header, and the state of the body. -/
structure Member where
  stage : Stage := .fixed []
  headerCheck : UInt32 := checkStart
  body : Deflate.State := {}
  deriving Inhabited

/-- Whether the member is complete. -/
def Member.isComplete (member : Member) : Bool :=
  match member.stage with
  | .complete => true
  | _ => false

/-- The stage after the comment. -/
def Stage.afterComment (flags : Flags) : Stage :=
  if flags.check then .headerSum [] else .body

/-- The stage after the file name. -/
def Stage.afterName (flags : Flags) : Stage :=
  if flags.comment then .comment flags else afterComment flags

/-- The stage after the extra field. -/
def Stage.afterExtra (flags : Flags) : Stage :=
  if flags.name then .name flags else afterName flags

/-- The stage after the fixed part of the header. -/
def Stage.afterFixed (flags : Flags) : Stage :=
  if flags.extra then .extraLength flags [] else afterExtra flags

/-- The stage after the fixed bytes read so far. Each field is checked as soon as it is there. -/
def Stage.ofFixed (read : Bytes) : Except Fault Stage :=
  if read.length = 2 ∧ read ≠ [0x1F, 0x8B] then .error .headerMagic
  else if read.length = 4 ∧ read.getD 2 0 ≠ 8 then .error .compressionMethod
  else if read.length = 4 ∧ 32 ≤ (read.getD 3 0).toNat then .error .headerFlags
  else if read.length < 10 then .ok (.fixed read)
  else .ok (afterFixed (Flags.ofByte (read.getD 3 0)))

/-- The stage after the trailer bytes read so far. -/
def Stage.ofTrailer (content : Array UInt8) (read : Bytes) : Except Fault Stage :=
  if read.length = 4 ∧ Bytes.littleEndian read ≠ checksum content.toList then .error .contentSum
  else if read.length < 8 then .ok (.trailer read)
  else if Bytes.littleEndian (read.drop 4) ≠ content.size % Nat.pow 2 32 then .error .contentLength
  else .ok .complete

/-- Moves to a stage of the header, with the byte taken into its check. -/
def Member.inHeader (member : Member) (byte : UInt8) (stage : Stage) : Member :=
  { member with stage := stage, headerCheck := checkByte member.headerCheck byte }

/-- Takes one byte of the body. -/
def Member.takeBodyByte (member : Member) (byte : UInt8) : Except Fault Member :=
  let body := member.body
  let rest := { member with body := {} }
  match body.takeByte byte with
  | .error fault => .error (.body fault)
  | .ok next => .ok { rest with body := next, stage := if next.isDone then .trailer [] else .body }

/-- Takes one byte. -/
def Member.takeByte (member : Member) (byte : UInt8) : Except Fault Member :=
  match member.stage with
  | .fixed read =>
    match Stage.ofFixed (read ++ [byte]) with
    | .ok stage => .ok (member.inHeader byte stage)
    | .error fault => .error fault
  | .extraLength flags read =>
    let read := read ++ [byte]
    if read.length < 2 then .ok (member.inHeader byte (.extraLength flags read))
    else
      let length := Bytes.littleEndian read
      .ok (member.inHeader byte
        (if length = 0 then .afterExtra flags else .extra flags length))
  | .extra flags left =>
    .ok (member.inHeader byte (if left ≤ 1 then .afterExtra flags else .extra flags (left - 1)))
  | .name flags => .ok (member.inHeader byte (if byte = 0 then .afterName flags else .name flags))
  | .comment flags =>
    .ok (member.inHeader byte (if byte = 0 then .afterComment flags else .comment flags))
  | .headerSum read =>
    let read := read ++ [byte]
    if read.length < 2 then .ok { member with stage := .headerSum read }
    else if Bytes.littleEndian read ≠ checkValue member.headerCheck % Nat.pow 2 16 then
      .error .headerSum
    else .ok { member with stage := .body }
  | .body => member.takeBodyByte byte
  | .trailer read =>
    match Stage.ofTrailer member.body.output (read ++ [byte]) with
    | .ok stage => .ok { member with stage := stage }
    | .error fault => .error fault
  | .complete => .ok member

/-- Takes bytes until the member is complete, and hands back those that are left. -/
def Member.takeAll : Member → Bytes → Except Fault (Member × Bytes)
  | member, [] => .ok (member, [])
  | member, byte :: rest =>
    if member.isComplete then .ok (member, byte :: rest)
    else
      match member.takeByte byte with
      | .ok next => next.takeAll rest
      | .error fault => .error fault

end WireProgram.Gzip
