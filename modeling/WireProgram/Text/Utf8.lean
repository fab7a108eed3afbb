/-
**Text in the encoding of one to four bytes a character.**

The decoder accepts exactly the well-formed sequences: no overlong form, no encoded surrogate and no
code point above U+10FFFF.

* `Utf8.encode` writes characters;
* `Utf8.decode` reads them, or names the first range of bytes that is not well formed.
-/

import WireProgram.Bytes
import WireProgram.Text.Encoding

namespace WireProgram.Utf8

open Text

/-- The bytes of a text. -/
def encode (chars : List Char) : Bytes :=
  chars.flatMap String.utf8EncodeChar

/-- What a first byte announces. -/
structure Lead where
  /-- The bits of the code point that the first byte carries. -/
  bits : Nat
  /-- The number of bytes that follow. -/
  following : Nat
  /-- The least second byte. -/
  least : Nat
  /-- The greatest second byte. -/
  greatest : Nat

/-- The reading of a byte as the first one of a character. -/
def lead? (byte : UInt8) : Option Lead :=
  let value := byte.toNat
  if value < 0x80 then some ⟨value, 0, 0x80, 0xBF⟩
  else if value < 0xC2 then none
  else if value < 0xE0 then some ⟨value - 0xC0, 1, 0x80, 0xBF⟩
  else if value < 0xF0 then
    some ⟨value - 0xE0, 2, if value = 0xE0 then 0xA0 else 0x80, if value = 0xED then 0x9F else 0xBF⟩
  else if value < 0xF5 then
    some ⟨value - 0xF0, 3, if value = 0xF0 then 0x90 else 0x80, if value = 0xF4 then 0x8F else 0xBF⟩
  else none

/-- Why the bytes after a first byte do not complete a character. -/
inductive Incomplete where
  /-- The input ended after so many good bytes. -/
  | ended (good : Nat)
  /-- A byte that cannot stand here follows so many good bytes. -/
  | refused (good : Nat)

/-- Reads the bytes that follow a first byte; the bounds hold for the next byte only. -/
def readFollowing : (count : Nat) → (least greatest : Nat) → (code good : Nat) → Bytes →
    Except Incomplete Nat
  | 0, _, _, code, _, _ => .ok code
  | _ + 1, _, _, _, good, [] => .error (.ended good)
  | count + 1, least, greatest, code, good, byte :: rest =>
    if least ≤ byte.toNat ∧ byte.toNat ≤ greatest then
      readFollowing count 0x80 0xBF (code * 64 + (byte.toNat - 0x80)) (good + 1) rest
    else .error (.refused good)

/--
Reads the characters of a byte string that starts at a position. The first `skip` bytes belong to
the character before.
-/
def decodeFrom (position : Nat) : (skip : Nat) → Bytes → Except TextFault (List Char)
  | _, [] => .ok []
  | skip + 1, _ :: rest => decodeFrom (position + 1) skip rest
  | 0, byte :: rest =>
    match lead? byte with
    | none => .error ⟨position, 1, byte, .invalidStart⟩
    | some lead =>
      match readFollowing lead.following lead.least lead.greatest lead.bits 1 rest with
      | .error (.ended good) => .error ⟨position, good, byte, .unexpectedEnd⟩
      | .error (.refused good) => .error ⟨position, good, byte, .invalidContinuation⟩
      | .ok code =>
        match decodeFrom (position + 1) lead.following rest with
        | .ok chars => .ok (Char.ofNat code :: chars)
        | .error fault => .error fault

/-- Reads the characters of a byte string. -/
def decode (bytes : Bytes) : Except TextFault (List Char) :=
  decodeFrom 0 0 bytes

end WireProgram.Utf8
