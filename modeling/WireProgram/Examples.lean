/-
**Programs to start from.**

Each one decodes a small format that shows one or two instructions.

* `Examples.programs` are the ones that need nothing but the built-in capabilities;
* `Examples.colored` and `Examples.envelope` use registered types.
-/

import WireProgram.Resolver.Prelude
import WireProgram.Types

namespace WireProgram.Examples

/-- A numbered register. -/
def register (number : Nat) : Register :=
  .index number

/-- A program of so many registers. -/
def programOf (registers : Nat) (instructions : List Instruction) : Program :=
  { instructions := instructions, registerCount := .int registers }

/-- Reads a scalar where the scope reads. -/
def scalar (data : Nat) (primitive : String) : Instruction :=
  .decodePrimitive .direct (register data) primitive

/-- The text type of one to four bytes a character. -/
def utf8 : ForeignType := ⟨"utf8", .utf8⟩

/-- The transform of a compressed member. -/
def gzip : Transform := ⟨"gzip", .gzip⟩

/-- A version, a switch and a length. -/
def header : Program :=
  { programOf 4
      [scalar 0 "u8", scalar 1 "bool", scalar 2 "u16",
        .construct (register 3)
          (.struct "Header"
            [("version", register 0), ("flags", register 1), ("length", register 2)])] with
    fields := [("version", register 0), ("flags", register 1), ("length", register 2)] }

/-- Text bounded by a length before it, and a byte. -/
def lengthPrefixedText : Program :=
  programOf 5
    [scalar 0 "u16",
      .constrict .direct (register 1) (register 0),
      .decodeForeign (.stream (register 1)) (register 2) utf8 [],
      scalar 3 "u8",
      .construct (register 4) (.tuple [register 2, register 3])]

/-- So many numbers of two bytes. -/
def countedArray : Program :=
  programOf 2 [scalar 0 "u8", .decodeArray .direct (register 1) "u16" (some (register 0))]

/-- Signed numbers of four bytes up to the end. -/
def trailingArray : Program :=
  programOf 1 [.decodeArray .direct (register 0) "i32" none]

/-- The body of a loop that collects bytes. -/
def collectByte : List Instruction :=
  [scalar 1 "u8", .loopOutput (register 2) (register 1)]

/-- So many bytes, collected by a loop. -/
def countedItems : Program :=
  programOf 3
    [scalar 0 "u8", .loop .direct (some (register 0)) none (register 2) collectByte]

/-- Bytes up to a terminator. -/
def terminatedItems (terminator : Bytes) : Program :=
  programOf 3
    [.eval (register 0) (.constant (.bytes terminator)),
      .loop .direct none (some (register 0)) (register 2) collectByte]

/-- Entries of a byte and a variable-length integer up to the end. -/
def varintEntries : Program :=
  programOf 4
    [.loop .direct none none (register 3)
      [scalar 0 "u8",
        .decodeForeign .direct (register 1) ⟨"v32", .varint 32⟩ [],
        .construct (register 2) (.tagged "Entry" [register 0, register 1]),
        .loopOutput (register 3) (register 2)]]

/-- A number that is there only if a switch says so. -/
def optionalNumber : Program :=
  programOf 3
    [scalar 0 "bool",
      .conditional (register 2) (register 1) (register 0) [scalar 1 "u32"]]

/-- Text of a given length that may be compressed. -/
def maybeCompressedText : Program :=
  programOf 5
    [scalar 0 "bool", scalar 1 "u32",
      .constrict .direct (register 2) (register 1),
      .conditionalWrapStream (register 0) [] (.stream (register 2)) (register 3) gzip [],
      .decodeForeign (.stream (register 3)) (register 4) utf8 []]

/-- A region of which only the first byte is read, and the byte after what was read. -/
def regionHead : Program :=
  programOf 5
    [scalar 0 "u8",
      .constrict .direct (register 1) (register 0),
      .decodePrimitive (.stream (register 1)) (register 2) "u8",
      scalar 3 "u8",
      .construct (register 4) (.tuple [register 2, register 3])]

/-- Compressed text and the byte after it. -/
def compressedThenTrailer : Program :=
  programOf 4
    [.wrapStream .direct (register 0) gzip [],
      .decodeForeign (.stream (register 0)) (register 1) utf8 [],
      scalar 2 "u8",
      .construct (register 3) (.tuple [register 1, register 2])]

/-- Text of a given length and the bytes that pad it. -/
def paddedBlock : Program :=
  { programOf 5
      [scalar 0 "u8",
        .eval (register 1)
          (.call ⟨"pad", .padding⟩ [.field "len", .constant (.int 4)]),
        .decodeForeign .direct (register 2) utf8 [register 0],
        .decodeArray .direct (register 3) "u8" (some (register 1)),
        .construct (register 4)
          (.struct "Block" [("text", register 2), ("padding", register 3)])] with
    fields := [("len", register 0)] }

/-- The programs that need nothing but the built-in capabilities. -/
def programs : List (String × Program) := [
  ("header", header),
  ("length_prefixed_text", lengthPrefixedText),
  ("counted_u16_array", countedArray),
  ("trailing_i32_array", trailingArray),
  ("counted_items", countedItems),
  ("terminated_items", terminatedItems [0]),
  ("varint_entries", varintEntries),
  ("optional_u32", optionalNumber),
  ("maybe_gzip_text", maybeCompressedText),
  ("padded_block", paddedBlock),
  ("region_head", regionHead),
  ("gzip_then_trailer", compressedThenTrailer)]

/-! ### Programs with registered types -/

/-- A member of an enumeration of colours. -/
def colored : Program :=
  programOf 1 [.decodeEnumeration "Color" "u8" (register 0) .direct]

/-- The types of `colored`. -/
def coloredTypes : Types :=
  [("Color", .enumeration ⟨"Color", [("RED", .int 0), ("GREEN", .int 1)], true⟩)]

/-- A header, decoded by reference, and a byte. -/
def envelope : Program :=
  programOf 3
    [.decodeReference .direct (register 0) "Header" [],
      scalar 1 "u8",
      .construct (register 2) (.tuple [register 0, register 1])]

/-- The types of `envelope`. -/
def envelopeTypes : Types :=
  [("Header", .message { name := "Header", program := header, standalone := true })]

/-- A program by its name, with the types that it brings; other types may replace those. -/
def find? (name : String) (terminator : Option Bytes) (types : Option Types) :
    Option (Program × Types) :=
  if name = "colored" then some (colored, coloredTypes)
  else if name = "envelope" then some (envelope, types.getD envelopeTypes)
  else if name = "terminated_items" then some (terminatedItems (terminator.getD [0]), [])
  else (programs.lookup name).map fun program => (program, [])

end WireProgram.Examples
