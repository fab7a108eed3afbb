/-
**Registers: the names under which a program keeps its values.**

A register is normally a number. A document may write anything else in its place, and what it wrote
is kept; two spellings of one number are one register. The main definitions:

* `Slot`, what a document addresses in a table, and `Json.slot?`;
* `Register`, its documents `Register.ofJson` and `Register.toJson`, and `Register.slot?`;
* `Register.text`, the register as it stands in messages.
-/

import WireProgram.Json

namespace WireProgram

/-- What a document addresses in a table. -/
inductive Slot where
  | index (value : Int)
  | word (text : String)
  | fraction (value : Binary64)
  | nothing
  deriving DecidableEq, Inhabited

/-- The slot of a document; arrays and objects address none. -/
def Json.slot? : Json → Option Slot
  | .null => some .nothing
  | .bool value => some (.index (if value then 1 else 0))
  | .int value => some (.index value)
  | .float value =>
    match value.toInt? with
    | some whole => some (.index whole)
    | none => some (.fraction value)
  | .string text => some (.word text)
  | .array _ | .object _ => none

/-- A register as a program writes it. -/
inductive Register where
  /-- A numbered register. -/
  | index (value : Int)
  /-- A register written as some other document. -/
  | literal (document : Json)
  deriving Inhabited, BEq

namespace Register

/-- The register that a document writes. -/
def ofJson : Json → Register
  | .int value => .index value
  | document => .literal document

/-- The document that writes a register. -/
def toJson : Register → Json
  | .index value => .int value
  | .literal document => document

/-- The slot of a register. -/
def slot? (register : Register) : Option Slot :=
  register.toJson.slot?

/-- A register as it stands in messages, after the letter `r`. -/
def text (register : Register) : String :=
  "r" ++ register.toJson.spelled

end Register

end WireProgram
