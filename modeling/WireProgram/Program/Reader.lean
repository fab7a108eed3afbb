/-
**Documents as programs.**

The reader looks keys up in a fixed order, so that of several faults the first one is reported, and
resolves the names of capabilities as it comes to them. The lists among the constants are made when
the program is read. The main definitions:

* `Reading`, a reader that makes lists;
* `readTarget`, `readLiteral`, `readExpression`, `readConstructable` and `readInstruction`;
* `Program.ofJson` and `Program.ofText`.
-/

import WireProgram.Json.Reader
import WireProgram.Program
import WireProgram.Resolver
import WireProgram.Run.Compute

namespace WireProgram

/-- A reader of documents. It may refuse, and it may make lists. -/
abbrev Reading (α : Type) := StateT Lists (Except Fault) α

/-! ### Keys and containers -/

/-- The value under a key, which must be there. -/
def Json.require (document : Json) (key : String) : Except Fault Json :=
  if document.isObject then
    match document.get? key with
    | some value => .ok value
    | none => .error (.misuse (.missingKey key))
  else .error (.misuse .wrongType)

/-- The items that a document yields. -/
def Json.requireElements (document : Json) : Except Fault (List Json) :=
  match document.elements? with
  | some items => .ok items
  | none => .error (.misuse .wrongType)

/-- The register under a key. -/
def readRegister (document : Json) (key : String) : Except Fault Register :=
  (document.require key).map Register.ofJson

/-- The register under a key that may be left out. -/
def readOptionalRegister (document : Json) (key : String) : Option Register :=
  match document.get? key with
  | none => none
  | some .null => none
  | some value => some (Register.ofJson value)

/-- The registers of a list. -/
def readRegisters (document : Json) : Except Fault (List Register) :=
  document.requireElements.map fun items => items.map Register.ofJson

/-- The registers under a key that may be left out. -/
def readArguments (document : Json) (key : String) : Except Fault (List Register) :=
  match document.get? key with
  | none => .ok []
  | some value => readRegisters value

/-- A kind that there is not. -/
def unknownPart {α : Type} (part : PartKind) (kind : Json) : Except Fault α :=
  .error (.misuse (.unknownPart part kind.spelled))

/-! ### Parts of instructions -/

/-- Reads a target. -/
def readTarget (document : Json) : Except Fault Target := do
  match ← document.require "type" with
  | .string "direct" => return .direct
  | .string "stream" => return .stream (← readRegister document "register")
  | .string "buf" => return .buffer (← readRegister document "register")
  | kind => unknownPart .target kind

/-- The target under a key. -/
def readTargetAt (document : Json) (key : String) : Except Fault Target := do
  readTarget (← document.require key)

mutual

/-- Reads a constant. A list is made after its items. -/
def readLiteral : Json → Reading Literal
  | .null => return .null
  | .bool value => return .bool value
  | .int value => return .int value
  | .float value => return .float value
  | .string value => return .string value
  | .array items => do
    let literals ← readLiterals items
    let lists ← get
    set (lists.push (literals.map Literal.toValue))
    return .list lists.size literals
  | .object entries => do
    return .dict (← readLiteralEntries entries)

/-- Reads the items of a constant list. -/
def readLiterals : List Json → Reading (List Literal)
  | [] => return []
  | item :: rest => do
    let literal ← readLiteral item
    return literal :: (← readLiterals rest)

/-- Reads the entries of a constant dictionary. -/
def readLiteralEntries : List (String × Json) → Reading (List (String × Literal))
  | [] => return []
  | (key, value) :: rest => do
    let literal ← readLiteral value
    return (key, literal) :: (← readLiteralEntries rest)

end

/-- Reads the bytes of a constant. -/
def readBytes : Json → Except Fault Literal
  | .string text =>
    match Bytes.ofHex? text with
    | some content => .ok (.bytes content)
    | none => .error (.misuse .wrongValue)
  | _ => .error (.misuse .wrongType)

/-- Reads an expression; the fuel bounds the depth of the document. -/
def readExpression (resolver : Resolver) : (fuel : Nat) → Json → Reading Expression
  | 0, _ => throw (.misuse .nestingTooDeep)
  | fuel + 1, document => do
    match ← document.require "type" with
    | .string "field" => return .field (← document.require "name")
    | .string "const" =>
      match document.get? "bytes" with
      | some content => return .constant (← readBytes content)
      | none => return .constant (← readLiteral (← document.require "value"))
    | .string "call" =>
      let function ← resolver.requireFunction (← document.require "function")
      let items ← Json.requireElements (← document.require "args")
      return .call function (← items.mapM (readExpression resolver fuel))
    | kind => unknownPart .expression kind

/-- Reads a pair of a name and a register. -/
def readPair (document : Json) : Except Fault (Json × Register) := do
  match ← document.requireElements with
  | [name, register] => return (name, Register.ofJson register)
  | _ => throw (.misuse .wrongValue)

/-- Reads a constructable. -/
def readConstructable (document : Json) : Except Fault Constructable := do
  match ← document.require "type" with
  | .string "tuple" => return .tuple (← readRegisters (← document.require "items"))
  | .string "tagged" =>
    let name ← document.require "name"
    return .tagged name (← readRegisters (← document.require "items"))
  | .string "struct" =>
    let name ← document.require "name"
    let items ← Json.requireElements (← document.require "fields")
    return .struct name (← items.mapM readPair)
  | kind => unknownPart .constructable kind

/-! ### Instructions -/

/-- Reads an instruction; the fuel bounds the depth of the document. -/
def readInstruction (resolver : Resolver) : (fuel : Nat) → Json → Reading Instruction
  | 0, _ => throw (.misuse .nestingTooDeep)
  | fuel + 1, document => do
    let block := fun items : Json => do
      (← items.requireElements).mapM (readInstruction resolver fuel)
    match ← document.require "type" with
    | .string "eval" =>
      let target ← readRegister document "target"
      let expression ← document.require "expr"
      return .eval target (← readExpression resolver (expression.depth + 1) expression)
    | .string "construct" =>
      let target ← readRegister document "target"
      return .construct target (← readConstructable (← document.require "constructable"))
    | .string "constrict" =>
      let stream ← readTargetAt document "stream"
      let newStream ← readRegister document "new_stream"
      return .constrict stream newStream (← readRegister document "length")
    | .string "wrap_stream" =>
      let stream ← readTargetAt document "stream"
      let newStream ← readRegister document "new_stream"
      let transform ← resolver.requireTransform (← document.require "transformer")
      return .wrapStream stream newStream transform (← readArguments document "args")
    | .string "conditional_wrap_stream" =>
      let condition ← readRegister document "condition"
      let prelude ← block ((document.get? "prelude").getD (.array []))
      let stream ← readTargetAt document "stream"
      let newStream ← readRegister document "new_stream"
      let transform ← resolver.requireTransform (← document.require "transformer")
      return .conditionalWrapStream condition prelude stream newStream transform
        (← readArguments document "args")
    | .string "decode_foreign" =>
      let target ← readTargetAt document "target"
      let data ← readRegister document "data"
      let foreign ← resolver.requireType (← document.require "foreign_type")
      return .decodeForeign target data foreign (← readArguments document "args")
    | .string "decode_ref" =>
      let target ← readTargetAt document "target"
      let data ← readRegister document "data"
      let typeName ← document.require "type_name"
      return .decodeReference target data typeName (← readArguments document "args")
    | .string "decode_enum" =>
      let enumeration ← document.require "enum_name"
      let backing ← document.require "backing"
      let data ← readRegister document "data"
      return .decodeEnumeration enumeration backing data (← readTargetAt document "target")
    | .string "decode_primitive" =>
      let target ← readTargetAt document "target"
      let data ← readRegister document "data"
      return .decodePrimitive target data (← document.require "primitive")
    | .string "decode_primitive_array" =>
      let target ← readTargetAt document "target"
      let data ← readRegister document "data"
      let primitive ← document.require "primitive"
      return .decodeArray target data primitive (readOptionalRegister document "length")
    | .string "loop" =>
      let target ← readTargetAt document "target"
      let output ← readRegister document "output"
      let body ← block (← document.require "body")
      return .loop target (readOptionalRegister document "stop")
        (readOptionalRegister document "terminator") output body
    | .string "loop_output" =>
      let output ← readRegister document "output"
      return .loopOutput output (← readRegister document "item")
    | .string "conditional" =>
      let target ← readRegister document "target"
      let interior ← readRegister document "interior"
      let condition ← readRegister document "condition"
      return .conditional target interior condition (← block (← document.require "body"))
    | kind => unknownPart .instruction kind

/-! ### Programs -/

/-- Reads a field, whose name must address something, and its register. -/
def readField (document : Json) : Except Fault (Json × Register) := do
  let field ← readPair document
  let _ ← field.1.requireSlot
  return field

/-- Reads the registers of fields: an object, or a list of pairs. -/
def readFields (document : Json) : Except Fault (List (Json × Register)) := do
  match document with
  | .object entries => return entries.map fun entry => (.string entry.1, Register.ofJson entry.2)
  | document => mergeFields (← (← document.requireElements).mapM readField)

/-- Reads a program. -/
def Program.ofJson (resolver : Resolver) (document : Json) : Reading Program := do
  let items ← Json.requireElements (← document.require "instructions")
  let instructions ← items.mapM (readInstruction resolver (document.depth + 1))
  let registerCount ← document.require "register_count"
  let fields ← readFields ((document.get? "field_register_map").getD (.object []))
  let arguments ← readArguments document "argument_registers"
  return ⟨instructions, registerCount, fields, arguments⟩

/-- Reads the text of a program. -/
def Program.ofText (resolver : Resolver) (text : String) : Reading Program := do
  match Json.parse text with
  | .ok document => Program.ofJson resolver document
  | .error .malformed => throw (.misuse .malformedDocument)
  | .error .tooManyDigits => throw (.misuse .wrongValue)

end WireProgram
