/-
**Programs as documents.**

Every part of a program is an object whose key `type` names its kind. What a program leaves out,
the document leaves out too: the length of an array and the rules of a loop.

* `Instruction.toJson` and `Program.toJson` write documents, and `Program.toObject` one in which the
  names of fields are keys;
* `Program.toText` writes the text of a program, with sorted keys.
-/

import WireProgram.Json.Printer
import WireProgram.Program

namespace WireProgram

/-- The document of a target. -/
def Target.toJson : Target → Json
  | .direct => .object [("type", .string "direct")]
  | .stream register => .object [("type", .string "stream"), ("register", register.toJson)]
  | .buffer register => .object [("type", .string "buf"), ("register", register.toJson)]

/-- The documents of a list of registers. -/
def registersToJson (registers : List Register) : Json :=
  .array (registers.map Register.toJson)

mutual

/-- The document of a constant inside another one. -/
def Literal.toJson : Literal → Json
  | .null => .null
  | .bool value => .bool value
  | .int value => .int value
  | .float value => .float value
  | .string value => .string value
  | .bytes content => .string (Bytes.toHex content)
  | .list _ items => .array (literalsToJson items)
  | .dict entries => .object (literalEntriesToJson entries)

/-- The documents of the items of a list. -/
def literalsToJson : List Literal → List Json
  | [] => []
  | item :: rest => item.toJson :: literalsToJson rest

/-- The documents of the entries of a dictionary. -/
def literalEntriesToJson : List (String × Literal) → List (String × Json)
  | [] => []
  | (key, value) :: rest => (key, value.toJson) :: literalEntriesToJson rest

end

mutual

/-- The document of an expression. -/
def Expression.toJson : Expression → Json
  | .field name => .object [("type", .string "field"), ("name", name)]
  | .constant (.bytes content) =>
    .object [("type", .string "const"), ("bytes", .string (Bytes.toHex content))]
  | .constant literal => .object [("type", .string "const"), ("value", literal.toJson)]
  | .call function arguments =>
    .object [("type", .string "call"), ("function", .string function.name),
      ("args", .array (expressionsToJson arguments))]

/-- The documents of a list of expressions. -/
def expressionsToJson : List Expression → List Json
  | [] => []
  | expression :: rest => expression.toJson :: expressionsToJson rest

end

/-- The document of a constructable. -/
def Constructable.toJson : Constructable → Json
  | .tuple items => .object [("type", .string "tuple"), ("items", registersToJson items)]
  | .tagged name items =>
    .object [("type", .string "tagged"), ("name", name), ("items", registersToJson items)]
  | .struct name fields =>
    .object [("type", .string "struct"), ("name", name),
      ("fields", .array (fields.map fun field => .array [field.1, field.2.toJson]))]

/-- An entry that is left out if there is nothing to write. -/
def optionalEntry (key : String) : Option Register → List (String × Json)
  | none => []
  | some register => [(key, register.toJson)]

mutual

/-- The document of an instruction. -/
def Instruction.toJson : Instruction → Json
  | .eval target expression =>
    .object [("type", .string "eval"), ("target", target.toJson), ("expr", expression.toJson)]
  | .construct target constructable =>
    .object [("type", .string "construct"), ("target", target.toJson),
      ("constructable", constructable.toJson)]
  | .constrict stream newStream length =>
    .object [("type", .string "constrict"), ("stream", stream.toJson),
      ("new_stream", newStream.toJson), ("length", length.toJson)]
  | .wrapStream stream newStream transform arguments =>
    .object [("type", .string "wrap_stream"), ("stream", stream.toJson),
      ("new_stream", newStream.toJson), ("transformer", .string transform.name),
      ("args", registersToJson arguments)]
  | .conditionalWrapStream condition prelude stream newStream transform arguments =>
    .object [("type", .string "conditional_wrap_stream"), ("condition", condition.toJson),
      ("prelude", .array (blockToJson prelude)), ("stream", stream.toJson),
      ("new_stream", newStream.toJson), ("transformer", .string transform.name),
      ("args", registersToJson arguments)]
  | .decodeForeign target data foreign arguments =>
    .object [("type", .string "decode_foreign"), ("target", target.toJson), ("data", data.toJson),
      ("foreign_type", .string foreign.name), ("args", registersToJson arguments)]
  | .decodeReference target data typeName arguments =>
    .object [("type", .string "decode_ref"), ("target", target.toJson), ("data", data.toJson),
      ("type_name", typeName), ("args", registersToJson arguments)]
  | .decodeEnumeration enumeration backing data target =>
    .object [("type", .string "decode_enum"), ("enum_name", enumeration),
      ("backing", backing), ("data", data.toJson), ("target", target.toJson)]
  | .decodePrimitive target data primitive =>
    .object [("type", .string "decode_primitive"), ("target", target.toJson),
      ("data", data.toJson), ("primitive", primitive)]
  | .decodeArray target data primitive length =>
    .object ([("type", .string "decode_primitive_array"), ("target", target.toJson),
      ("data", data.toJson), ("primitive", primitive)] ++ optionalEntry "length" length)
  | .loop target stop terminator output body =>
    .object ([("type", .string "loop"), ("target", target.toJson), ("output", output.toJson),
      ("body", .array (blockToJson body))] ++ optionalEntry "stop" stop ++
      optionalEntry "terminator" terminator)
  | .loopOutput output item =>
    .object [("type", .string "loop_output"), ("output", output.toJson), ("item", item.toJson)]
  | .conditional target interior condition body =>
    .object [("type", .string "conditional"), ("target", target.toJson),
      ("interior", interior.toJson), ("condition", condition.toJson),
      ("body", .array (blockToJson body))]

/-- The documents of the instructions of a block. -/
def blockToJson : List Instruction → List Json
  | [] => []
  | instruction :: rest => instruction.toJson :: blockToJson rest

end

/-- The string of a field's name and the document of its register. -/
def stringField? (field : Json × Register) : Option (String × Json) :=
  match field.1 with
  | .string name => some (name, field.2.toJson)
  | _ => none

/-- The document of fields: an object, or a list of pairs if a name is no string. -/
def fieldsToJson (fields : List (Json × Register)) : Json :=
  match fields.mapM stringField? with
  | some entries => .object entries
  | none => .array (fields.map fun field => .array [field.1, field.2.toJson])

/-- The object of fields: every name is a key, and the documents of the registers are arranged. -/
def fieldsToObject (arrange : Json → Json) (fields : List (Json × Register)) :
    Except Fault Json := do
  let entries ← fields.mapM fun field => return (← field.1.toKey, arrange field.2.toJson)
  return .object (tableOf entries)

/-- The document of a program, with its parts arranged; that of its fields is given. -/
def Program.toJsonWith (program : Program) (arrange : Json → Json) (fields : Json) : Json :=
  .object [("argument_registers", arrange (registersToJson program.arguments)),
    ("field_register_map", fields),
    ("instructions", arrange (.array (blockToJson program.instructions))),
    ("register_count", arrange program.registerCount)]

/-- The document of a program, from which it can be read again. -/
def Program.toJson (program : Program) : Json :=
  program.toJsonWith id (fieldsToJson program.fields)

/-- The document of a program in which the names of fields are the keys of an object. -/
def Program.toObject (program : Program) : Except Fault Json :=
  (fieldsToObject id program.fields).map (program.toJsonWith id)

/--
The text of a program with sorted keys. The names of fields are sorted before they are keys: they
must be all strings or all numbers, unless there is but one.
-/
def Program.toText (program : Program) (indent : Json.Indent) : Except Fault String := do
  let fields ← fieldsToObject Json.sortKeys (← sortFields program.fields)
  return (program.toJsonWith Json.sortKeys fields).render indent

end WireProgram
