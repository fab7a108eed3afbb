/-
**Decode programs.**

A program is a list of instructions over registers, with nested blocks for loops, conditions and
preludes. Every register is written once in its scope. The names that it gives to types, fields and
scalars are kept as its document writes them. The main definitions:

* `Target`, `Literal`, `Expression`, `Constructable` and `Instruction`, the parts of a program;
* `Program`, with `Program.outputRegister`, the register whose value is the result;
* `Instruction.label`, the name of an instruction in paths and traces.

A constant that is a list is one list however often the program runs, so a literal list has a cell.
-/

import WireProgram.Capability
import WireProgram.Name

namespace WireProgram

/-- Where an instruction reads. -/
inductive Target where
  /-- The reader of the scope. -/
  | direct
  /-- The stream in a register. -/
  | stream (register : Register)
  /-- The buffered stream in a register. -/
  | buffer (register : Register)
  deriving Inhabited

/-- A constant. -/
inductive Literal where
  | null
  | bool (value : Bool)
  | int (value : Int)
  | float (value : Binary64)
  | string (value : String)
  | bytes (content : Bytes)
  /-- A list, with the cell that holds its items in a run. -/
  | list (cell : Nat) (items : List Literal)
  | dict (entries : List (String × Literal))
  deriving Inhabited

/-- A computation without input. -/
inductive Expression where
  /-- The register that a field is kept in. -/
  | field (name : Json)
  | constant (literal : Literal)
  | call (function : Function) (arguments : List Expression)
  deriving Inhabited

/-- A value put together from registers. -/
inductive Constructable where
  | tuple (items : List Register)
  | tagged (name : Json) (items : List Register)
  | struct (name : Json) (fields : List (Json × Register))
  deriving Inhabited

/-- An instruction. -/
inductive Instruction where
  /-- Computes a value. -/
  | eval (target : Register) (expression : Expression)
  /-- Puts a value together. -/
  | construct (target : Register) (constructable : Constructable)
  /-- Bounds a stream to so many bytes. -/
  | constrict (stream : Target) (newStream length : Register)
  /-- Runs a stream through a transform. -/
  | wrapStream (stream : Target) (newStream : Register) (transform : Transform)
    (arguments : List Register)
  /-- Runs a stream through a transform if a condition holds; the prelude computes its arguments. -/
  | conditionalWrapStream (condition : Register) (prelude : List Instruction) (stream : Target)
    (newStream : Register) (transform : Transform) (arguments : List Register)
  /-- Reads a value of a foreign type. -/
  | decodeForeign (target : Target) (data : Register) (foreign : ForeignType)
    (arguments : List Register)
  /-- Reads a message by the name of its type. -/
  | decodeReference (target : Target) (data : Register) (typeName : Json)
    (arguments : List Register)
  /-- Reads a member of an enumeration. -/
  | decodeEnumeration (enumeration backing : Json) (data : Register) (target : Target)
  /-- Reads a scalar. -/
  | decodePrimitive (target : Target) (data : Register) (primitive : Json)
  /-- Reads so many scalars, or all there are. -/
  | decodeArray (target : Target) (data : Register) (primitive : Json)
    (length : Option Register)
  /-- Repeats a block so many times, up to a terminator, or to the end of a stream. -/
  | loop (target : Target) (stop terminator : Option Register) (output : Register)
    (body : List Instruction)
  /-- Adds an item to the list of a loop. -/
  | loopOutput (output item : Register)
  /-- Runs a block if a condition holds, and keeps one of its values. -/
  | conditional (target interior condition : Register) (body : List Instruction)
  deriving Inhabited

/-- A program with its registers. -/
structure Program where
  instructions : List Instruction := []
  /-- The number of registers, as the program writes it. -/
  registerCount : Json := .int 0
  /-- The registers of fields. -/
  fields : List (Json × Register) := []
  /-- The registers of arguments. -/
  arguments : List Register := []
  deriving Inhabited

/-! ### Labels -/

/-- The name of the kind of an instruction. -/
def Instruction.kind : Instruction → String
  | .eval .. => "Eval"
  | .construct .. => "Construct"
  | .constrict .. => "Constrict"
  | .wrapStream .. => "WrapStream"
  | .conditionalWrapStream .. => "ConditionalWrapStream"
  | .decodeForeign .. => "DecodeForeign"
  | .decodeReference .. => "DecodeRef"
  | .decodeEnumeration .. => "DecodeEnum"
  | .decodePrimitive .. => "DecodePrimitive"
  | .decodeArray .. => "DecodePrimitiveArray"
  | .loop .. => "Loop"
  | .loopOutput .. => "LoopOutput"
  | .conditional .. => "Conditional"

/-- The register that an instruction is labelled with: the one it fills. -/
def Instruction.labelRegister : Instruction → Register
  | .eval target _ => target
  | .construct target _ => target
  | .constrict _ newStream _ => newStream
  | .wrapStream _ newStream _ _ => newStream
  | .conditionalWrapStream _ _ _ newStream _ _ => newStream
  | .decodeForeign _ data _ _ => data
  | .decodeReference _ data _ _ => data
  | .decodeEnumeration _ _ data _ => data
  | .decodePrimitive _ data _ => data
  | .decodeArray _ data _ _ => data
  | .loop _ _ _ output _ => output
  | .loopOutput output _ => output
  | .conditional target _ _ _ => target

/-- The label of an instruction: its kind, and its register if that is a numbered one. -/
def Instruction.label (instruction : Instruction) : String :=
  match instruction.labelRegister with
  | .index value => instruction.kind ++ "(r" ++ toString value ++ ")"
  | .literal _ => instruction.kind

/-- The blocks inside an instruction. -/
def Instruction.blocks : Instruction → List (List Instruction)
  | .conditionalWrapStream _ prelude _ _ _ _ => [prelude]
  | .loop _ _ _ _ body => [body]
  | .conditional _ _ _ body => [body]
  | _ => []

/-! ### The count of registers -/

/-- Whether there are registers; their count must be a number. -/
def Program.hasRegisters (program : Program) : Except Fault Bool :=
  if program.registerCount.isNumber then .ok (!program.registerCount.isAtMost (.int 0))
  else .error (.misuse .wrongType)

/-- The last register, which holds the result of the program. -/
def Program.outputRegister (program : Program) : Except Fault Register :=
  match program.registerCount.lessOne? with
  | some last => .ok (Register.ofJson last)
  | none => .error (.misuse .wrongType)

/-- The register of a field. -/
def Program.field (program : Program) (name : Json) : Except Fault Register := do
  match ← findField program.fields name with
  | some register => return register
  | none => throw (.program (.unmappedField name))

end WireProgram
