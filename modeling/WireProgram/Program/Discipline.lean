/-
**The register discipline of a program.**

Every register is in range, is written before it is read and is written once in its scope; an item
goes to the list of an enclosing loop, and a conditional block writes the register that it is asked
for. The checker reports every breach in the order of the program. The main definitions:

* `Place`, `Problem` and `Finding`, what is reported;
* `CheckScope`, the registers that are known to be written at a point of the program;
* `checkInstruction` and `checkInstructions`, the checker;
* `Program.validate`, the findings of a program.
-/

import WireProgram.Program

namespace WireProgram

/-! ### Findings -/

/-- A place in a program. -/
inductive Place where
  | program
  | arguments
  /-- A field, by the spelling of its name. -/
  | field (name : String)
  /-- An instruction of the program itself. -/
  | instruction (index : Nat) (kind : String)
  /-- An instruction of a block of another one. -/
  | inside (outer : Place) (block : String) (index : Nat) (kind : String)
  deriving DecidableEq, Inhabited

/-- The text of a place. -/
def Place.text : Place → String
  | .program => "program"
  | .arguments => "arguments"
  | .field name => "field " ++ name
  | .instruction index kind => "#" ++ toString index ++ " " ++ kind
  | .inside outer block index kind =>
    outer.text ++ "/" ++ block ++ "#" ++ toString index ++ " " ++ kind

/-- A breach of the discipline. -/
inductive Problem where
  | noRegisters
  /-- A register is beyond the last one. -/
  | outside (register last : Register)
  | readBeforeWritten (register : Register)
  | writtenTwice (register : Register)
  | twoLoopRules
  | noLoopOutput (register : Register)
  | interiorUnwritten (register : Register)
  | outputUnwritten (register : Register)
  deriving Inhabited

/-- The wording of a breach. -/
def Problem.message : Problem → String
  | .noRegisters => "register count must be positive"
  | .outside register last =>
    "register " ++ register.text ++ " outside 0.." ++ last.toJson.spelled
  | .readBeforeWritten register => "reads " ++ register.text ++ " before it is written"
  | .writtenTwice register => "register " ++ register.text ++ " written twice"
  | .twoLoopRules => "loop cannot have both a count and a terminator"
  | .noLoopOutput register => register.text ++ " is not an enclosing loop output"
  | .interiorUnwritten register => "body never writes interior " ++ register.text
  | .outputUnwritten register =>
    "output register " ++ register.text ++ " is never written at root scope"

/-- A breach at a place. -/
structure Finding where
  place : Place
  problem : Problem
  deriving Inhabited

/-- The text of a finding. -/
def Finding.text (finding : Finding) : String :=
  finding.place.text ++ ": " ++ finding.problem.message

/-! ### What instructions read and write -/

/-- The registers that a target reads. -/
def Target.reads : Target → List Register
  | .direct => []
  | .stream register | .buffer register => [register]

/-- The registers that a constructable reads. -/
def Constructable.reads : Constructable → List Register
  | .tuple items => items
  | .tagged _ items => items
  | .struct _ fields => fields.map Prod.snd

/-- The registers that an instruction reads in its own scope before its blocks run. -/
def Instruction.reads : Instruction → List Register
  | .eval _ _ => []
  | .construct _ constructable => constructable.reads
  | .constrict stream _ length => stream.reads ++ [length]
  | .wrapStream stream _ _ arguments => stream.reads ++ arguments
  | .conditionalWrapStream condition _ stream _ _ _ => condition :: stream.reads
  | .decodeForeign target _ _ arguments => target.reads ++ arguments
  | .decodeReference target _ _ arguments => target.reads ++ arguments
  | .decodeEnumeration _ _ _ target => target.reads
  | .decodePrimitive target _ _ => target.reads
  | .decodeArray target _ _ length => target.reads ++ length.toList
  | .loop target stop terminator _ _ => target.reads ++ stop.toList ++ terminator.toList
  | .loopOutput output item => [output, item]
  | .conditional _ _ condition _ => [condition]

/-! ### The checker -/

/-- The registers that are written at a point of a program. -/
structure CheckScope where
  /-- Those that the innermost block wrote. -/
  own : List Slot := []
  /-- Those that the enclosing blocks wrote. -/
  outer : List Slot := []
  /-- The lists of the enclosing loops. -/
  outputs : List Slot := []
  deriving Inhabited

/-- The slot of a register that addresses one. -/
def Register.slot (register : Register) : Slot :=
  register.slot?.getD .nothing

/-- Whether a register is written. -/
def CheckScope.isWritten (scope : CheckScope) (register : Register) : Bool :=
  scope.own.contains register.slot || scope.outer.contains register.slot

/-- The scope of a nested block, perhaps of a loop. -/
def CheckScope.child (scope : CheckScope) (output : Option Register) : CheckScope :=
  ⟨[], scope.own ++ scope.outer, (output.map Register.slot).toList ++ scope.outputs⟩

/-- Whether a register is below a count, and not below zero. -/
def inCount (count : Json) (register : Register) : Bool :=
  Json.isAtMost (.int 0) register.toJson && register.toJson.isLess count

/-- The extent of a program: the number of its registers, as the program writes it, and the last. -/
structure Extent where
  count : Json
  last : Register
  deriving Inhabited

/-- What is wrong with the range of a register. -/
def checkRange (extent : Extent) (place : Place) (register : Register) : List Finding :=
  if inCount extent.count register then [] else [⟨place, .outside register extent.last⟩]

/-- What is wrong with a read. -/
def checkRead (extent : Extent) (scope : CheckScope) (place : Place) (register : Register) :
    List Finding :=
  if !inCount extent.count register then checkRange extent place register
  else if scope.isWritten register then []
  else [⟨place, .readBeforeWritten register⟩]

/-- What is wrong with a write, and the scope after it. -/
def checkWrite (extent : Extent) (scope : CheckScope) (place : Place) (register : Register) :
    List Finding × CheckScope :=
  if !inCount extent.count register then (checkRange extent place register, scope)
  else if scope.isWritten register then ([⟨place, .writtenTwice register⟩], scope)
  else ([], { scope with own := register.slot :: scope.own })

mutual

/-- What is wrong with an instruction, and the scope after it. -/
def checkInstruction (extent : Extent) (scope : CheckScope) (place : Place)
    (instruction : Instruction) : List Finding × CheckScope :=
  let reads := instruction.reads.flatMap (checkRead extent scope place)
  match instruction with
  | .conditionalWrapStream _ prelude _ newStream _ arguments =>
    let inner := checkInstructions extent (scope.child none) (.inside place "prelude") 0 prelude
    let values := arguments.flatMap (checkRead extent inner.2 place)
    let write := checkWrite extent scope place newStream
    (reads ++ inner.1 ++ values ++ write.1, write.2)
  | .loop _ stop terminator output body =>
    let rules : List Finding :=
      if stop.isSome && terminator.isSome then [⟨place, .twoLoopRules⟩] else []
    let write := checkWrite extent scope place output
    let inner :=
      checkInstructions extent (write.2.child (some output)) (.inside place "body") 0 body
    (reads ++ rules ++ write.1 ++ inner.1, write.2)
  | .loopOutput output _ =>
    let membership : List Finding :=
      if scope.outputs.contains output.slot then [] else [⟨place, .noLoopOutput output⟩]
    (reads ++ membership, scope)
  | .conditional target interior _ body =>
    let inner := checkInstructions extent (scope.child none) (.inside place "body") 0 body
    let kept : List Finding :=
      if inner.2.own.contains interior.slot then [] else [⟨place, .interiorUnwritten interior⟩]
    let write := checkWrite extent scope place target
    (reads ++ inner.1 ++ kept ++ write.1, write.2)
  | instruction =>
    let write := checkWrite extent scope place instruction.labelRegister
    (reads ++ write.1, write.2)

/-- What is wrong with the instructions of a block, and the scope after them. -/
def checkInstructions (extent : Extent) (scope : CheckScope)
    (placeOf : (index : Nat) → (kind : String) → Place) :
    (index : Nat) → List Instruction → List Finding × CheckScope
  | _, [] => ([], scope)
  | index, instruction :: rest =>
    let here := checkInstruction extent scope (placeOf index instruction.kind) instruction
    let others := checkInstructions extent here.2 placeOf (index + 1) rest
    (here.1 ++ others.1, others.2)

end

/-! ### Registers that cannot be compared -/

mutual

/-- Whether the registers that the checker compares with the count are numbers. -/
def Instruction.isNumbered : Instruction → Bool
  | .conditionalWrapStream condition prelude stream newStream _ arguments =>
    (condition :: newStream :: stream.reads ++ arguments).all (·.toJson.isNumber) &&
      blockIsNumbered prelude
  | .loop target stop terminator output body =>
    (output :: target.reads ++ stop.toList ++ terminator.toList).all (·.toJson.isNumber) &&
      blockIsNumbered body
  | .conditional target interior condition body =>
    interior.slot?.isSome && [target, condition].all (·.toJson.isNumber) && blockIsNumbered body
  | instruction =>
    (instruction.labelRegister :: instruction.reads).all (·.toJson.isNumber)

/-- Whether the registers of a block that the checker compares with the count are numbers. -/
def blockIsNumbered : List Instruction → Bool
  | [] => true
  | instruction :: rest => instruction.isNumbered && blockIsNumbered rest

end

/-- Whether all registers that the checker compares with the count are numbers. -/
def Program.isNumbered (program : Program) : Bool :=
  (program.arguments ++ program.fields.map Prod.snd).all (·.toJson.isNumber) &&
    blockIsNumbered program.instructions

/-! ### Programs -/

/-- What is wrong with the writes of the arguments, and the scope after them. -/
def checkArguments (extent : Extent) : CheckScope → List Register → List Finding × CheckScope
  | scope, [] => ([], scope)
  | scope, register :: rest =>
    let write := checkWrite extent scope .arguments register
    let others := checkArguments extent write.2 rest
    (write.1 ++ others.1, others.2)

/-- What is wrong with a program that has registers, all of them numbers. -/
def Program.findings (program : Program) (extent : Extent) : List Finding :=
  let arguments := checkArguments extent {} program.arguments
  let fields := program.fields.flatMap fun field =>
    checkRange extent (.field field.1.spelled) field.2
  let body := checkInstructions extent arguments.2 .instruction 0 program.instructions
  let output : List Finding :=
    if body.2.own.contains extent.last.slot then []
    else [⟨.program, .outputUnwritten extent.last⟩]
  arguments.1 ++ fields ++ body.1 ++ output

/-- The findings of a program. Registers that are not numbers cannot be checked. -/
def Program.validate (program : Program) : Except Fault (List Finding) := do
  if ← program.hasRegisters then
    let last ← program.outputRegister
    if program.isNumbered then return program.findings ⟨program.registerCount, last⟩
    else throw (.misuse .wrongType)
  else return [⟨.program, .noRegisters⟩]

end WireProgram
