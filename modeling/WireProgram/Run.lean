/-
**Running a program over a stream.**

Instructions run in order. Nested blocks run in child frames, which are dropped when the block ends;
a message that is referred to runs over the stream of the caller in a frame of its own. The main
definitions:

* `Instruction.run` and `runBlock`, one instruction and a block of them;
* `repeatBody`, `untilTerminator` and `throughCursor`, the three loops;
* `Environment.decode`, a whole program, and `decodeMessage`, a message that is referred to;
* `compile`, the checks before a run, and `decodeWith`, a run with its source;
* `MessageType.decode`, the run of a message on its own.
-/

import WireProgram.Run.Compute
import WireProgram.Run.Read

namespace WireProgram

/-- What a run of a program works with. -/
structure Environment where
  program : Program
  types : Types
  /-- The name of the mode, as the trace gives it. -/
  mode : String
  config : Config
  deriving Inhabited

/-- How a message that is referred to is decoded. -/
abbrev Referral := MessageType → View → List Value → Step Value

/-! ### Loops -/

/-- Runs a body so many times. -/
def repeatBody (body : Step Unit) : Nat → Step Unit
  | 0 => return ()
  | count + 1 => do
    body
    repeatBody body count

/-- Runs a body that must consume something from a view. -/
def withProgress (view : View) (body : Step Unit) : Step Unit := do
  let before ← Step.look fun machine => view.position machine.streams
  body
  let after ← Step.look fun machine => view.position machine.streams
  if after = before then throw ⟨.decode .stalledLoop, []⟩

/-- Runs a body until a terminator stands next in a view, or the view ends. -/
def untilTerminator (view : View) (terminator : Bytes) (body : Step Unit) :
    (fuel : Nat) → Step Unit
  | 0 => throw ⟨.misuse .boundExceeded, []⟩
  | fuel + 1 => do
    let peeked ← Step.onStreams (view.fillBuf terminator.length)
    if peeked.isEmpty then return ()
    else if peeked.take terminator.length = terminator then
      Step.onStreams (view.consume terminator.length)
    else
      withProgress view body
      untilTerminator view terminator body fuel

/-- Runs a body until a cursor is at its end. -/
def throughCursor (cursor : View) (body : Step Unit) : (fuel : Nat) → Step Unit
  | 0 => throw ⟨.misuse .boundExceeded, []⟩
  | fuel + 1 => do
    let ended ← Step.look fun machine => cursor.atEnd machine.streams
    if ended then return ()
    else
      withProgress cursor body
      throughCursor cursor body fuel

/-- Makes a new empty list. -/
def newList : Step Value :=
  Step.onLists fun lists => .ok (.list lists.size, lists.push [])

/-- The frame in which the body of an unbounded loop reads a cursor instead of the loop's target. -/
def cursorFrame (frame : Frame) (target : Target) (cursor : View) : Frame :=
  match target with
  | .direct => frame.child (some cursor) []
  | .stream register | .buffer register =>
    match register.slot? with
    | some slot => frame.child none [(slot, .stream cursor)]
    | none => frame.child none []

/-! ### Parts of instructions -/

/-- Adds an item to the list in a register. -/
def addOutput (frame : Frame) (output item : Register) : Step Unit := do
  match ← Step.ofExcept (frame.get output) with
  | .list cell =>
    let value ← Step.ofExcept (frame.get item)
    Step.onLists fun lists => .ok ((), lists.modify cell fun items => items ++ [value])
  | _ => throw ⟨.misuse .noSuchOperation, []⟩

/-- Whether the value of a register is true. -/
def conditionHolds (frame : Frame) (condition : Register) : Step Bool := do
  let value ← Step.ofExcept (frame.get condition)
  let lists ← Step.look Machine.lists
  Step.ofExcept (value.truth lists)

/-- The count in a register. -/
def countIn (frame : Frame) (what : String) (register : Register) : Step Nat := do
  let value ← Step.ofExcept (frame.get register)
  Step.ofExcept (countOf what value)

/-- The message that can be entered in place under a registered name. -/
def TypeEntry.inPlace (entry : TypeEntry) : Except Fault MessageType :=
  match entry with
  | .message named =>
    if named.exposes .inPlace then .ok named else .error (.misuse .noSuchOperation)
  | _ => .error (.misuse .noSuchOperation)

/-! ### Instructions and blocks -/

mutual

/-- Runs an instruction; the result is the frame with what it wrote. -/
def Instruction.run (environment : Environment) (refer : Referral) :
    Instruction → Frame → Step Frame
  | .eval target expression, frame => do
    let value ← Step.onLists
      (expression.evaluate (environment.program.fieldValue frame))
    Step.ofExcept (frame.set target value)
  | .construct target constructable, frame => do
    let value ← Step.ofExcept (constructable.build environment.types frame)
    Step.ofExcept (frame.set target value)
  | .constrict stream newStream length, frame => do
    let view ← Step.ofExcept (frame.target stream)
    let count ← countIn frame "constrict length" length
    let bounded ← Step.onStreams (openedBy fun streams => streams.openTake view count)
    Step.ofExcept (frame.set newStream (.stream bounded))
  | .wrapStream stream newStream transform arguments, frame => do
    let view ← Step.ofExcept (frame.target stream)
    let values ← Step.ofExcept (frame.getMany arguments)
    let wrapped ← Step.onStreams (transform.wrap view values)
    Step.ofExcept (frame.set newStream (.stream wrapped))
  | .conditionalWrapStream condition prelude stream newStream transform arguments, frame => do
    let view ← Step.ofExcept (frame.target stream)
    if ← conditionHolds frame condition then
      let inner ← runBlock environment refer prelude 0 (frame.child none [])
      let values ← Step.ofExcept (inner.getMany arguments)
      let wrapped ← Step.onStreams (transform.wrap view values)
      Step.ofExcept (frame.set newStream (.stream wrapped))
    else Step.ofExcept (frame.set newStream (.stream view))
  | .decodeForeign target data foreign arguments, frame => do
    let view ← Step.ofExcept (frame.target target)
    let values ← Step.ofExcept (frame.getMany arguments)
    let value ← Step.onStreams (foreign.decode view values environment.mode)
    Step.ofExcept (frame.set data value)
  | .decodeReference target data typeName arguments, frame => do
    let view ← Step.ofExcept (frame.target target)
    let entry ← Step.ofExcept (environment.types.require typeName)
    let values ← Step.ofExcept (frame.getMany arguments)
    let message ← Step.ofExcept entry.inPlace
    let value ← refer message view values
    Step.ofExcept (frame.set data value)
  | .decodeEnumeration enumeration backing data target, frame => do
    let view ← Step.ofExcept (frame.target target)
    let entry ← Step.ofExcept (environment.types.require enumeration)
    let value ← readMember view entry backing
    Step.ofExcept (frame.set data value)
  | .decodePrimitive target data primitive, frame => do
    let view ← Step.ofExcept (frame.target target)
    let value ← readScalar view primitive
    Step.ofExcept (frame.set data value)
  | .decodeArray target data primitive none, frame => do
    let view ← Step.ofExcept (frame.target target)
    let value ← readArray view primitive none environment.config.allowPartialTail
    Step.ofExcept (frame.set data value)
  | .decodeArray target data primitive (some length), frame => do
    let view ← Step.ofExcept (frame.target target)
    let count ← countIn frame "array length" length
    let value ← readArray view primitive (some count) environment.config.allowPartialTail
    Step.ofExcept (frame.set data value)
  | .loop _ (some _) (some _) _ _, _ => throw ⟨.program .twoLoopRules, []⟩
  | .loop _ (some stop) none output body, frame => do
    let count ← countIn frame "loop count" stop
    let list ← newList
    let frame ← Step.ofExcept (frame.set output list)
    repeatBody (discard (runBlock environment refer body 0 (frame.child none []))) count
    return frame
  | .loop target none (some terminator) output body, frame => do
    let view ← Step.ofExcept (frame.target target)
    let value ← Step.ofExcept (frame.get terminator)
    let lists ← Step.look Machine.lists
    let bound ← Step.look fun machine => view.weight machine.streams
    let ending ← Step.ofExcept (value.toBytes lists (bound + 1))
    if ending.isEmpty then throw ⟨.program .emptyTerminator, []⟩
    let list ← newList
    let frame ← Step.ofExcept (frame.set output list)
    untilTerminator view ending
      (discard (runBlock environment refer body 0 (frame.child none []))) (bound + 1)
    return frame
  | .loop target none none output body, frame => do
    let view ← Step.ofExcept (frame.target target)
    let content ← Step.onStreams view.readToEnd
    let cursor ← Step.onStreams (openedBy fun streams => streams.openCursor content)
    let list ← newList
    let frame ← Step.ofExcept (frame.set output list)
    throughCursor cursor
      (discard (runBlock environment refer body 0 (cursorFrame frame target cursor)))
      (content.length + 1)
    return frame
  | .loopOutput output item, frame => do
    addOutput frame output item
    return frame
  | .conditional target interior condition body, frame => do
    if ← conditionHolds frame condition then
      let inner ← runBlock environment refer body 0 (frame.child none [])
      let value ← Step.ofExcept (inner.get interior)
      Step.ofExcept (frame.set target value)
    else Step.ofExcept (frame.set target .none)

/-- Runs the instructions of a block in order; the index is that of the first one. -/
def runBlock (environment : Environment) (refer : Referral) :
    List Instruction → (index : Nat) → Frame → Step Frame
  | [], _, frame => return frame
  | instruction :: rest, index, frame => do
    Step.record environment.config "exec" frame.depth instruction.label environment.mode
    let frame ← Step.guarded environment.config frame.depth ⟨index, instruction.label⟩
      (Instruction.run environment refer instruction frame)
    runBlock environment refer rest (index + 1) frame

end

/-! ### Whole programs -/

/-- Puts the arguments into their registers. -/
def bindArguments (program : Program) (values : List Value) : Except Fault Frame :=
  if values.length = program.arguments.length then
    (program.arguments.zip values).foldlM (fun frame entry => frame.set entry.1 entry.2) {}
  else .error (.program (.argumentCount program.arguments.length values.length))

/-- Runs a program over the stream that `opening` gives; the result is the last register. -/
def Environment.decode (environment : Environment) (refer : Referral) (opening : Except Fault View)
    (values : List Value) : Step Value := do
  let frame ← Step.ofExcept (bindArguments environment.program values)
  let view ← Step.ofExcept opening
  let frame ← runBlock environment refer environment.program.instructions 0 (frame.bindReader view)
  let output ← Step.ofExcept environment.program.outputRegister
  Step.ofExcept (frame.get output)

/--
Decodes a message in place, with the settings of the caller. References may nest at most `depth`
deep.
-/
def decodeMessage (types : Types) (mode : String) (config : Config) : (depth : Nat) → Referral
  | 0 => fun _ _ _ => throw ⟨.misuse .nestingTooDeep, []⟩
  | depth + 1 => fun message view values =>
    let visible := if message.standalone then [] else types
    Environment.decode ⟨message.program, visible, mode, config⟩
      (decodeMessage visible mode config depth) (.ok view) values

/-! ### Checks before a run -/

mutual

/-- Checks the types that an instruction and its blocks name. -/
def Instruction.check (types : Types) (execution : Execution) : Instruction → Except Fault Unit
  | .decodeReference _ _ typeName _ => do
    let entry ← types.require typeName
    for point in [execution.entryPoint, EntryPoint.inPlace] do
      if !entry.exposes point then throw (.program (.noEntryPoint typeName point.name))
  | .decodeEnumeration enumeration _ _ _ => do
    let entry ← types.require enumeration
    if !entry.isEnumeration then throw (.program (.notEnumeration enumeration))
  | .conditionalWrapStream _ prelude _ _ _ _ => checkBlock types execution prelude
  | .loop _ _ _ _ body => checkBlock types execution body
  | .conditional _ _ _ body => checkBlock types execution body
  | _ => .ok ()

/-- Checks the instructions of a block. -/
def checkBlock (types : Types) (execution : Execution) : List Instruction → Except Fault Unit
  | [] => .ok ()
  | instruction :: rest => do
    instruction.check types execution
    checkBlock types execution rest

end

/-- Checks a program before its runs in a mode. -/
def compile (program : Program) (types : Types) (mode : String) : Except Fault Execution := do
  match Execution.ofName? mode with
  | none => throw (.program (.unknownMode mode))
  | some execution =>
    if !(← program.hasRegisters) then throw (.program .noRegisters)
    checkBlock types execution program.instructions
    return execution

/-! ### Runs -/

/-- The source of a run: a view, and whether the run opens it from a raw input. -/
structure RunSource where
  view : View
  raw : Bool
  deriving Inhabited

/-- Gives the view of a source. A raw input can only be opened in one of the two modes. -/
def RunSource.open? (source : RunSource) (mode : String) : Except Fault View :=
  if source.raw ∧ (Execution.ofName? mode).isNone then .error (.program (.unknownMode mode))
  else .ok source.view

/-- How deep references between messages may nest beyond the number of registered types. -/
def nestingLimit : Nat := 1000

/-- Runs a program over a source, unchecked. -/
def decodeWith (environment : Environment) (source : RunSource) (values : List Value) :
    Step Value :=
  environment.decode
    (decodeMessage environment.types environment.mode environment.config
      (environment.types.length + nestingLimit))
    (source.open? environment.mode) values

/-- Checks and runs a message on its own, with its own settings. -/
def MessageType.decode (message : MessageType) (types : Types) (execution : Execution)
    (source : RunSource) (values : List Value) : Step Value := do
  let _ ← Step.ofExcept (compile message.program types execution.name)
  decodeWith ⟨message.program, types, execution.name, message.config⟩ source values

end WireProgram
