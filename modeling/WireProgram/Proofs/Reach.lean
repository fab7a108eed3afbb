/-
**The programs that a run can come to.**

A program names other messages in its instructions, at any depth of its blocks, and a message sees
the registered types of its caller or none at all. The main definitions:

* `Instruction.parts` and `blockParts`, the instructions of a block with those of all blocks inside;
* `Linked`, a program with the types that it sees, and `Linked.Refers`, one reference;
* `Linked.Reaches`, any number of references one after the other, and `Linked.Throughout`, what holds of
  all programs that they come to;
* `Linked.not_names`, a program without references.
-/

import Mathlib.Logic.Relation
import WireProgram.Run

namespace WireProgram

/-! ### Parts of blocks -/

mutual

/-- An instruction and all instructions of the blocks inside it. -/
def Instruction.parts (instruction : Instruction) : List Instruction :=
  instruction ::
    match instruction with
    | .conditionalWrapStream _ prelude _ _ _ _ => blockParts prelude
    | .loop _ _ _ _ body => blockParts body
    | .conditional _ _ _ body => blockParts body
    | _ => []

/-- All instructions of a block and of the blocks inside it. -/
def blockParts : List Instruction → List Instruction
  | [] => []
  | instruction :: rest => instruction.parts ++ blockParts rest

end

theorem Instruction.mem_parts (instruction : Instruction) : instruction ∈ instruction.parts := by
  cases instruction <;> exact List.mem_cons_self ..

/-- Whether an instruction refers to a message. -/
def Instruction.isReference : Instruction → Bool
  | .decodeReference .. => true
  | _ => false

/-! ### References -/

/-- The types that a message sees. -/
def MessageType.visible (message : MessageType) (types : Types) : Types :=
  if message.standalone then [] else types

theorem TypeEntry.inPlace_eq_ok {entry : TypeEntry} {message : MessageType}
    (same : entry.inPlace = .ok message) : entry = .message message := by
  unfold TypeEntry.inPlace at same
  split at same
  · split at same
    · cases same
      rfl
    · cases same
  · cases same

/-- A program with the types that it sees. -/
structure Linked where
  program : Program
  types : Types
  deriving Inhabited

namespace Linked

/-- A message, entered by a program that sees some types. -/
def ofMessage (message : MessageType) (types : Types) : Linked :=
  ⟨message.program, message.visible types⟩

/-- Whether an instruction of a program refers to a message. -/
def Names (linked : Linked) (message : MessageType) : Prop :=
  ∃ target data name arguments,
    Instruction.decodeReference target data name arguments ∈
      blockParts linked.program.instructions ∧
    linked.types.require name = .ok (.message message)

/-- A program without references, at any depth of its blocks, refers to no message. -/
theorem not_names {linked : Linked}
    (free : (blockParts linked.program.instructions).any Instruction.isReference = false)
    (message : MessageType) : ¬linked.Names message := by
  rintro ⟨target, data, name, arguments, member, -⟩
  exact List.any_eq_false.mp free _ member rfl

/-- Whether a program refers to another one. -/
def Refers (linked other : Linked) : Prop :=
  ∃ message, linked.Names message ∧ other = ofMessage message linked.types

/-- Whether a run of a program can come to another one. -/
def Reaches : Linked → Linked → Prop :=
  Relation.ReflTransGen Refers

/-- A property of all programs that a run can come to. -/
def Throughout (good : Linked → Prop) (linked : Linked) : Prop :=
  ∀ other, linked.Reaches other → good other

theorem Throughout.here {good : Linked → Prop} {linked : Linked}
    (throughout : linked.Throughout good) : good linked :=
  throughout linked .refl

/-- What holds throughout a program holds throughout every message that it refers to. -/
theorem Throughout.message {good : Linked → Prop} {linked : Linked} {message : MessageType}
    (throughout : linked.Throughout good) (names : linked.Names message) :
    (ofMessage message linked.types).Throughout good :=
  fun other reaches => throughout other (.head ⟨message, names, rfl⟩ reaches)

/-- What holds of a program and throughout every message that it refers to. -/
theorem Throughout.of_messages {good : Linked → Prop} {linked : Linked} (holds : good linked)
    (messages : ∀ message, linked.Names message →
      (ofMessage message linked.types).Throughout good) : linked.Throughout good := by
  intro other reaches
  rcases Relation.ReflTransGen.cases_head reaches with rfl | ⟨next, ⟨message, names, same⟩, more⟩
  · exact holds
  · subst same
    exact messages message names other more

/-- A program that refers to no message comes to no other program. -/
theorem Throughout.of_unlinked {good : Linked → Prop} {linked : Linked} (holds : good linked)
    (unlinked : ∀ message, ¬linked.Names message) : linked.Throughout good :=
  .of_messages holds fun message names => absurd names (unlinked message)

end Linked

end WireProgram
