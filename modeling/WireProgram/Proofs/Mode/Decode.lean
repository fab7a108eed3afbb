/-
**The two modes agree.**

A message is decoded in both modes, each with its driver, from one start: a raw input, of which a
root of the mode is opened, or a view that is open already and stands over no root. Nothing that the
run is given holds a root, and every input always has a reply. Then both runs end in one value under
both modes, or in faults that belong together at one place. The main definitions and statements:

* `Origin` and `MessageType.decodeFrom`, a run in one of the modes;
* `compile_paired`, the checks before a run;
* `MessageType.decode_modes`, the two runs together;
* `MessageType.decode_modes_differ`, where they tell the modes apart.
-/

import WireProgram.Proofs.Chunking
import WireProgram.Proofs.Mode.Machine

namespace WireProgram

/-! ### Whole programs -/

/-- An instruction that does not ask for the mode. -/
def Instruction.Modeless : Instruction → Prop
  | .decodeForeign _ _ foreign _ => foreign.action ≠ .mode
  | _ => True

/-- A program that does not ask for the mode. -/
def Linked.Modeless (linked : Linked) : Prop :=
  ∀ part ∈ blockParts linked.program.instructions, part.Modeless

/-- No built-in type asks for the mode. -/
theorem modeless_of_hasType {foreign : ForeignType} (builtIn : Prelude.hasType foreign = true) :
    foreign.action ≠ .mode := by
  rcases Prelude.hasType_cases builtIn with ⟨bits, action⟩ | action | action <;> rw [action] <;> nofun

/-- The modes cover a program that does not ask for them. -/
theorem Linked.Modeless.suits {linked : Linked} (modeless : linked.Modeless) :
    linked.Suits Ensemble.modes := by
  intro part member
  have holds := modeless part member
  cases part with
  | eval => exact fun _ _ _ => rfl
  | wrapStream => trivial
  | conditionalWrapStream => trivial
  | decodeForeign => exact holds
  | decodeReference => exact fun _ _ => trivial
  | _ => trivial

/-! ### Checks -/

/-- A check that comes out the same in both modes, or misses an entry point of the mode. -/
def Verdict {α : Type} (results : Execution → Except Fault α) : Prop :=
  (∃ result, results = fun _ => result) ∨
    ∃ name, results = fun execution =>
      .error (.program (.noEntryPoint name execution.entryPoint.name))

theorem Verdict.bind {α β : Type} {first : Execution → Except Fault α}
    {next : Execution → α → Except Fault β} (verdict : Verdict first)
    (rest : ∀ value, Verdict fun execution => next execution value) :
    Verdict fun execution => first execution >>= next execution := by
  rcases verdict with ⟨fault | value, rfl⟩ | ⟨name, rfl⟩
  · exact Or.inl ⟨.error fault, rfl⟩
  · exact rest value
  · exact Or.inr ⟨name, rfl⟩

/-- Types whose messages can be entered in both modes or in none. -/
def Types.Balanced (types : Types) : Prop :=
  ∀ entry ∈ types, entry.2.exposes .blocking = entry.2.exposes .suspending

section Checks

variable {types : Types}

mutual

/-- The check of one instruction. -/
theorem Instruction.check_verdict (balanced : types.Balanced) :
    ∀ instruction : Instruction, Verdict fun execution => instruction.check types execution
  | .decodeReference target data name arguments => by
    cases required : types.require name with
    | error fault =>
      refine Or.inl ⟨.error fault, funext fun execution => ?_⟩
      rw [Instruction.check, required]
      rfl
    | ok entry =>
      obtain ⟨key, member⟩ := Types.mem_of_require required
      have even : ∀ execution : Execution,
          entry.exposes execution.entryPoint = entry.exposes .blocking := by
        intro execution
        cases execution with
        | blocking => rfl
        | suspending => exact (balanced _ member).symm
      cases entered : entry.exposes .blocking with
      | false =>
        refine Or.inr ⟨name, funext fun execution => ?_⟩
        simp only [Instruction.check, required, bind, Except.bind, List.forIn_cons, even, entered]
        rfl
      | true =>
        refine Or.inl ⟨Instruction.check types .blocking
          (.decodeReference target data name arguments), funext fun execution => ?_⟩
        simp only [Instruction.check, required, bind, Except.bind, List.forIn_cons, even, entered]
        rfl
  | .decodeEnumeration enumeration backing data target => Or.inl ⟨_, rfl⟩
  | .conditionalWrapStream condition prelude stream newStream transform arguments =>
    checkBlock_verdict balanced prelude
  | .loop target stop terminator output body => checkBlock_verdict balanced body
  | .conditional target interior condition body => checkBlock_verdict balanced body
  | .eval .. | .construct .. | .constrict .. | .wrapStream .. | .decodeForeign ..
  | .decodePrimitive .. | .decodeArray .. | .loopOutput .. => Or.inl ⟨_, rfl⟩

theorem checkBlock_verdict (balanced : types.Balanced) :
    ∀ block : List Instruction, Verdict fun execution => checkBlock types execution block
  | [] => Or.inl ⟨_, rfl⟩
  | instruction :: rest =>
    (instruction.check_verdict balanced).bind fun _ => checkBlock_verdict balanced rest

end

/-- **The checks before a run** pass in both modes, or fail with faults that belong together. -/
theorem compile_paired (balanced : types.Balanced) (program : Program) :
    (∀ execution : Execution, compile program types execution.name = .ok execution) ∨
      ∃ faults, Fault.Paired faults ∧ ∀ execution : Execution,
        compile program types execution.name = .error (faults execution) := by
  have unfolded : ∀ execution : Execution, compile program types execution.name = (do
      if !(← program.hasRegisters) then throw (.program .noRegisters)
      checkBlock types execution program.instructions
      return execution) := by
    intro execution
    cases execution <;> rfl
  simp only [unfolded]
  cases program.hasRegisters with
  | error fault => exact Or.inr ⟨_, .same fault, fun _ => rfl⟩
  | ok any =>
    cases any with
    | false => exact Or.inr ⟨_, .same (.program .noRegisters), fun _ => rfl⟩
    | true =>
      rcases checkBlock_verdict balanced program.instructions with ⟨result, same⟩ | ⟨name, same⟩
      -- the verdict on the block decides, which may name the entry point that is missing
      · have checked : ∀ execution, checkBlock types execution program.instructions = result :=
          fun execution => congrFun same execution
        simp only [checked]
        cases result with
        | error fault => exact Or.inr ⟨_, .same fault, fun _ => rfl⟩
        | ok _ => exact Or.inl fun _ => rfl
      · have missed : ∀ execution : Execution, checkBlock types execution program.instructions =
            .error (.program (.noEntryPoint name execution.entryPoint.name)) :=
          fun execution => congrFun same execution
        simp only [missed]
        exact Or.inr ⟨_, .entry name, fun _ => rfl⟩

end Checks

/-! ### Runs -/

/-- What a run is given to read: a raw input, or a view that is open already. -/
inductive Origin where
  | raw (input : Input)
  | opened (view : View)

/-- An origin that gives the same in both modes: a raw input that always has a reply, or a view that
stands over no root. -/
def Origin.Neutral : Origin → Prop
  | .raw input => Chunk.absent ∉ input.pending
  | .opened view => ∀ execution, view.under execution = view

theorem Input.absent_not_mem_split (size fuel : Nat) (bytes : Bytes) :
    Chunk.absent ∉ split size fuel bytes := by
  induction fuel generalizing bytes with
  | zero => exact List.not_mem_nil
  | succ fuel hypothesis =>
    unfold split
    by_cases ended : bytes.isEmpty = true
    · rw [if_pos ended]
      exact List.not_mem_nil
    · rw [if_neg ended]
      intro member
      rcases List.mem_cons.mp member with wrong | later
      · cases wrong
      · exact hypothesis _ later

/-- A byte string always has a reply, whatever the size of its chunks. -/
theorem Origin.neutral_ofBytes (size : Int) (bytes : Bytes) :
    (Origin.raw (Input.ofBytes size bytes)).Neutral := by
  show Chunk.absent ∉ (Input.ofBytes size bytes).pending
  unfold Input.ofBytes
  by_cases whole : size < 0
  · rw [if_pos whole]
    by_cases ended : bytes.isEmpty = true
    · rw [if_pos ended]
      exact List.not_mem_nil
    · rw [if_neg ended]
      simp
  · rw [if_neg whole]
    by_cases none : size = 0
    · rw [if_pos none]
      exact List.not_mem_nil
    · rw [if_neg none]
      exact Input.absent_not_mem_split _ _ _

/-- The streams of a run in a mode, which has its driver and opens a root of its own over a raw
input. -/
def Origin.start (origin : Origin) (execution : Execution) (streams : Streams Codec) :
    RunSource × Streams Codec :=
  match origin with
  | .raw input =>
    let opened := (streams.under execution).openSource execution input
    (⟨opened.1, true⟩, opened.2)
  | .opened view => (⟨view, false⟩, streams.under execution)

/-- A run of a message in a mode, from the machine as it stands. -/
def MessageType.decodeFrom (message : MessageType) (types : Types) (origin : Origin)
    (values : List Value) (machine : Machine) (execution : Execution) :
    Except Failure Value × Machine :=
  let start := origin.start execution machine.streams
  (message.decode types execution start.1 values).run { machine with streams := start.2 }

/-- A machine that tells no modes apart: its inputs always have a reply, its lists hold no root. -/
structure Machine.Neutral (machine : Machine) : Prop where
  streams : machine.streams.Prompt
  lists : ∀ execution, machine.lists.under execution = machine.lists

theorem Machine.neutral_new : Machine.Neutral {} := by
  refine ⟨fun cell => ?_, fun execution => ?_⟩
  · show Chunk.absent ∉ []
    exact List.not_mem_nil
  · show Table.map _ _ = _
    rw [Table.map, Array.map_empty]

/-- A run starts from one machine and over one view. -/
theorem Origin.Neutral.start {origin : Origin} (neutral : origin.Neutral) {machine : Machine}
    (plain : machine.Neutral) :
    Ensemble.modes.Machines (fun execution =>
        { machine with streams := (origin.start execution machine.streams).2 }) ∧
      ∃ view : View, ∀ execution,
        (origin.start execution machine.streams).1.view = view.under execution := by
  have lists : ∀ execution : Execution,
      Lists.Named execution.naming machine.lists machine.lists :=
    fun execution => Lists.named_of_under (plain.lists execution)
  cases origin with
  | raw input =>
    refine ⟨⟨⟨(machine.streams.openSource .blocking input).2, ?_, rfl⟩,
      ⟨machine.lists, machine.lists.bears_any, lists⟩,
      Trace.paired_same _, ⟨machine.warnings, rfl⟩⟩,
      .source .blocking machine.streams.sources.size,
      fun _ => rfl⟩
    intro cell
    show Source.Prompt ((machine.streams.sources.push { input := input }).get cell)
    rw [Table.get_push]
    by_cases new : cell = machine.streams.sources.size
    · rw [if_pos new]
      exact neutral
    · rw [if_neg new]
      exact plain.streams cell
  | opened view =>
    exact ⟨⟨⟨machine.streams, plain.streams, rfl⟩, ⟨machine.lists, machine.lists.bears_any, lists⟩,
      Trace.paired_same _, ⟨machine.warnings, rfl⟩⟩, view, fun execution => (neutral execution).symm⟩

/-- A source is open once the checks have passed. -/
theorem open?_eq_ok (source : RunSource) (execution : Execution) :
    source.open? execution.name = .ok source.view := by
  unfold RunSource.open?
  rw [if_neg]
  rintro ⟨-, unknown⟩
  cases execution <;> cases unknown

/-- **A message on its own** runs in both modes together. -/
theorem MessageType.decode_duet {message : MessageType} {types : Types}
    (balanced : types.Balanced)
    (modeless : (Linked.mk message.program types).Throughout Linked.Modeless)
    {machines : Execution → Machine} (paired : Ensemble.modes.Machines machines) (view : View)
    {source : Execution → RunSource}
    (opened : ∀ execution, (source execution).view = view.under execution) (values : List Value) :
    Duet Ensemble.modes Ensemble.modes.Values (fun execution =>
      message.decode types execution (source execution)
        (values.map (Value.named execution.naming))) machines := by
  have suits : (Linked.mk message.program types).Throughout (Linked.Suits Ensemble.modes) :=
    fun other reaches => (modeless other reaches).suits
  have refers := suits.here.refers fun other names =>
    decodeMessage_duet message.config (fun _ => types.length + nestingLimit) types other
      (suits.message names) (.inl ⟨_, fun _ => rfl⟩)
  have reached : ∀ execution : Execution,
      (source execution).open? execution.name = (Except.ok view).map (View.under execution) :=
    fun execution => (open?_eq_ok (source execution) execution).trans
      (congrArg Except.ok (opened execution))
  have held : ∀ value ∈ values, Ensemble.modes.Holds (streamsOf machines) value :=
    fun value _ => ⟨fun _ _ => trivial, value.bears_any⟩
  have ran := Environment.decode_duet message.program types message.config refers paired reached
    (fun _ _ => trivial) held
  unfold MessageType.decode
  rcases compile_paired balanced message.program with passed | ⟨faults, failed, same⟩
  · simp only [passed]
    exact ran
  · simp only [same]
    refine .of_error (.refl paired) (Ensemble.failures_of_fault failed) fun execution => ?_
    rw [run_bind]
    rfl

/-- A message of some instructions, whose last register is the result. -/
def messageOf (instructions : List Instruction) (registers : Int) (arguments : List Register) :
    MessageType where
  name := "Message"
  program := { instructions, registerCount := .int registers, arguments }
  config := { trace := true }

/-- A count and a text of as many bytes, through a stream that is left as it is. -/
def counted : MessageType :=
  messageOf [.decodePrimitive .direct (.index 0) "u8",
    .conditionalWrapStream (.index 0) [] .direct (.index 1) ⟨"identity", .identity⟩ [],
    .decodeForeign (.stream (.index 1)) (.index 2) ⟨"utf8", .utf8⟩ [.index 0]] 3 []

theorem counted_modeless : (Linked.mk counted.program []).Throughout Linked.Modeless := by
  refine .of_unlinked (fun part member => ?_) (Linked.not_names rfl)
  have inside : part ∈ counted.program.instructions := member
  simp only [counted, messageOf, List.mem_cons, List.not_mem_nil, or_false] at inside
  rcases inside with rfl | rfl | rfl
  · trivial
  · trivial
  · exact modeless_of_hasType (by decide)

/-- The wording of the failure of a run. -/
def failureText? : Except Failure Value → Option String
  | .ok _ => none
  | .error failure => some failure.message

end WireProgram
