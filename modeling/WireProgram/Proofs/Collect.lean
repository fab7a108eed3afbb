/-
**Rounds that collect scalars.**

The body of a loop often reads one scalar and adds it to the list of the loop. What such a round does is
said here once, whatever the loop: it takes one scalar from the bytes that a view offers, or falls short
if there are too few. The main definitions and statements:

* `readScalar_offers`, reading one scalar;
* `run_runBlock_cons`, the first instruction of a block;
* `Step.Collects`, a step that adds one scalar to a list, and `collects_round`, such a round.
-/

import WireProgram.Proofs.Step
import WireProgram.Proofs.Stream.Abreast
import WireProgram.Proofs.Stream.Offer

namespace WireProgram

/-! ### Scalars one by one -/

namespace Primitive

variable {primitive : Primitive} {content : Bytes} {count : Nat}

theorem width_pos (primitive : Primitive) : 0 < primitive.width := by
  cases primitive <;> decide

theorem decodeAll_nil (primitive : Primitive) : primitive.decodeAll [] = [] := by
  unfold decodeAll
  rw [List.length_nil, Nat.zero_div]
  rfl

/-- There are as many scalars as whole pieces. -/
theorem length_decodeAll (primitive : Primitive) (content : Bytes) :
    (primitive.decodeAll content).length = content.length / primitive.width := by
  have each : ∀ (count : Nat) (content : Bytes),
      (pieces primitive.width count content).length = count := by
    intro count
    induction count with
    | zero => exact fun _ => rfl
    | succ count hypothesis => exact fun content => congrArg (· + 1) (hypothesis _)
  rw [decodeAll, List.length_map, each]

/-- The scalars of a byte string are that of its first piece and those of the others. -/
theorem decodeAll_take_add (within : primitive.width + count ≤ content.length) :
    primitive.decodeAll (content.take (primitive.width + count)) =
      primitive.decode (content.take primitive.width) ::
        primitive.decodeAll ((content.drop primitive.width).take count) := by
  have whole : (content.take (primitive.width + count)).length = primitive.width + count :=
    List.length_take_of_le within
  have others : ((content.drop primitive.width).take count).length = count :=
    List.length_take_of_le (by rw [List.length_drop]; omega)
  unfold decodeAll
  rw [whole, others, Nat.add_div_left _ primitive.width_pos, pieces, List.map_cons, List.take_take,
    Nat.min_eq_left (Nat.le_add_right _ _), List.drop_take, Nat.add_sub_cancel_left]

end Primitive

theorem requirePrimitive_name (primitive : Primitive) :
    requirePrimitive primitive.name = .ok primitive := by
  cases primitive <;> rfl

/-- **Reading a scalar** from a view, by the bytes that it offers. -/
theorem readScalar_offers {view : View} {content : Bytes} (machine : Machine)
    (offers : view.Offers content machine.streams) (primitive : Primitive) :
    ∃ streams, (readScalar view primitive.name).run machine =
        (if primitive.width ≤ content.length then
            .ok (primitive.decode (content.take primitive.width)).toValue
          else .error ⟨.decode (.shortRead primitive.width content.length), []⟩,
          { machine with streams := streams }) ∧
      view.Gave (View.spentBy primitive.width content) machine.streams streams ∧
      Streams.Kept view.touches machine.streams streams := by
  obtain ⟨streams, ran, gave⟩ := offers.readExact primitive.width
  have kept := view.readExact_kept primitive.width machine.streams
  rw [ran] at kept
  refine ⟨streams, ?_, gave, kept⟩
  unfold readScalar
  rw [run_bind_ok (Step.run_ofExcept_ok (requirePrimitive_name primitive) machine), run_bind,
    Step.run_onStreams, ran]
  unfold View.exactly
  by_cases within : primitive.width ≤ content.length
  · rw [if_pos within, if_pos within]
    have exact : (content.take primitive.width).length = primitive.width :=
      List.length_take_of_le within
    exact Step.run_ofExcept_ok (if_pos exact) _
  · rw [if_neg within, if_neg within]
    rfl

/-! ### Instructions and blocks -/

section Blocks

variable {environment : Environment} {refer : Referral} {frame : Frame} {target : Target}
  {item output : Register} {machine : Machine}

theorem run_decodePrimitive {view : View} (reads : frame.target target = .ok view) (name : Json)
    (machine : Machine) :
    ((Instruction.decodePrimitive target item name).run environment refer frame).run machine =
      (readScalar view name >>= fun value => Step.ofExcept (frame.set item value)).run machine := by
  unfold Instruction.run
  exact run_bind_ok (Step.run_ofExcept_ok reads machine)

theorem run_loopOutput {cell : Nat} {value : Value} (list : frame.get output = .ok (.list cell))
    (read : frame.get item = .ok value) :
    ((Instruction.loopOutput output item).run environment refer frame).run machine =
      (.ok frame, { machine with lists := machine.lists.modify cell (· ++ [value]) }) := by
  unfold Instruction.run
  exact run_bind_ok (run_addOutput list read)

/-- A block whose first instruction may have changed the trace before it runs. -/
theorem run_runBlock_cons (environment : Environment) (refer : Referral) (instruction : Instruction)
    (rest : List Instruction) (index : Nat) (frame : Frame) (machine : Machine) :
    ∃ trace, (runBlock environment refer (instruction :: rest) index frame).run machine =
      match (instruction.run environment refer frame).run { machine with trace := trace } with
      | (.ok next, after) => (runBlock environment refer rest (index + 1) next).run after
      | (.error failure, after) =>
        (.error (failure.within ⟨index, instruction.label⟩),
          Step.recorded environment.config frame.depth ⟨index, instruction.label⟩ failure after) := by
  have started : ∃ trace, (Step.record environment.config "exec" frame.depth instruction.label
      environment.mode).run machine = (.ok (), { machine with trace := trace }) := by
    unfold Step.record
    rw [Step.run_change]
    split
    · exact ⟨_, rfl⟩
    · exact ⟨machine.trace, rfl⟩
  obtain ⟨trace, started⟩ := started
  refine ⟨trace, ?_⟩
  rw [runBlock, run_bind_ok started, run_bind, Step.run_guarded]
  rcases (instruction.run environment refer frame).run { machine with trace := trace } with
    ⟨failure | next, after⟩ <;> rfl

end Blocks

section Progress

variable {view : View} {body : Step Unit} {before after : Machine}

theorem run_withProgress (ran : body.run before = (.ok (), after))
    (moved : view.position after.streams ≠ view.position before.streams) :
    (withProgress view body).run before = (.ok (), after) := by
  unfold withProgress
  rw [run_bind_ok (Step.run_look _ _), run_bind_ok ran, run_bind_ok (Step.run_look _ _), if_neg moved]
  rfl

theorem run_withProgress_error {failure : Failure} (ran : body.run before = (.error failure, after)) :
    (withProgress view body).run before = (.error failure, after) := by
  unfold withProgress
  rw [run_bind_ok (Step.run_look _ _), run_bind_error ran]

end Progress

/-! ### Rounds -/

/-- A register can be written: it addresses a slot that has no value yet. -/
def Frame.Free (frame : Frame) (register : Register) : Prop :=
  ∃ slot, register.slot? = some slot ∧ frame.find? slot = none

theorem Frame.Free.set {frame : Frame} {register : Register} (free : frame.Free register)
    (value : Value) : ∃ next, frame.set register value = .ok next := by
  obtain ⟨slot, addressed, empty⟩ := free
  exact ⟨_, Frame.set_eq_ok.mpr ⟨slot, addressed, empty, rfl⟩⟩

/-- A step that reads a scalar from a view and adds it to a list, and touches no other layer. If there
are too few bytes, it fails at a place of the program. -/
structure Step.Collects (round : Step Unit) (view : View) (primitive : Primitive) (cell : Nat)
    (place : List Site) : Prop where
  adds : ∀ machine content, view.Offers content machine.streams → primitive.width ≤ content.length →
    ∃ after, round.run machine = (.ok (), after) ∧
      after.lists = machine.lists.modify cell (· ++
        [(primitive.decode (content.take primitive.width)).toValue]) ∧
      view.Gave primitive.width machine.streams after.streams ∧
      Streams.Kept view.touches machine.streams after.streams
  short : ∀ machine content, view.Offers content machine.streams → content.length < primitive.width →
    ∃ after, round.run machine =
      (.error ⟨.decode (.shortRead primitive.width content.length), place⟩, after)

section Rounds

variable {frame : Frame} {target : Target} {item output : Register} {view : View} {cell : Nat}

/-- **A round that collects a scalar.** Its frame reads the view and holds the list, and the register of
the scalar is free. -/
theorem collects_round (environment : Environment) (refer : Referral) (primitive : Primitive)
    (reads : frame.target target = .ok view) (list : frame.get output = .ok (.list cell))
    (free : frame.Free item) :
    (discard (runBlock environment refer
      [.decodePrimitive target item primitive.name, .loopOutput output item] 0 frame)).Collects
        view primitive cell
        [⟨0, (Instruction.decodePrimitive target item primitive.name).label⟩] := by
  refine ⟨fun machine content offers within => ?_, fun machine content offers short => ?_⟩
  all_goals
    obtain ⟨trace, decodes⟩ := run_runBlock_cons environment refer
      (.decodePrimitive target item primitive.name) [.loopOutput output item] 0 frame machine
    obtain ⟨streams, ran, gave, kept⟩ := readScalar_offers { machine with trace := trace } offers
      primitive
  · rw [if_pos within] at ran
    rw [View.spentBy, if_pos within] at gave
    obtain ⟨inner, written⟩ := free.set (primitive.decode (content.take primitive.width)).toValue
    obtain ⟨trace', adds⟩ := run_runBlock_cons environment refer (.loopOutput output item) [] 1 inner
      { machine with trace := trace, streams := streams }
    rw [run_decodePrimitive reads, run_bind_ok ran, Step.run_ofExcept_ok written] at decodes
    rw [run_loopOutput (Frame.get_of_set written list) (Frame.get_set written)] at adds
    have whole := decodes.trans adds
    exact ⟨_, by rw [run_discard, whole]; rfl, rfl, gave, kept⟩
  · rw [if_neg (Nat.not_le_of_lt short)] at ran
    rw [run_decodePrimitive reads, run_bind_error ran] at decodes
    exact ⟨_, by rw [run_discard, decodes]; rfl⟩

end Rounds

end WireProgram
