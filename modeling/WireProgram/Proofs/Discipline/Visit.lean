/-
**Where a program that passes the checker can come to.**

At every station of a run the checker has followed the frame: what is left of the block passes in a
scope with the same registers, and the lists of the enclosing loops are in place. One step of a run
keeps this up (`Station.Follows.disciplined`), and so does a whole run. The main statements:

* `Station.Disciplined`, the invariant of the stations of a run;
* `Station.Disciplined.addOutput`, an item goes to the list of an enclosing loop;
* `decode_disciplined`, whole runs.
-/

import WireProgram.Proofs.Discipline.Run
import WireProgram.Proofs.Station

namespace WireProgram

namespace Station

variable {station next : Station} {instruction : Instruction} {rest : List Instruction}
  {entry : Entry} {strict : Prop}

theorem started_lists (station : Station) (instruction : Instruction) :
    (station.started instruction).lists = station.machine.lists := by
  unfold started Step.record
  rw [Step.run_change]
  dsimp only
  split <;> rfl

/-! ### The invariant -/

/-- What the lists went through before a block was opened: none changed but those of the loops around,
and those of the loops that the block is inside of are new. -/
structure Opened (station : Station) (entry : Entry) : Prop where
  kept : Lists.Kept station.loops station.machine.lists entry.machine.lists
  new : ∀ cell ∈ entry.loops,
    station.machine.lists.size ≤ cell ∧ cell < entry.machine.lists.size

/-- A station that the checker has followed. -/
structure Disciplined (strict : Prop) (station : Station) : Prop where
  valid : (Linked.mk station.environment.program station.environment.types).Throughout
    (Linked.Checked strict)
  inside : ∀ part ∈ blockParts station.block,
    part ∈ blockParts station.environment.program.instructions
  followed : ∃ extent scope placeOf,
    (checkInstructions extent scope placeOf station.index station.block).1 = [] ∧
      Tracks station.loops scope station.frame
  held : ∀ cell ∈ station.loops, cell < station.machine.lists.size

namespace Disciplined

theorem sober (disciplined : station.Disciplined strict) : ∀ part ∈ blockParts station.block,
    part.Sober strict station.environment.types station.refer := by
  intro part member
  refine disciplined.valid.here.sober (fun message names => ?_) part (disciplined.inside part member)
  exact decodeMessage_sound _ _ _ _ _ (disciplined.valid.message names)

/-- What the checker has passed before an instruction. -/
theorem checked (disciplined : station.Disciplined strict) (block : station.block = instruction :: rest) :
    ∃ extent scope place placeOf, (checkInstruction extent scope place instruction).1 = [] ∧
      (checkInstructions extent (checkInstruction extent scope place instruction).2 placeOf
        (station.index + 1) rest).1 = [] ∧ Tracks station.loops scope station.frame := by
  obtain ⟨extent, scope, placeOf, passed, tracks⟩ := disciplined.followed
  rw [block] at passed
  simp only [checkInstructions, List.append_eq_nil_iff] at passed
  exact ⟨extent, scope, _, placeOf, passed.1, passed.2, tracks⟩

/-- A block inside of an instruction, from the scope in which it passes. -/
theorem enter (disciplined : station.Disciplined strict) (block : station.block = instruction :: rest)
    (inside : ∀ part ∈ blockParts entry.block, part ∈ instruction.parts) {extent : Extent}
    {scope : CheckScope} {placeOf : Nat → String → Place}
    (passed : (checkInstructions extent scope placeOf 0 entry.block).1 = [])
    (tracks : Tracks (entry.loops ++ station.loops) scope entry.frame)
    (opened : station.Opened entry) : (station.enter entry).Disciplined strict where
  valid := disciplined.valid
  inside part member := by
    refine disciplined.inside part ?_
    rw [block]
    exact List.mem_append_left _ (inside part member)
  followed := ⟨extent, scope, placeOf, passed, tracks⟩
  held cell member := by
    rcases List.mem_append.mp member with member | member
    · exact (opened.new cell member).2
    · exact Nat.lt_of_lt_of_le (disciplined.held cell member) opened.kept.grown

end Disciplined

/-! ### One step -/

/-- From one round to another a loop changes the lists that its rounds may change. -/
theorem Rounds.kept {loops : List Nat} {test : Machine → Machine → Prop} {body : Step Unit}
    {start machine : Machine} (rounds : Rounds test body start machine)
    (tests : ∀ before after, test before after → after.lists = before.lists)
    (each : ∀ inner, Spares strict loops (fun _ => True) body inner) :
    Lists.Kept loops start.lists machine.lists := by
  induction rounds with
  | first tested =>
    rw [tests _ _ tested]
    exact .refl _ _
  | next rounds ran tested hypothesis =>
    rw [tests _ _ tested]
    exact hypothesis.trans ((each _).ok ran).1

/-- A loop makes its list and then runs rounds that may change it. -/
theorem Opened.of_newList {before listed machine : Machine} {cell : Nat}
    (started : Lists.Kept station.loops station.machine.lists before.lists)
    (lists : newList.run before = (.ok (.list cell), listed))
    (rounds : Lists.Kept (cell :: station.loops) listed.lists machine.lists)
    (body : List Instruction) (frame : Frame) : station.Opened ⟨[cell], body, frame, machine⟩ := by
  obtain ⟨same, rfl⟩ := Prod.mk.inj lists
  cases same
  have pushed : (before.lists.push []).size = before.lists.size + 1 := Table.size_push _ _
  refine ⟨started.trans (.of_new (Nat.le_refl _) ((Lists.Kept.push _ _ []).trans rounds)), ?_⟩
  intro other member
  obtain rfl := List.mem_singleton.mp member
  have grown := rounds.grown
  exact ⟨started.grown, by dsimp only at grown ⊢; omega⟩

/-- **Into a block** of an instruction. -/
theorem Opens.disciplined (opens : station.Opens instruction entry)
    (disciplined : station.Disciplined strict) (block : station.block = instruction :: rest) :
    station.Opened entry ∧ (station.enter entry).Disciplined strict := by
  obtain ⟨extent, scope, place, -, passed, -, tracks⟩ := disciplined.checked block
  have sober : ∀ part ∈ instruction.parts,
      part.Sober strict station.environment.types station.refer := fun part member =>
    disciplined.sober part (block ▸ List.mem_append_left _ member)
  have starts := station.started_lists instruction
  -- where the instruction is known, what it opened puts together the scope of the block
  have enter : ∀ {extent : Extent} {scope : CheckScope} {placeOf : Nat → String → Place},
      (∀ part ∈ blockParts entry.block, part ∈ instruction.parts) →
        (checkInstructions extent scope placeOf 0 entry.block).1 = [] →
          Tracks (entry.loops ++ station.loops) scope entry.frame → station.Opened entry →
            station.Opened entry ∧ (station.enter entry).Disciplined strict :=
    fun inside passed tracks opened => ⟨opened, disciplined.enter block inside passed tracks opened⟩
  cases opens with
  | @prelude condition newStream prelude stream transform arguments view machine target holds =>
    simp only [checkInstruction, List.append_eq_nil_iff] at passed
    obtain ⟨⟨⟨readsPassed, preludePassed⟩, -⟩, -⟩ := passed
    have asks : Spares strict station.loops (fun _ => True) (conditionHolds station.frame condition)
        (station.started (.conditionalWrapStream condition prelude stream newStream transform
          arguments)) := conditionHolds_sound tracks (read_cons_passed readsPassed).1
    refine enter (fun part member => List.mem_cons_of_mem _ member) preludePassed tracks.child
      ⟨?_, fun cell member => absurd member List.not_mem_nil⟩
    rw [← starts]
    exact (asks.ok holds).1
  | @conditional target interior condition body machine holds =>
    simp only [checkInstruction, List.append_eq_nil_iff] at passed
    obtain ⟨⟨⟨conditionPassed, bodyPassed⟩, -⟩, -⟩ := passed
    have asks : Spares strict station.loops (fun _ => True) (conditionHolds station.frame condition)
        (station.started (.conditional target interior condition body)) :=
      conditionHolds_sound tracks (read_passed conditionPassed)
    refine enter (fun part member => List.mem_cons_of_mem _ member) bodyPassed tracks.child
      ⟨?_, fun cell member => absurd member List.not_mem_nil⟩
    rw [← starts]
    exact (asks.ok holds).1
  | @counted target stop output body count cell frame before listed machine counts lists written
      done within ran =>
    have inside : ∀ part ∈ blockParts body,
        part ∈ (Instruction.loop target (some stop) none output body).parts :=
      fun part member => List.mem_cons_of_mem _ member
    simp only [checkInstruction, List.append_eq_nil_iff] at passed
    obtain ⟨⟨⟨readsPassed, -⟩, writePassed⟩, bodyPassed⟩ := passed
    have stopPassed := (reads_passed (reads_passed readsPassed).1).2
    have counting : Spares strict station.loops (fun _ => True)
        (countIn station.frame "loop count" stop)
        (station.started (.loop target (some stop) none output body)) :=
      countIn_sound tracks (read_passed stopPassed) _
    have outer := (tracks.set writePassed (.list cell)).ok written
    have followed := outer.loopChild (Frame.get_set written)
    have runs : BlockSound strict station.environment station.refer extent body :=
      runBlock_sound body fun part member => sober part (inside part member)
    have rounds := (Spares.repeatBody (fun inner =>
      (runs _ _ 0 _ _ inner bodyPassed followed).discard) done).ok ran
    refine enter inside bodyPassed followed (.of_newList ?_ lists rounds.1 _ _)
    rw [← starts]
    exact (counting.ok counts).1
  | @terminated target terminator output body view value ending cell frame listed machine targeted
      read ends lists written rounds =>
    have inside : ∀ part ∈ blockParts body,
        part ∈ (Instruction.loop target none (some terminator) output body).parts :=
      fun part member => List.mem_cons_of_mem _ member
    simp only [checkInstruction, List.append_eq_nil_iff] at passed
    obtain ⟨⟨-, writePassed⟩, bodyPassed⟩ := passed
    have outer := (tracks.set writePassed (.list cell)).ok written
    have followed := outer.loopChild (Frame.get_set written)
    have tests : ∀ before after : Machine, (∃ peeked, (Step.onStreams
        (view.fillBuf ending.length)).run before = (.ok peeked, after) ∧ peeked.isEmpty = false ∧
          peeked.take ending.length ≠ ending) → after.lists = before.lists := by
      rintro before after ⟨peeked, ran, -⟩
      exact Step.lists_of_onStreams ran
    have runs : BlockSound strict station.environment station.refer extent body :=
      runBlock_sound body fun part member => sober part (inside part member)
    have kept := rounds.kept tests fun inner =>
      (runs _ _ 0 _ _ inner bodyPassed followed).discard.withProgress view
    refine enter inside bodyPassed followed (.of_newList ?_ lists kept _ _)
    rw [starts]
    exact .refl _ _
  | @throughout target output body view cursor content cell frame drained opened listed machine
      targeted read opens lists written rounds =>
    have inside : ∀ part ∈ blockParts body,
        part ∈ (Instruction.loop target none none output body).parts :=
      fun part member => List.mem_cons_of_mem _ member
    simp only [checkInstruction, List.append_eq_nil_iff] at passed
    obtain ⟨⟨-, writePassed⟩, bodyPassed⟩ := passed
    have outer := (tracks.set writePassed (.list cell)).ok written
    have followed := (outer.loopChild (Frame.get_set written)).cursorFrame
      (Frame.target_of_set written targeted) cursor
    have runs : BlockSound strict station.environment station.refer extent body :=
      runBlock_sound body fun part member => sober part (inside part member)
    have kept := rounds.kept (fun before after tested => congrArg Machine.lists tested.2)
      fun inner => (runs _ _ 0 _ _ inner bodyPassed followed).discard.withProgress cursor
    refine enter inside bodyPassed followed (.of_newList ?_ lists kept _ _)
    rw [Step.lists_of_onStreams opens, Step.lists_of_onStreams read, starts]
    exact .refl _ _

/-- **At the start** of a program the checker has followed the arguments. -/
theorem Starts.disciplined {view : View} {values : List Value} (starts : next.Starts view values)
    (valid : (Linked.mk next.environment.program next.environment.types).Throughout
      (Linked.Checked strict)) :
    next.Disciplined strict := by
  obtain ⟨frame, bound, same, outside, index, block⟩ := starts
  obtain ⟨extent, passed⟩ := Program.passed_of_validate valid.here.passes
  have tracks := (bindArguments_sound passed.arguments values).ok bound
  refine ⟨valid, ?_, ?_, ?_⟩
  · rw [block]
    exact fun part member => member
  · rw [block, same, outside, index]
    exact ⟨extent, _, .instruction, passed.body, tracks.bindReader view⟩
  · rw [outside]
    exact fun cell member => absurd member List.not_mem_nil

/-- **One step** of a run keeps to what the checker has followed. -/
theorem Follows.disciplined (follows : station.Follows next) (disciplined : station.Disciplined strict) :
    next.Disciplined strict := by
  cases follows with
  | @later instruction rest frame machine block ran =>
    obtain ⟨extent, scope, place, placeOf, passed, restPassed, tracks⟩ :=
      disciplined.checked block
    have sober := disciplined.sober
    have inside := disciplined.inside
    rw [block] at sober inside
    obtain ⟨kept, followed⟩ := (Instruction.run_sound instruction
      (fun part member => sober part (List.mem_append_left _ member)) scope place _ _ _ passed
      tracks).ok ran
    refine ⟨disciplined.valid, fun part member => inside part (List.mem_append_right _ member),
      ⟨extent, _, placeOf, restPassed, followed⟩, fun cell member => ?_⟩
    have grown := kept.grown
    rw [started_lists] at grown
    exact Nat.lt_of_lt_of_le (disciplined.held cell member) grown
  | inside block opens => exact (opens.disciplined disciplined block).2
  | @message target data name arguments rest view entry values message next block targeted required
      read entered depth environment machine starts =>
    obtain rfl := TypeEntry.inPlace_eq_ok entered
    have named : (Linked.mk station.environment.program station.environment.types).Names message :=
      ⟨target, data, name, arguments, disciplined.inside _ (by
        rw [block]
        exact List.mem_append_left _ (Instruction.mem_parts _)), required⟩
    refine starts.disciplined ?_
    rw [environment]
    exact disciplined.valid.message named

theorem Disciplined.visits (disciplined : station.Disciplined strict)
    (follows : Relation.ReflTransGen Follows station next) : next.Disciplined strict := by
  induction follows with
  | refl => exact disciplined
  | tail _ step hypothesis => exact step.disciplined hypothesis

/-! ### Items -/

/-- **An item** that is added goes to the list of an enclosing loop of the same message. -/
theorem Disciplined.addOutput (disciplined : station.Disciplined strict) {output item : Register}
    (block : station.block = .loopOutput output item :: rest) :
    ∃ cell ∈ station.loops, cell < station.machine.lists.size ∧ ∃ value,
      station.frame.get output = .ok (.list cell) ∧ station.frame.get item = .ok value ∧
        (Instruction.run station.environment station.refer (.loopOutput output item)
          station.frame).run (station.started (.loopOutput output item)) =
            (.ok station.frame, { station.started (.loopOutput output item) with
              lists := station.machine.lists.modify cell fun items => items ++ [value] }) := by
  obtain ⟨extent, scope, place, -, passed, -, tracks⟩ := disciplined.checked block
  simp only [checkInstruction, List.append_eq_nil_iff] at passed
  obtain ⟨outputPassed, itemPassed⟩ := read_cons_passed passed.1
  obtain ⟨cell, running, value, list, read⟩ :=
    tracks.output outputPassed (read_passed itemPassed) (mem_of_passed passed.2)
  refine ⟨cell, running, disciplined.held cell running, value, list, read, ?_⟩
  unfold Instruction.run
  rw [run_bind, run_addOutput list read, started_lists]
  rfl

end Station

/-! ### Whole runs -/

/-- **A program that passes the checker keeps to the discipline of registers.** The program and all
messages that it comes to have no findings and use no fields in their expressions. Then a run over
any source, with any arguments and any settings, never ends for a register that was read before it was
written or written twice, nor for a loop with two rules. Every item that it adds goes to a list that
an enclosing loop of the same message made, and no list that was there before is changed. -/
theorem decode_disciplined (environment : Environment)
    (valid : (Linked.mk environment.program environment.types).Throughout Linked.Valid)
    (source : RunSource) (values : List Value) (machine : Machine) :
    (∀ failure after, (decodeWith environment source values).run machine =
        (.error failure, after) → ¬failure.fault.Breaks) ∧
      (∀ value after, (decodeWith environment source values).run machine = (.ok value, after) →
        ∀ cell < machine.lists.size, after.lists.get cell = machine.lists.get cell) ∧
      ∀ station, environment.Visits source values machine station → ∀ output item rest,
        station.block = .loopOutput output item :: rest →
          ∃ cell ∈ station.loops, cell < station.machine.lists.size ∧ ∃ value,
            station.frame.get output = .ok (.list cell) ∧ station.frame.get item = .ok value ∧
              (Instruction.run station.environment station.refer (.loopOutput output item)
                station.frame).run (station.started (.loopOutput output item)) =
                  (.ok station.frame, { station.started (.loopOutput output item) with
                    lists := station.machine.lists.modify cell fun items => items ++ [value] }) := by
  have checked : (Linked.mk environment.program environment.types).Throughout
      (Linked.Checked True) := fun other reaches => (valid other reaches).checked True
  have sober := checked.here.sober fun message names =>
    decodeMessage_sound environment.mode environment.config
      (environment.types.length + nestingLimit) environment.types message (checked.message names)
  have spares := environment.decode_sound checked.here.passes sober
    (source.open_calm environment.mode).harmless values machine
  refine ⟨fun failure after ran => (spares.error ran).2 trivial, fun value after ran cell within =>
    (spares.ok ran).1.same cell within List.not_mem_nil, ?_⟩
  rintro station ⟨view, start, -, same, -, -, starts, follows⟩ output item rest block
  rw [← same] at checked
  have disciplined : start.Disciplined True := starts.disciplined checked
  exact (disciplined.visits follows).addOutput block

/-- A program that reads a count and then as many bytes, one after the other. -/
def countedBytes : Environment where
  program :=
    { instructions := [.decodePrimitive .direct (.index 0) "u8",
        .loop .direct (some (.index 0)) none (.index 1)
          [.decodePrimitive .direct (.index 2) "u8", .loopOutput (.index 1) (.index 2)],
        .construct (.index 3) (.tuple [.index 0, .index 1])]
      registerCount := .int 4 }
  types := []
  mode := "blocking"
  config := {}

theorem countedBytes_parts : blockParts countedBytes.program.instructions =
    [.decodePrimitive .direct (.index 0) "u8",
      .loop .direct (some (.index 0)) none (.index 1)
        [.decodePrimitive .direct (.index 2) "u8", .loopOutput (.index 1) (.index 2)],
      .decodePrimitive .direct (.index 2) "u8", .loopOutput (.index 1) (.index 2),
      .construct (.index 3) (.tuple [.index 0, .index 1])] :=
  rfl

theorem countedBytes_valid :
    (Linked.mk countedBytes.program countedBytes.types).Throughout Linked.Valid := by
  refine .of_unlinked ⟨rfl, fun target expression member => ?_⟩ (Linked.not_names rfl)
  rw [countedBytes_parts] at member
  simp at member

/-- Two bytes after their count. -/
def twoBytes : Machine where
  streams := (Streams.openCursor {} [2, 7, 8]).2

/-- Both bytes are added to the list of the loop, and wherever one is added it is that list. -/
theorem decode_disciplined_of_countedBytes :
    (∀ station, countedBytes.Visits ⟨.cursor 0, false⟩ [] twoBytes station →
        ∀ output item rest, station.block = .loopOutput output item :: rest →
          ∃ cell ∈ station.loops, station.frame.get output = .ok (.list cell)) ∧
      (((decodeWith countedBytes ⟨.cursor 0, false⟩ []).run twoBytes).2.lists.get 0).map
        Value.toInteger? = [some 7, some 8] := by
  refine ⟨fun station visits output item rest block => ?_, by decide +kernel⟩
  obtain ⟨-, -, items⟩ :=
    decode_disciplined countedBytes countedBytes_valid ⟨.cursor 0, false⟩ [] twoBytes
  obtain ⟨cell, running, -, value, list, -⟩ := items station visits output item rest block
  exact ⟨cell, running, list⟩

end WireProgram
