/-
**The stations of a run.**

A run stands before an instruction of a block, in a frame and on a machine, inside of some loops of
the message that it decodes. From there it goes on to the next instruction, into a block of the
instruction, or into the message that the instruction refers to. The main definitions:

* `Station`, where a run stands;
* `Station.Opens`, how an instruction starts one of its blocks, once for every round of a loop;
* `Station.Follows`, one step of a run from a station to another one;
* `Station.rank` and `Station.Follows.decreases`, what every step uses up;
* `Environment.Visits`, the stations of a whole run.
-/

import WireProgram.Proofs.Reach

namespace WireProgram

/-- Where a run stands: before the first instruction of what is left of a block. -/
structure Station where
  environment : Environment
  /-- How deep references between messages may still nest. -/
  depth : Nat
  /-- The cells of the lists of the enclosing loops of the message, innermost first. -/
  loops : List Nat
  block : List Instruction
  index : Nat
  frame : Frame
  machine : Machine

namespace Station

/-- How a message that the program refers to is decoded. -/
def refer (station : Station) : Referral :=
  decodeMessage station.environment.types station.environment.mode station.environment.config
    station.depth

/-- The machine on which an instruction runs: its start is recorded. -/
def started (station : Station) (instruction : Instruction) : Machine :=
  ((Step.record station.environment.config "exec" station.frame.depth instruction.label
    station.environment.mode).run station.machine).2

/-- One run of the body of a loop. -/
def round (station : Station) (body : List Instruction) (frame : Frame) : Step Unit :=
  discard (runBlock station.environment station.refer body 0 frame)

/-- A block inside of the instruction that a run stands before. -/
structure Entry where
  /-- The cells of the lists of the loops that the block is inside of, beyond those around it. -/
  loops : List Nat
  block : List Instruction
  frame : Frame
  machine : Machine

/-- The station at the start of a block inside. -/
def enter (station : Station) (entry : Entry) : Station :=
  { station with
    loops := entry.loops ++ station.loops
    block := entry.block
    index := 0
    frame := entry.frame
    machine := entry.machine }

/-- The machines on which the rounds of a loop start. The loop goes on from a machine to another one
by its test, and by a whole round before the next test. -/
inductive Rounds (test : Machine → Machine → Prop) (body : Step Unit) (start : Machine) :
    Machine → Prop
  | first {machine : Machine} (tested : test start machine) : Rounds test body start machine
  | next {before after machine : Machine} (rounds : Rounds test body start before)
    (ran : body.run before = (.ok (), after)) (tested : test after machine) :
    Rounds test body start machine

/-- How an instruction starts a block inside of it. A loop makes its list before the first round and
starts its body in a frame of its own in every round. -/
inductive Opens (station : Station) : Instruction → Entry → Prop
  | prelude {condition newStream : Register} {prelude : List Instruction} {stream : Target}
    {transform : Transform} {arguments : List Register} {view : View} {machine : Machine}
    (target : station.frame.target stream = .ok view)
    (holds : (conditionHolds station.frame condition).run
      (station.started (.conditionalWrapStream condition prelude stream newStream transform
        arguments)) = (.ok true, machine)) :
    Opens station (.conditionalWrapStream condition prelude stream newStream transform arguments)
      ⟨[], prelude, station.frame.child none [], machine⟩
  | conditional {target interior condition : Register} {body : List Instruction}
    {machine : Machine}
    (holds : (conditionHolds station.frame condition).run
      (station.started (.conditional target interior condition body)) = (.ok true, machine)) :
    Opens station (.conditional target interior condition body)
      ⟨[], body, station.frame.child none [], machine⟩
  | counted {target : Target} {stop output : Register} {body : List Instruction} {count cell : Nat}
    {frame : Frame} {before listed machine : Machine}
    (counts : (countIn station.frame "loop count" stop).run
      (station.started (.loop target (some stop) none output body)) = (.ok count, before))
    (lists : newList.run before = (.ok (.list cell), listed))
    (written : station.frame.set output (.list cell) = .ok frame)
    {done : Nat} (within : done < count)
    (ran : (repeatBody (station.round body (frame.child none [])) done).run listed =
      (.ok (), machine)) :
    Opens station (.loop target (some stop) none output body)
      ⟨[cell], body, frame.child none [], machine⟩
  | terminated {target : Target} {terminator output : Register} {body : List Instruction}
    {view : View} {value : Value} {ending : Bytes} {cell : Nat} {frame : Frame}
    {listed machine : Machine}
    (targeted : station.frame.target target = .ok view)
    (read : station.frame.get terminator = .ok value)
    (ends : value.toBytes
      (station.started (.loop target none (some terminator) output body)).lists
      (view.weight (station.started (.loop target none (some terminator) output body)).streams + 1)
        = .ok ending)
    (lists : newList.run (station.started (.loop target none (some terminator) output body)) =
      (.ok (.list cell), listed))
    (written : station.frame.set output (.list cell) = .ok frame)
    (rounds : Rounds
      (fun before after => ∃ peeked, (Step.onStreams (view.fillBuf ending.length)).run before =
        (.ok peeked, after) ∧ peeked.isEmpty = false ∧ peeked.take ending.length ≠ ending)
      (withProgress view (station.round body (frame.child none []))) listed machine) :
    Opens station (.loop target none (some terminator) output body)
      ⟨[cell], body, frame.child none [], machine⟩
  | throughout {target : Target} {output : Register} {body : List Instruction} {view cursor : View}
    {content : Bytes} {cell : Nat} {frame : Frame} {drained opened listed machine : Machine}
    (targeted : station.frame.target target = .ok view)
    (read : (Step.onStreams view.readToEnd).run
      (station.started (.loop target none none output body)) = (.ok content, drained))
    (opens : (Step.onStreams (openedBy fun streams => streams.openCursor content)).run drained =
      (.ok cursor, opened))
    (lists : newList.run opened = (.ok (.list cell), listed))
    (written : station.frame.set output (.list cell) = .ok frame)
    (rounds : Rounds
      (fun before after => cursor.atEnd before.streams = false ∧ after = before)
      (withProgress cursor (station.round body (cursorFrame frame target cursor))) listed machine) :
    Opens station (.loop target none none output body)
      ⟨[cell], body, cursorFrame frame target cursor, machine⟩

/-- A station at the start of a program that runs over a view. -/
def Starts (station : Station) (view : View) (values : List Value) : Prop :=
  ∃ frame, bindArguments station.environment.program values = .ok frame ∧
    station.frame = frame.bindReader view ∧ station.loops = [] ∧ station.index = 0 ∧
    station.block = station.environment.program.instructions

/-- A program starts at one station only. -/
theorem Starts.unique {station other : Station} {view : View} {values : List Value}
    (starts : station.Starts view values) (again : other.Starts view values)
    (environment : other.environment = station.environment) (depth : other.depth = station.depth)
    (machine : other.machine = station.machine) : other = station := by
  obtain ⟨frame, bound, same, loops, index, block⟩ := starts
  obtain ⟨frame', bound', same', loops', index', block'⟩ := again
  rw [environment] at bound' block'
  cases bound.symm.trans bound'
  cases station
  cases other
  simp_all only

/-- One step of a run. -/
inductive Follows (station : Station) : Station → Prop
  /-- To the next instruction of the block. -/
  | later {instruction : Instruction} {rest : List Instruction} {frame : Frame} {machine : Machine}
    (block : station.block = instruction :: rest)
    (ran : (instruction.run station.environment station.refer station.frame).run
      (station.started instruction) = (.ok frame, machine)) :
    Follows station
      { station with block := rest, index := station.index + 1, frame := frame, machine := machine }
  /-- Into a block of the instruction. -/
  | inside {instruction : Instruction} {rest : List Instruction} {entry : Entry}
    (block : station.block = instruction :: rest) (opens : station.Opens instruction entry) :
    Follows station (station.enter entry)
  /-- Into the message that the instruction refers to. -/
  | message {target : Target} {data : Register} {name : Json} {arguments : List Register}
    {rest : List Instruction} {view : View} {entry : TypeEntry} {values : List Value}
    {message : MessageType} {next : Station}
    (block : station.block = .decodeReference target data name arguments :: rest)
    (targeted : station.frame.target target = .ok view)
    (required : station.environment.types.require name = .ok entry)
    (read : station.frame.getMany arguments = .ok values)
    (entered : entry.inPlace = .ok message)
    (depth : station.depth = next.depth + 1)
    (environment : next.environment = ⟨message.program, message.visible station.environment.types,
      station.environment.mode, station.environment.config⟩)
    (machine : next.machine = station.started (.decodeReference target data name arguments))
    (starts : next.Starts view values) :
    Follows station next

/-- An instruction that refers to a message comes to one start of it only. -/
theorem Follows.message_unique {station first second : Station} {target : Target} {data : Register}
    {name : Json} {arguments : List Register} {rest : List Instruction}
    (block : station.block = .decodeReference target data name arguments :: rest)
    (follows : station.Follows first) (again : station.Follows second) (start : first.index = 0)
    (start' : second.index = 0) : second = first := by
  cases follows with
  | later => cases start
  | inside same opens =>
    cases block.symm.trans same
    cases opens
  | message same targeted required read entered depth environment machine starts =>
    cases block.symm.trans same
    cases again with
    | later => cases start'
    | inside same' opens =>
      cases block.symm.trans same'
      cases opens
    | message same' targeted' required' read' entered' depth' environment' machine' starts' =>
      cases block.symm.trans same'
      cases targeted.symm.trans targeted'
      cases required.symm.trans required'
      cases read.symm.trans read'
      cases entered.symm.trans entered'
      exact starts.unique starts' (environment'.trans environment.symm)
        (Nat.succ.inj (depth'.symm.trans depth)) (machine'.trans machine.symm)

/-- What every step of a run uses up: references, and then the instructions of the block. -/
def rank (station : Station) : Nat × Nat :=
  (station.depth, (blockParts station.block).length)

theorem Opens.shorter {station : Station} {instruction : Instruction} {entry : Entry}
    (opens : station.Opens instruction entry) :
    (blockParts entry.block).length < instruction.parts.length := by
  cases opens <;> exact Nat.lt_succ_self _

/-- Ranks go down to an end. -/
theorem ranked : WellFounded fun next station : Station =>
    Prod.Lex (· < ·) (· < ·) next.rank station.rank :=
  InvImage.wf rank (Prod.lex Nat.lt_wfRel Nat.lt_wfRel).wf

/-- **Every step** goes to a message with fewer references left, or to a shorter block. -/
theorem Follows.decreases {station next : Station} (follows : station.Follows next) :
    Prod.Lex (· < ·) (· < ·) next.rank station.rank := by
  cases follows with
  | @later instruction rest frame machine block ran =>
    refine .right station.depth ?_
    rw [block]
    show (blockParts rest).length < (instruction.parts ++ blockParts rest).length
    rw [List.length_append]
    have here := List.length_pos_of_mem (Instruction.mem_parts instruction)
    omega
  | @inside instruction rest entry block opens =>
    refine .right station.depth ?_
    rw [block]
    show (blockParts entry.block).length < (instruction.parts ++ blockParts rest).length
    rw [List.length_append]
    exact Nat.lt_of_lt_of_le opens.shorter (Nat.le_add_right _ _)
  | message block targeted required read entered depth environment machine starts =>
    exact .left _ _ (depth ▸ Nat.lt_succ_self _)

end Station

/-- A station that a run of a program over a source comes to, from a machine on. -/
def Environment.Visits (environment : Environment) (source : RunSource) (values : List Value)
    (machine : Machine) (station : Station) : Prop :=
  ∃ (view : View) (start : Station), source.open? environment.mode = .ok view ∧
    start.environment = environment ∧ start.depth = environment.types.length + nestingLimit ∧
    start.machine = machine ∧ start.Starts view values ∧
    Relation.ReflTransGen Station.Follows start station

end WireProgram
