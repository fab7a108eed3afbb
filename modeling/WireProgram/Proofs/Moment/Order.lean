/-
**The order in which a run executes its instructions.**

A run is a tree of moments. From the moment before an instruction it comes to the blocks that the
instruction runs, a loop giving one for every round, or to the message that the instruction refers
to, and after these to the next instruction of the block. The order of execution goes through the
tree from the top, each moment before those that it leads to. The main definitions and statements:

* `Cycle` and `Station.prepare`, a loop before its first round, and `run_loop`, what a loop is;
* `turns`, the machines on which the rounds of a loop start, in order;
* `Moment` and `Moment.children`, where a moment leads to, in order;
* `Moment.executed`, the moments of a run in the order of execution;
* `Environment.executed`, those of a whole run.
-/

import WireProgram.Proofs.Address

namespace WireProgram

/-- Computations that do not touch the machine, one after the other. -/
theorem Step.ofExcept_bind {α β : Type} (first : Except Fault α) (next : α → Except Fault β) :
    Step.ofExcept (first >>= next) =
      Step.ofExcept first >>= fun value => Step.ofExcept (next value) := by
  cases first <;> rfl

/-! ### Loops, round by round -/

/-- Runs a round as often as a test holds, and something else when no rounds are left. -/
def takeTurns (test : Step Bool) (round spent : Step Unit) : (bound : Nat) → Step Unit
  | 0 => spent
  | bound + 1 => do
    if ← test then
      round
      takeTurns test round spent bound

/-- The machines on which the rounds of a loop start, in order. The last round may fail. -/
def turns (test : Step Bool) (round : Step Unit) : (bound : Nat) → Machine → List Machine
  | 0, _ => []
  | bound + 1, machine =>
    match test.run machine with
    | (.ok true, tested) =>
      tested :: match round.run tested with
        | (.ok (), after) => turns test round bound after
        | (.error _, _) => []
    | _ => []

theorem repeatBody_eq_takeTurns (body : Step Unit) (count : Nat) :
    repeatBody body count = takeTurns (pure true) body (pure ()) count := by
  induction count with
  | zero => rfl
  | succ count hypothesis =>
    rw [repeatBody, takeTurns, hypothesis, pure_bind]
    rfl

theorem repeatWhile_eq_takeTurns (test : Step Bool) (body : Step Unit) (fuel : Nat) :
    repeatWhile test body fuel = takeTurns test body (throw ⟨.misuse .boundExceeded, []⟩) fuel := by
  induction fuel with
  | zero => rfl
  | succ fuel hypothesis =>
    rw [repeatWhile, takeTurns, hypothesis]

/-- **A round of a loop** starts after a test that held, and after so many whole rounds. -/
theorem mem_turns {test : Step Bool} {round : Step Unit} {bound : Nat} {start machine : Machine}
    (member : machine ∈ turns test round bound start) : ∃ done < bound, ∃ before,
      laps test round done start = some before ∧ test.run before = (.ok true, machine) := by
  induction bound generalizing start with
  | zero => cases member
  | succ bound hypothesis =>
    rw [turns] at member
    split at member
    · rename_i tested holds
      rcases List.mem_cons.mp member with rfl | member
      · exact ⟨0, Nat.succ_pos _, start, rfl, holds⟩
      · split at member
        · rename_i after ran
          obtain ⟨done, within, before, lapped, held⟩ := hypothesis member
          refine ⟨done + 1, Nat.succ_lt_succ within, before, ?_, held⟩
          simp only [laps, holds, ran]
          exact lapped
        · cases member
    · cases member

/-- Rounds without a test, all of them whole. -/
theorem repeatBody_of_laps {round : Step Unit} {done : Nat} {start machine : Machine}
    (lapped : laps (pure true) round done start = some machine) :
    (repeatBody round done).run start = (.ok (), machine) := by
  induction done generalizing start with
  | zero =>
    cases lapped
    rfl
  | succ done hypothesis =>
    obtain ⟨tested, ended, holds, ran, others⟩ := laps_succ lapped
    cases holds
    rw [repeatBody, run_bind_ok ran]
    exact hypothesis others

/-- Whole rounds and one more test lead to a round. -/
theorem Station.Rests.laps {tests : Machine → Machine → Prop} {test : Step Bool}
    {round : Step Unit} {start first before : Machine} {done : Nat}
    (rests : Station.Rests tests round start first)
    (holds : ∀ before after, test.run before = (.ok true, after) → tests before after)
    (lapped : WireProgram.laps test round done first = some before) :
    Station.Rests tests round start before := by
  induction done generalizing first with
  | zero =>
    cases lapped
    exact rests
  | succ done hypothesis =>
    obtain ⟨tested, ended, held, ran, others⟩ := laps_succ lapped
    exact hypothesis (.inr ⟨tested, rests.round (holds _ _ held), ran⟩) others

/-- A loop before its first round. -/
structure Cycle where
  /-- The cell of the list of the loop. -/
  cell : Nat
  /-- The frame after the loop, in which the list is written. -/
  frame : Frame
  /-- The frame in which every round starts. -/
  inner : Frame
  test : Step Bool
  round : Step Unit
  /-- So many rounds are run at most, -/
  bound : Nat
  /-- and then this. -/
  spent : Step Unit

/-- The rounds of a loop. -/
def Cycle.run (cycle : Cycle) : Step Frame := do
  takeTurns cycle.test cycle.round cycle.spent cycle.bound
  return cycle.frame

/-- The start of a program in a frame with its arguments and its stream. -/
def Environment.start (environment : Environment) (depth : Nat) (frame : Frame)
    (machine : Machine) : Station where
  environment := environment
  depth := depth
  loops := []
  block := environment.program.instructions
  index := 0
  frame := frame
  machine := machine

namespace Station

variable (station : Station)

/-- What a loop does before its first round. -/
def prepare (target : Target) (output : Register) (body : List Instruction) :
    (stop terminator : Option Register) → Step Cycle
  | some _, some _ => throw ⟨.program .twoLoopRules, []⟩
  | some stop, none => do
    let count ← countIn station.frame "loop count" stop
    let cell ← Step.look fun machine => machine.lists.size
    let list ← newList
    let frame ← Step.ofExcept (station.frame.set output list)
    return {
      cell := cell
      frame := frame
      inner := frame.child none []
      test := pure true
      round := station.round body (frame.child none [])
      bound := count
      spent := pure () }
  | none, some terminator => do
    let view ← Step.ofExcept (station.frame.target target)
    let value ← Step.ofExcept (station.frame.get terminator)
    let lists ← Step.look Machine.lists
    let bound ← Step.look fun machine => view.weight machine.streams
    let ending ← Step.ofExcept (value.toBytes lists (bound + 1))
    if ending.isEmpty then throw ⟨.program .emptyTerminator, []⟩
    let cell ← Step.look fun machine => machine.lists.size
    let list ← newList
    let frame ← Step.ofExcept (station.frame.set output list)
    return {
      cell := cell
      frame := frame
      inner := frame.child none []
      test := view.goesOn ending
      round := withProgress view (station.round body (frame.child none []))
      bound := bound + 1
      spent := throw ⟨.misuse .boundExceeded, []⟩ }
  | none, none => do
    let view ← Step.ofExcept (station.frame.target target)
    let content ← Step.onStreams view.readToEnd
    let cursor ← Step.onStreams (openedBy fun streams => streams.openCursor content)
    let cell ← Step.look fun machine => machine.lists.size
    let list ← newList
    let frame ← Step.ofExcept (station.frame.set output list)
    return {
      cell := cell
      frame := frame
      inner := cursorFrame frame target cursor
      test := cursor.hasMore
      round := withProgress cursor (station.round body (cursorFrame frame target cursor))
      bound := content.length + 1
      spent := throw ⟨.misuse .boundExceeded, []⟩ }

/-- **A loop prepares its rounds and runs them.** -/
theorem run_loop (target : Target) (stop terminator : Option Register) (output : Register)
    (body : List Instruction) :
    (Instruction.loop target stop terminator output body).run station.environment station.refer
        station.frame =
      station.prepare target output body stop terminator >>= Cycle.run := by
  cases stop with
  | some stop =>
    cases terminator with
    | some terminator => rfl
    | none =>
      unfold Instruction.run prepare
      simp only [bind_assoc, pure_bind, Cycle.run, repeatBody_eq_takeTurns]
      rfl
  | none =>
    cases terminator with
    | some terminator =>
      unfold Instruction.run prepare
      simp only [bind_assoc, untilTerminator_eq, repeatWhile_eq_takeTurns]
      refine congrArg _ (funext fun view => congrArg _ (funext fun value => congrArg _
        (funext fun lists => congrArg _ (funext fun bound => congrArg _ (funext fun ending => ?_)))))
      by_cases empty : ending.isEmpty = true
      · rw [if_pos empty, if_pos empty]
        rfl
      · rw [if_neg empty, if_neg empty]
        simp only [bind_assoc]
        rfl
    | none =>
      unfold Instruction.run prepare
      simp only [bind_assoc, pure_bind, Cycle.run, throughCursor_eq, repeatWhile_eq_takeTurns]
      rfl

/-- A computation that gives a value at the head of a sequence that does. -/
theorem computed_eq_ok {α β : Type} {result : Except Fault α} {next : α → Step β} {value : β}
    {before after : Machine} (ran : (Step.ofExcept result >>= next).run before = (.ok value, after)) :
    ∃ found, result = .ok found ∧ (next found).run before = (.ok value, after) := by
  cases result with
  | ok found => exact ⟨found, rfl, ran⟩
  | error fault => cases ran

/-- What a loop has come to before its first round: it has its list, which its frame holds. -/
inductive Prepares (station : Station) (target : Target) (output : Register)
    (body : List Instruction) : (stop terminator : Option Register) → Cycle → Machine → Prop
  | counted {stop : Register} {count cell : Nat} {frame : Frame} {before listed : Machine}
    (counts : (countIn station.frame "loop count" stop).run
      (station.started (.loop target (some stop) none output body)) = (.ok count, before))
    (lists : newList.run before = (.ok (.list cell), listed))
    (written : station.frame.set output (.list cell) = .ok frame) :
    Prepares station target output body (some stop) none
      ⟨cell, frame, frame.child none [], pure true, station.round body (frame.child none []), count,
        pure ()⟩ listed
  | terminated {terminator : Register} {view : View} {value : Value} {ending : Bytes} {cell : Nat}
    {frame : Frame} {listed : Machine} (targeted : station.frame.target target = .ok view)
    (read : station.frame.get terminator = .ok value)
    (ends : value.toBytes
      (station.started (.loop target none (some terminator) output body)).lists
      (view.weight (station.started (.loop target none (some terminator) output body)).streams + 1)
        = .ok ending)
    (lists : newList.run (station.started (.loop target none (some terminator) output body)) =
      (.ok (.list cell), listed))
    (written : station.frame.set output (.list cell) = .ok frame) :
    Prepares station target output body none (some terminator)
      ⟨cell, frame, frame.child none [], view.goesOn ending,
        withProgress view (station.round body (frame.child none [])),
        view.weight (station.started (.loop target none (some terminator) output body)).streams + 1,
        throw ⟨.misuse .boundExceeded, []⟩⟩ listed
  | throughout {view cursor : View} {content : Bytes} {cell : Nat} {frame : Frame}
    {drained opened listed : Machine} (targeted : station.frame.target target = .ok view)
    (read : (Step.onStreams view.readToEnd).run
      (station.started (.loop target none none output body)) = (.ok content, drained))
    (opens : (Step.onStreams (openedBy fun streams => streams.openCursor content)).run drained =
      (.ok cursor, opened))
    (lists : newList.run opened = (.ok (.list cell), listed))
    (written : station.frame.set output (.list cell) = .ok frame) :
    Prepares station target output body none none
      ⟨cell, frame, cursorFrame frame target cursor, cursor.hasMore,
        withProgress cursor (station.round body (cursorFrame frame target cursor)),
        content.length + 1, throw ⟨.misuse .boundExceeded, []⟩⟩ listed

section Prepared

variable {station} {target : Target} {stop terminator : Option Register} {output : Register}
  {body : List Instruction} {cycle : Cycle} {listed : Machine}

/-- **A loop that is prepared** has its list in its frame. -/
theorem prepares_of_run (ran : (station.prepare target output body stop terminator).run
    (station.started (.loop target stop terminator output body)) = (.ok cycle, listed)) :
    station.Prepares target output body stop terminator cycle listed := by
  unfold prepare at ran
  cases stop with
  | some stop =>
    cases terminator with
    | some terminator => cases ran
    | none =>
      obtain ⟨count, counted, counts, ran⟩ := run_bind_eq_ok ran
      obtain ⟨cell, _, looked, ran⟩ := run_bind_eq_ok ran
      cases looked
      obtain ⟨list, listed, lists, ran⟩ := run_bind_eq_ok ran
      obtain ⟨frame, written, ran⟩ := computed_eq_ok ran
      cases ran
      cases lists
      exact .counted counts rfl written
  | none =>
    cases terminator with
    | some terminator =>
      obtain ⟨view, targeted, ran⟩ := computed_eq_ok ran
      obtain ⟨value, read, ran⟩ := computed_eq_ok ran
      obtain ⟨lists, _, looked, ran⟩ := run_bind_eq_ok ran
      cases looked
      obtain ⟨bound, _, looked, ran⟩ := run_bind_eq_ok ran
      cases looked
      obtain ⟨ending, ends, ran⟩ := computed_eq_ok ran
      split at ran
      · cases ran
      · obtain ⟨cell, _, looked, ran⟩ := run_bind_eq_ok ran
        cases looked
        obtain ⟨list, listed, lists, ran⟩ := run_bind_eq_ok ran
        obtain ⟨frame, written, ran⟩ := computed_eq_ok ran
        cases ran
        cases lists
        exact .terminated targeted read ends rfl written
    | none =>
      obtain ⟨view, targeted, ran⟩ := computed_eq_ok ran
      obtain ⟨content, drained, read, ran⟩ := run_bind_eq_ok ran
      obtain ⟨cursor, opened, opens, ran⟩ := run_bind_eq_ok ran
      obtain ⟨cell, _, looked, ran⟩ := run_bind_eq_ok ran
      cases looked
      obtain ⟨list, listed, lists, ran⟩ := run_bind_eq_ok ran
      obtain ⟨frame, written, ran⟩ := computed_eq_ok ran
      cases ran
      cases lists
      exact .throughout targeted read opens rfl written

theorem Prepares.written
    (prepares : station.Prepares target output body stop terminator cycle listed) :
    station.frame.set output (.list cycle.cell) = .ok cycle.frame := by
  cases prepares <;> assumption

/-- Every round of a loop that is prepared opens its body. -/
theorem Prepares.opens (prepares : station.Prepares target output body stop terminator cycle listed)
    {machine : Machine} (member : machine ∈ turns cycle.test cycle.round cycle.bound listed) :
    station.Opens (.loop target stop terminator output body)
      ⟨[cycle.cell], body, cycle.inner, machine⟩ := by
  obtain ⟨done, within, before, lapped, held⟩ := mem_turns member
  cases prepares with
  | counted counts lists written =>
    cases held
    exact .counted counts lists written within (repeatBody_of_laps lapped)
  | @terminated terminator view value ending cell frame listed targeted read ends lists written =>
    have holds : ∀ before after, (view.goesOn ending).run before = (.ok true, after) →
        ∃ peeked, (Step.onStreams (view.fillBuf ending.length)).run before =
          (.ok peeked, after) ∧ peeked.isEmpty = false ∧ peeked.take ending.length ≠ ending :=
      fun _ _ => View.peeked_of_goesOn
    exact .terminated targeted read ends lists written
      ((Rests.laps (.inl rfl) holds lapped).round (holds _ _ held))
  | @throughout view cursor content cell frame drained opened listed targeted read opens lists
      written =>
    have holds : ∀ before after, cursor.hasMore.run before = (.ok true, after) →
        cursor.atEnd before.streams = false ∧ after = before := by
      intro before after ran
      obtain ⟨more, same⟩ := Prod.mk.inj ran
      exact ⟨Bool.not_eq_true' _ |>.mp (Except.ok.inj more), same.symm⟩
    exact .throughout targeted read opens lists written
      ((Rests.laps (.inl rfl) holds lapped).round (holds _ _ held))

end Prepared

/-! ### What an instruction comes to -/

/-- The blocks that an instruction runs, in order, each as it starts. -/
def entries (instruction : Instruction) : List Entry :=
  match instruction with
  | .conditionalWrapStream condition prelude stream _ _ _ =>
    match station.frame.target stream,
        (conditionHolds station.frame condition).run (station.started instruction) with
    | .ok _, (.ok true, machine) => [⟨[], prelude, station.frame.child none [], machine⟩]
    | _, _ => []
  | .conditional _ _ condition body =>
    match (conditionHolds station.frame condition).run (station.started instruction) with
    | (.ok true, machine) => [⟨[], body, station.frame.child none [], machine⟩]
    | _ => []
  | .loop target stop terminator output body =>
    match (station.prepare target output body stop terminator).run
        (station.started instruction) with
    | (.ok cycle, listed) =>
      (turns cycle.test cycle.round cycle.bound listed).map fun machine =>
        ⟨[cycle.cell], body, cycle.inner, machine⟩
    | _ => []
  | _ => []

/-- What a reference decodes: a view, the message and its arguments. -/
def reference (target : Target) (name : Json) (arguments : List Register) :
    Except Fault (View × MessageType × List Value) := do
  let view ← station.frame.target target
  let entry ← station.environment.types.require name
  let values ← station.frame.getMany arguments
  let message ← entry.inPlace
  return (view, message, values)

/-- How a message that is referred to is decoded: with the settings of the caller. -/
def calling (message : MessageType) : Environment where
  program := message.program
  types := message.visible station.environment.types
  mode := station.environment.mode
  config := station.environment.config

/-- The message that an instruction refers to, as it starts. -/
def message? (instruction : Instruction) : Option Station :=
  match instruction with
  | .decodeReference target _ name arguments =>
    match station.depth, station.reference target name arguments with
    | depth + 1, .ok (view, message, values) =>
      (bindArguments message.program values).toOption.map fun frame =>
        (station.calling message).start depth (frame.bindReader view) (station.started instruction)
    | _, _ => none
  | _ => none

/-- **A reference decodes a message and writes what it gives.** -/
theorem run_reference (target : Target) (data : Register) (name : Json)
    (arguments : List Register) :
    (Instruction.decodeReference target data name arguments).run station.environment station.refer
        station.frame =
      Step.ofExcept (station.reference target name arguments) >>= fun found =>
        station.refer found.2.1 found.1 found.2.2 >>= fun value =>
          Step.ofExcept (station.frame.set data value) := by
  unfold Instruction.run reference
  simp only [Step.ofExcept_bind, bind_assoc]
  rfl

/-- The station before the next instruction of the block, if this one completes. -/
def next? (instruction : Instruction) (rest : List Instruction) : Option Station :=
  match (instruction.run station.environment station.refer station.frame).run
      (station.started instruction) with
  | (.ok frame, machine) => some { station with
      block := rest
      index := station.index + 1
      frame := frame
      machine := machine }
  | (.error _, _) => none

/-- The instruction that a station stands before, as failures and the trace call it. -/
def label : String :=
  (station.block.head?.map Instruction.label).getD ""

/-- The place of the instruction that a station stands before. -/
def site : Site :=
  ⟨station.index, station.label⟩

variable {station} {instruction : Instruction} {rest : List Instruction}

theorem label_eq (block : station.block = instruction :: rest) :
    station.label = instruction.label := by
  unfold label
  rw [block]
  rfl

theorem site_eq (block : station.block = instruction :: rest) :
    station.site = ⟨station.index, instruction.label⟩ :=
  congrArg (Site.mk station.index) (label_eq block)

/-- Every block that an instruction runs is one that it opens. -/
theorem opens_of_mem_entries {entry : Entry} (member : entry ∈ station.entries instruction) :
    station.Opens instruction entry := by
  unfold entries at member
  split at member
  · split at member
    · rename_i target holds
      cases List.mem_singleton.mp member
      exact .prelude target holds
    · cases member
  · split at member
    · rename_i holds
      cases List.mem_singleton.mp member
      exact .conditional holds
    · cases member
  · split at member
    · rename_i ran
      obtain ⟨machine, round, rfl⟩ := List.mem_map.mp member
      exact (prepares_of_run ran).opens round
    · cases member
  · cases member

theorem reference_eq_ok {target : Target} {name : Json} {arguments : List Register} {view : View}
    {message : MessageType} {values : List Value}
    (same : station.reference target name arguments = .ok (view, message, values)) :
    ∃ entry, station.frame.target target = .ok view ∧
      station.environment.types.require name = .ok entry ∧
      station.frame.getMany arguments = .ok values ∧ entry.inPlace = .ok message := by
  obtain ⟨view', targeted, found⟩ := bind_eq_ok same
  obtain ⟨entry, required, found⟩ := bind_eq_ok found
  obtain ⟨values', read, found⟩ := bind_eq_ok found
  obtain ⟨message', entered, found⟩ := bind_eq_ok found
  cases found
  exact ⟨entry, targeted, required, read, entered⟩

/-- The message that an instruction refers to is the one that the run comes to. -/
theorem follows_of_message? {next : Station} (block : station.block = instruction :: rest)
    (same : station.message? instruction = some next) :
    station.Follows next ∧ next.index = 0 := by
  unfold message? at same
  split at same
  · split at same
    · rename_i depth view message values deep found
      obtain ⟨frame, bound, rfl⟩ := Option.map_eq_some_iff.mp same
      obtain ⟨entry, targeted, required, read, entered⟩ := reference_eq_ok found
      exact ⟨.message block targeted required read entered deep rfl rfl
        ⟨frame, eq_ok_of_toOption bound, rfl, rfl, rfl, rfl⟩, rfl⟩
    · cases same
  · cases same

theorem follows_of_next? {next : Station} (block : station.block = instruction :: rest)
    (same : station.next? instruction rest = some next) :
    station.Follows next ∧ next.index = station.index + 1 := by
  unfold next? at same
  split at same
  · rename_i ran
    cases same
    exact ⟨.later block ran, rfl⟩
  · cases same

/-- A run keeps its settings. -/
theorem Follows.config {next : Station} (follows : station.Follows next) :
    next.environment.config = station.environment.config := by
  cases follows with
  | later => rfl
  | inside => rfl
  | message block targeted required read entered depth environment => rw [environment]

end Station

/-! ### Moments -/

/-- A moment of a run: where it stands, and the frames in which the messages wait that refer to the one
it is in, innermost first. -/
structure Moment where
  station : Station
  waiting : List Frame

namespace Moment

/-- The starts of the blocks that an instruction runs, and of the message that it refers to. -/
def entered (moment : Moment) (instruction : Instruction) : List Moment :=
  (moment.station.entries instruction).map (fun entry =>
    ⟨moment.station.enter entry, moment.waiting⟩) ++
  (moment.station.message? instruction).toList.map fun next =>
    ⟨next, moment.station.frame :: moment.waiting⟩

/-- The moment before the next instruction, if this one completes. -/
def later (moment : Moment) (instruction : Instruction) (rest : List Instruction) : List Moment :=
  (moment.station.next? instruction rest).toList.map fun next => ⟨next, moment.waiting⟩

/-- Where a moment leads to, in order. -/
def children (moment : Moment) : List Moment :=
  match moment.station.block with
  | [] => []
  | instruction :: rest => moment.entered instruction ++ moment.later instruction rest

variable {moment next : Moment} {instruction : Instruction} {rest : List Instruction}

theorem mem_children (block : moment.station.block = instruction :: rest)
    (member : next ∈ moment.entered instruction ∨ next ∈ moment.later instruction rest) :
    next ∈ moment.children := by
  unfold children
  rw [block]
  exact List.mem_append.mpr member

section Entered

variable {target : Target} {machine : Machine}

/-- An instruction without a block or a message enters nothing. -/
theorem entered_immediate (immediate : instruction.isImmediate = true) :
    moment.entered instruction = [] := by
  cases instruction with
  | conditionalWrapStream | decodeReference | loop | conditional => cases immediate
  | _ => rfl

theorem entered_conditional {interior condition register : Register} {body : List Instruction}
    {holds : Bool}
    (ran : (conditionHolds moment.station.frame condition).run
      (moment.station.started (.conditional register interior condition body)) =
        (.ok holds, machine)) :
    moment.entered (.conditional register interior condition body) =
      if holds then [⟨moment.station.enter
        ⟨[], body, moment.station.frame.child none [], machine⟩, moment.waiting⟩] else [] := by
  simp only [entered, Station.entries, ran]
  cases holds <;> rfl

theorem entered_prelude {condition newStream : Register} {prelude : List Instruction}
    {transform : Transform} {arguments : List Register} {view : View} {holds : Bool}
    (targeted : moment.station.frame.target target = .ok view)
    (ran : (conditionHolds moment.station.frame condition).run (moment.station.started
      (.conditionalWrapStream condition prelude target newStream transform arguments)) =
        (.ok holds, machine)) :
    moment.entered (.conditionalWrapStream condition prelude target newStream transform arguments) =
      if holds then [⟨moment.station.enter
        ⟨[], prelude, moment.station.frame.child none [], machine⟩, moment.waiting⟩] else [] := by
  simp only [entered, Station.entries, targeted, ran]
  cases holds <;> rfl

theorem entered_loop {stop terminator : Option Register} {output : Register}
    {body : List Instruction} {cycle : Cycle}
    (ran : (moment.station.prepare target output body stop terminator).run
      (moment.station.started (.loop target stop terminator output body)) = (.ok cycle, machine)) :
    moment.entered (.loop target stop terminator output body) =
      (turns cycle.test cycle.round cycle.bound machine).map fun machine =>
        ⟨moment.station.enter ⟨[cycle.cell], body, cycle.inner, machine⟩, moment.waiting⟩ := by
  simp only [entered, Station.entries, ran]
  exact (List.append_nil _).trans (List.map_map ..)

theorem entered_reference {data : Register} {name : Json} {arguments : List Register} {view : View}
    {message : MessageType} {values : List Value} {frame : Frame} {depth : Nat}
    (found : moment.station.reference target name arguments = .ok (view, message, values))
    (deep : moment.station.depth = depth + 1)
    (bound : bindArguments message.program values = .ok frame) :
    moment.entered (.decodeReference target data name arguments) =
      [⟨(moment.station.calling message).start depth (frame.bindReader view)
        (moment.station.started (.decodeReference target data name arguments)),
          moment.station.frame :: moment.waiting⟩] := by
  simp only [entered, Station.entries, Station.message?, found, deep, bound]
  rfl

/-! An instruction that fails before its blocks and messages enters none of them. -/

section Failed

variable {failure : Failure} {fault : Fault} {data condition newStream interior register : Register}
  {body : List Instruction} {arguments : List Register} {transform : Transform} {name : Json}

theorem entered_conditional_failed (ran : (conditionHolds moment.station.frame condition).run
    (moment.station.started (.conditional register interior condition body)) =
      (.error failure, machine)) :
    moment.entered (.conditional register interior condition body) = [] := by
  simp only [entered, Station.entries, ran]
  rfl

theorem entered_prelude_untargeted (failed : moment.station.frame.target target = .error fault) :
    moment.entered (.conditionalWrapStream condition body target newStream transform arguments) =
      [] := by
  simp only [entered, Station.entries, failed]
  rfl

theorem entered_prelude_failed {view : View}
    (targeted : moment.station.frame.target target = .ok view)
    (ran : (conditionHolds moment.station.frame condition).run (moment.station.started
      (.conditionalWrapStream condition body target newStream transform arguments)) =
        (.error failure, machine)) :
    moment.entered (.conditionalWrapStream condition body target newStream transform arguments) =
      [] := by
  simp only [entered, Station.entries, targeted, ran]
  rfl

theorem entered_loop_failed {stop terminator : Option Register} {output : Register}
    (ran : (moment.station.prepare target output body stop terminator).run
      (moment.station.started (.loop target stop terminator output body)) =
        (.error failure, machine)) :
    moment.entered (.loop target stop terminator output body) = [] := by
  simp only [entered, Station.entries, ran]
  rfl

theorem entered_reference_unfound
    (failed : moment.station.reference target name arguments = .error fault) :
    moment.entered (.decodeReference target data name arguments) = [] := by
  simp only [entered, Station.entries, Station.message?, failed]
  cases moment.station.depth <;> rfl

theorem entered_reference_shallow (deep : moment.station.depth = 0) :
    moment.entered (.decodeReference target data name arguments) = [] := by
  simp only [entered, Station.entries, Station.message?, deep]
  rfl

theorem entered_reference_unbound {view : View} {message : MessageType} {values : List Value}
    {depth : Nat}
    (found : moment.station.reference target name arguments = .ok (view, message, values))
    (deep : moment.station.depth = depth + 1)
    (failed : bindArguments message.program values = .error fault) :
    moment.entered (.decodeReference target data name arguments) = [] := by
  simp only [entered, Station.entries, Station.message?, found, deep, failed]
  rfl

end Failed

end Entered

/-- What an instruction runs are the blocks and the message that a run of it enters. -/
theorem enters_of_mem_entered (block : moment.station.block = instruction :: rest)
    (member : next ∈ moment.entered instruction) : moment.station.Enters next.station := by
  rcases List.mem_append.mp member with member | member
  · obtain ⟨entry, inside, rfl⟩ := List.mem_map.mp member
    exact ⟨.inside block (Station.opens_of_mem_entries inside), rfl⟩
  · obtain ⟨start, inside, rfl⟩ := List.mem_map.mp member
    exact Station.follows_of_message? block (Option.mem_toList.mp inside)

theorem passes_of_mem_later (block : moment.station.block = instruction :: rest)
    (member : next ∈ moment.later instruction rest) : moment.station.Passes next.station := by
  obtain ⟨station, inside, rfl⟩ := List.mem_map.mp member
  exact Station.follows_of_next? block (Option.mem_toList.mp inside)

/-- **A moment leads to where a run goes on from it.** -/
theorem follows_of_mem_children (member : next ∈ moment.children) :
    moment.station.Follows next.station := by
  unfold children at member
  split at member
  · cases member
  · rename_i block
    rcases List.mem_append.mp member with member | member
    · exact (enters_of_mem_entered block member).1
    · exact (passes_of_mem_later block member).1

/-- **The moments of a run in the order of execution,** those at the end of a block left out. -/
def executed (moment : Moment) : List Moment :=
  if moment.station.block.isEmpty then []
  else moment :: moment.children.attach.flatMap fun next => executed next.1
termination_by moment.station.rank
decreasing_by exact (follows_of_mem_children next.2).decreases

theorem executed_nil (block : moment.station.block = []) : moment.executed = [] := by
  rw [executed, block]
  rfl

theorem executed_eq (block : moment.station.block ≠ []) :
    moment.executed = moment :: moment.children.flatMap executed := by
  rw [executed, if_neg fun empty => block (List.isEmpty_iff.mp empty)]
  simp only [List.flatMap, List.attach_map_val]

theorem mem_executed_self (block : moment.station.block ≠ []) : moment ∈ moment.executed :=
  executed_eq block ▸ List.mem_cons_self

theorem mem_executed_of_child (child : next ∈ moment.children) {last : Moment}
    (member : last ∈ next.executed) : last ∈ moment.executed := by
  have block : moment.station.block ≠ [] := by
    intro empty
    unfold children at child
    rw [empty] at child
    cases child
  rw [executed_eq block]
  exact List.mem_cons_of_mem _ (List.mem_flatMap.mpr ⟨next, child, member⟩)

/-- **An instruction comes before what it runs,** and that before the next instruction. -/
theorem executed_cons (block : moment.station.block = instruction :: rest) :
    moment.executed = moment :: ((moment.entered instruction).flatMap executed ++
      (moment.later instruction rest).flatMap executed) := by
  rw [executed_eq (block ▸ List.cons_ne_nil _ _)]
  unfold children
  rw [block]
  exact congrArg (moment :: ·) List.flatMap_append

/-- Every moment of a run is one that the run comes to, before an instruction. -/
theorem reached_of_mem_executed (member : next ∈ moment.executed) :
    Relation.ReflTransGen Station.Follows moment.station next.station ∧
      next.station.block ≠ [] := by
  induction moment using executed.induct with
  | case1 moment empty =>
    rw [executed_nil (List.isEmpty_iff.mp empty)] at member
    cases member
  | case2 moment filled hypothesis =>
    have block : moment.station.block ≠ [] := fun empty => filled (List.isEmpty_iff.mpr empty)
    rw [executed_eq block] at member
    rcases List.mem_cons.mp member with rfl | member
    · exact ⟨.refl, block⟩
    · obtain ⟨child, inside, member⟩ := List.mem_flatMap.mp member
      obtain ⟨reached, block⟩ := hypothesis ⟨child, inside⟩ member
      exact ⟨.head (follows_of_mem_children inside) reached, block⟩

end Moment

/-! ### Whole runs -/

/-- The station at which a run of a program over a source starts. -/
def Environment.start? (environment : Environment) (source : RunSource) (values : List Value)
    (machine : Machine) : Option Station :=
  match bindArguments environment.program values, source.open? environment.mode with
  | .ok frame, .ok view => some (environment.start (environment.types.length + nestingLimit)
      (frame.bindReader view) machine)
  | _, _ => none

/-- A run starts where its program does. -/
theorem Environment.starts_of_start? {environment : Environment} {source : RunSource}
    {values : List Value} {machine : Machine} {start : Station}
    (same : environment.start? source values machine = some start) :
    ∃ view, source.open? environment.mode = .ok view ∧ start.environment = environment ∧
      start.depth = environment.types.length + nestingLimit ∧ start.machine = machine ∧
      start.Starts view values := by
  unfold start? at same
  split at same
  · rename_i frame view bound opened
    cases same
    exact ⟨view, opened, rfl, rfl, rfl, frame, bound, rfl, rfl, rfl, rfl⟩
  · cases same

/-- **The moments of a whole run in the order of execution.** -/
def Environment.executed (environment : Environment) (source : RunSource) (values : List Value)
    (machine : Machine) : List Moment :=
  match environment.start? source values machine with
  | some start => Moment.executed ⟨start, []⟩
  | none => []

section Executed

variable {environment : Environment} {source : RunSource} {values : List Value} {fault : Fault}

theorem Environment.executed_eq {frame : Frame} {view : View}
    (bound : bindArguments environment.program values = .ok frame)
    (opened : source.open? environment.mode = .ok view) (machine : Machine) :
    environment.executed source values machine =
      Moment.executed ⟨environment.start (environment.types.length + nestingLimit)
        (frame.bindReader view) machine, []⟩ := by
  simp only [executed, start?, bound, opened]

theorem Environment.executed_unbound
    (failed : bindArguments environment.program values = .error fault) (machine : Machine) :
    environment.executed source values machine = [] := by
  simp only [executed, start?, failed]

theorem Environment.executed_unopened (failed : source.open? environment.mode = .error fault)
    (machine : Machine) : environment.executed source values machine = [] := by
  simp only [executed, start?, failed]
  cases bindArguments environment.program values <;> rfl

end Executed

/-- What a run executes are stations that it visits. -/
theorem Environment.visits_of_mem_executed {environment : Environment} {source : RunSource}
    {values : List Value} {machine : Machine} {moment : Moment}
    (member : moment ∈ environment.executed source values machine) :
    environment.Visits source values machine moment.station := by
  unfold executed at member
  split at member
  · rename_i start same
    obtain ⟨view, opened, environment, depth, machine, starts⟩ := starts_of_start? same
    exact ⟨view, start, opened, environment, depth, machine, starts,
      (Moment.reached_of_mem_executed member).1⟩
  · cases member

end WireProgram
