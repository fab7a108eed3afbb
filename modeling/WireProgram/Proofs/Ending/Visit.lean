/-
**The stations of a run under a regime.**

If a run keeps to a regime, then at every station of it the frame holds streams in order only, and one
step of the run keeps this up. If time passes on all streams, a loop that is begun at a station runs no
more rounds than its stream has bytes to give. The main definitions and statements:

* `Station.Under`, the invariant of the stations of a run under a regime, and `Station.Follows.under`,
  one step;
* `Station.Runs` and `Station.Begins.runs`, a loop that is begun at a station;
* `Station.Begins.pays`, the rounds of a loop and the bytes of its stream, and `Station.Passing`, the
  stations of a run in which time passes on every view.
-/

import WireProgram.Proofs.Ending.Loop

namespace WireProgram

/-- A regime under which one may peek for a terminator at any time. -/
def Regime.Peeks {γ : Type} (regime : Regime γ) : Prop :=
  ∀ {state view} {terminator : Bytes}, regime.fits state view → terminator ≠ [] →
    Keeps regime.contract (fun _ _ => True) (view.approach terminator) state

/-- A regime under which time passes on every view in order. -/
def Regime.Advances {γ : Type} (regime : Regime γ) : Prop :=
  ∀ {before after view}, regime.contract.later before after → regime.fits before view →
    view.Advances before.1 after.1

theorem Regime.passing_peeks : Regime.passing.Peeks :=
  fun fits filled => View.approach_keeps fits filled

theorem Regime.passing_advances : Regime.passing.Advances :=
  fun later fits => (later _ fits).2

namespace Station

variable {γ : Type} {regime : Regime γ} {record : γ} {station next : Station}
  {instruction : Instruction} {rest : List Instruction} {entry : Entry} {loop : Loop}

theorem started_streams (station : Station) (instruction : Instruction) :
    (station.started instruction).streams = station.machine.streams := by
  unfold started Step.record
  rw [Step.run_change]
  dsimp only
  split <;> rfl

/-! ### The invariant -/

/-- A station of a run under a regime: its frame holds streams in order, and from it references nest no
deeper than they may, unless the regime has an excuse for that. -/
structure Under (station : Station) (regime : Regime γ) (record : γ) : Prop where
  peeks : regime.Peeks
  admitted : (Linked.mk station.environment.program station.environment.types).Throughout
    (Linked.Admitted regime.wraps)
  shallow : regime.contract.tolerates (.misuse .nestingTooDeep) ∨
    (Linked.mk station.environment.program station.environment.types).Within station.depth
  inside : ∀ part ∈ blockParts station.block,
    part ∈ blockParts station.environment.program.instructions
  frames : regime.Frames (station.machine, record) station.frame

namespace Under

/-- The messages that a block refers to keep to the regime. -/
theorem admits (under : station.Under regime record) : ∀ part ∈ blockParts station.block,
    part.Admitted regime.wraps station.environment.types (station.refer.Obeys regime) := by
  intro part member
  refine under.admitted.here.refers (fun message names => ?_) part (under.inside part member)
  refine decodeMessage_regime regime _ _ (under.admitted.message names) ?_
  refine under.shallow.imp_right fun within => ?_
  cases depth : station.depth with
  | zero =>
    rw [depth] at within
    exact absurd names (within message)
  | succ less =>
    rw [depth] at within
    exact ⟨less, rfl, within message names⟩

/-- The start of an instruction changes no stream. -/
theorem later_started (station : Station) (instruction : Instruction) (record : γ) :
    regime.run.later (station.machine, record) (station.started instruction, record) := by
  refine ⟨?_, trivial⟩
  dsimp only
  rw [started_streams]
  exact regime.contract.refl _

theorem started (under : station.Under regime record) (instruction : Instruction) :
    regime.Frames (station.started instruction, record) station.frame :=
  under.frames.later (later_started station instruction record)

/-- A block inside of an instruction. -/
theorem enter (under : station.Under regime record) (block : station.block = instruction :: rest)
    (inside : ∀ part ∈ blockParts entry.block, part ∈ instruction.parts) {after : γ}
    (frames : regime.Frames (entry.machine, after) entry.frame) :
    (station.enter entry).Under regime after where
  peeks := under.peeks
  admitted := under.admitted
  shallow := under.shallow
  inside part member := by
    refine under.inside part ?_
    rw [block]
    exact List.mem_append_left _ (inside part member)
  frames := frames

/-- The body of a loop keeps to the regime wherever its frame holds streams in order. -/
theorem round (under : station.Under regime record) (block : station.block = instruction :: rest)
    {body : List Instruction} (inside : ∀ part ∈ blockParts body, part ∈ instruction.parts)
    {frame : Frame} {inner : Machine × γ} (frames : regime.Frames inner frame) :
    Keeps regime.run (fun _ _ => True) (station.round body frame) inner := by
  refine (runBlock_regime body 0 frame inner (fun part member => ?_) frames).discard
  refine under.admits part ?_
  rw [block]
  exact List.mem_append_left _ (inside part member)

end Under

/-! ### Loops -/

/-- A loop over a stream in order whose rounds and tests keep to a regime. -/
structure Runs (loop : Loop) (regime : Regime γ) (record : γ) : Prop where
  fits : regime.Fits (loop.start, record) loop.view
  tests : ∀ inner, regime.run.later (loop.start, record) inner →
    Keeps regime.run (fun _ _ => True) loop.test inner
  rounds : ∀ inner, regime.run.later (loop.start, record) inner →
    Keeps regime.run (fun _ _ => True) loop.round inner
  frames : ∀ inner, regime.run.later (loop.start, record) inner →
    regime.Frames inner (loop.entry inner.1).frame

/-- The test of a loop up to a terminator. -/
theorem goesOn_regime (peeks : regime.Peeks) {state : Machine × γ} {view : View} {terminator : Bytes}
    (fits : regime.Fits state view) (filled : terminator ≠ []) :
    Keeps regime.run (fun _ _ => True) (view.goesOn terminator) state := by
  refine (Keeps.onStreams (peeks fits filled)).bind fun approach _ _ _ => ?_
  cases approach <;> exact .pure trivial

/-- The test of a loop through a cursor. -/
theorem hasMore_regime (cursor : View) {state : Machine × γ} :
    Keeps regime.run (fun _ _ => True) cursor.hasMore state :=
  Leads.of_ok (Step.run_look _ _) ⟨state.2, regime.run.refl state, trivial⟩

/-- A loop that is begun at a station in order. -/
theorem Begins.runs (begins : station.Begins instruction loop) (under : station.Under regime record)
    (block : station.block = instruction :: rest) :
    ∃ after, regime.run.later (station.machine, record) (loop.start, after) ∧
      Runs loop regime after := by
  have frames := under.started instruction
  have begun : regime.run.later (station.machine, record) (station.started instruction, record) :=
    Under.later_started station instruction record
  cases begins with
  | @terminated target terminator output body view value ending cell frame listed targeted read ends
      filled lists written =>
    have inside : ∀ part ∈ blockParts body,
        part ∈ (Instruction.loop target none (some terminator) output body).parts :=
      fun part member => List.mem_cons_of_mem _ member
    have makes : Keeps regime.run (fun value _ => value.Inert) newList
        (station.started (.loop target none (some terminator) output body), record) :=
      Regime.newList
    obtain ⟨after, later, inert⟩ := makes.ok lists
    have framesOuter : regime.Frames (listed, after) frame :=
      (frames.later later).set written (Regime.Holds.of_inert inert)
    refine ⟨after, regime.run.trans begun later, (frames.later later).target targeted,
      fun inner more => ?_, fun inner more => ?_, fun inner more => ?_⟩
    · exact goesOn_regime under.peeks
        (regime.later more.1 ((frames.later later).target targeted)) filled
    · exact under.round block inside (framesOuter.later more).inner
    · exact (framesOuter.later more).inner
  | @throughout target output body view cursor content cell frame drained opened listed targeted read
      opens lists written =>
    have inside : ∀ part ∈ blockParts body,
        part ∈ (Instruction.loop target none none output body).parts :=
      fun part member => List.mem_cons_of_mem _ member
    have reads : Keeps regime.run (fun _ _ => True) (Step.onStreams view.readToEnd)
        (station.started (.loop target none none output body), record) :=
      Keeps.onStreams (regime.readToEnd (frames.target targeted))
    obtain ⟨recordDrained, toDrained, -⟩ := reads.ok read
    have cursors : Keeps regime.run (fun cursor after => regime.Fits after cursor ∧
        regime.enough (after.1.streams, after.2) cursor (content.length + 1))
        (Step.onStreams (openedBy fun streams => streams.openCursor content))
        (drained, recordDrained) := Keeps.onStreams (regime.openCursor content)
    obtain ⟨recordOpened, toOpened, fits, -⟩ := cursors.ok opens
    have makes : Keeps regime.run (fun value _ => value.Inert) newList (opened, recordOpened) :=
      Regime.newList
    obtain ⟨after, toListed, inert⟩ := makes.ok lists
    have toStart := regime.run.trans toDrained (regime.run.trans toOpened toListed)
    have framesOuter : regime.Frames (listed, after) frame :=
      (frames.later toStart).set written (Regime.Holds.of_inert inert)
    have fitsListed := regime.later toListed.1 fits
    refine ⟨after, regime.run.trans begun toStart, fitsListed, fun inner more => ?_,
      fun inner more => ?_, fun inner more => ?_⟩
    · exact hasMore_regime cursor
    · exact under.round block inside
        ((framesOuter.later more).cursorFrame target (regime.later more.1 fitsListed))
    · exact (framesOuter.later more).cursorFrame target (regime.later more.1 fitsListed)

/-- So many rounds of a loop. -/
theorem Runs.laps (runs : Runs loop regime record) {count : Nat} {after : Machine}
    (lapped : loop.after count = some after) :
    ∃ last, regime.run.later (loop.start, record) (after, last) := by
  have stalls : regime.contract.tolerates (.decode .stalledLoop) := regime.excuses _ id
  obtain ⟨last, later, -⟩ := @laps_keeps _ _ _ (loop.start, record) _ _ _ stalls runs.tests
    runs.rounds (fun _ _ => True) trivial (fun _ _ _ _ _ => trivial) _ _ lapped
  exact ⟨last, later⟩

theorem Begins.parts (begins : station.Begins instruction loop) (machine : Machine) :
    instruction.parts = instruction :: blockParts (loop.entry machine).block ∧
      (loop.entry machine).machine = machine := by
  cases begins <;> exact ⟨rfl, rfl⟩

/-- Rounds that are not counted, counted. -/
theorem Rounds.laps {tests : Machine → Machine → Prop} {test : Step Bool} {body : Step Unit}
    {start machine : Machine} (rounds : Rounds tests body start machine)
    (holds : ∀ before after, tests before after → test.run before = (.ok true, after)) :
    ∃ count before, WireProgram.laps test body count start = some before ∧
      test.run before = (.ok true, machine) := by
  induction rounds with
  | first tested => exact ⟨0, start, rfl, holds _ _ tested⟩
  | next rounds ran tested hypothesis =>
    obtain ⟨count, before, lapped, held⟩ := hypothesis
    exact ⟨count + 1, _, laps_concat lapped held ran, holds _ _ tested⟩

/-- There is a test before every round. -/
theorem Rounds.tested {tests : Machine → Machine → Prop} {body : Step Unit}
    {start machine : Machine} (rounds : Rounds tests body start machine) :
    ∃ before, tests before machine := by
  cases rounds with
  | first tested => exact ⟨_, tested⟩
  | next _ _ tested => exact ⟨_, tested⟩

/-- A block that a loop opens is one of its rounds. -/
theorem Opens.begun {target : Target} {terminator : Option Register} {output : Register}
    {body : List Instruction}
    (opens : station.Opens (.loop target none terminator output body) entry) :
    ∃ loop, station.Begins (.loop target none terminator output body) loop ∧
      entry = loop.entry entry.machine ∧ ∃ count before, loop.after count = some before ∧
        loop.test.run before = (.ok true, entry.machine) := by
  cases opens with
  | @terminated target terminator output body view value ending cell frame listed machine targeted
      read ends lists written rounds =>
    have filled : ending ≠ [] := by
      rintro rfl
      obtain ⟨before, peeked, -, -, apart⟩ := rounds.tested
      exact apart List.take_zero
    refine ⟨_, .terminated targeted read ends filled lists written, rfl, rounds.laps ?_⟩
    rintro before after ⟨peeked, ran, more, apart⟩
    exact View.goesOn_of_peeked ran more apart
  | throughout targeted read opens lists written rounds =>
    refine ⟨_, .throughout targeted read opens lists written, rfl, rounds.laps ?_⟩
    rintro before after ⟨more, rfl⟩
    show (Except.ok (!_), _) = _
    rw [more]
    rfl

/-! ### One step -/

/-- Into a round of a loop. -/
theorem Begins.enter (begins : station.Begins instruction loop) (under : station.Under regime record)
    (block : station.block = instruction :: rest) (same : entry = loop.entry entry.machine)
    {count : Nat} {before : Machine} (lapped : loop.after count = some before)
    (held : loop.test.run before = (.ok true, entry.machine)) :
    ∃ after, regime.run.later (station.machine, record) (entry.machine, after) ∧
      (station.enter entry).Under regime after := by
  obtain ⟨start, toStart, runs⟩ := begins.runs under block
  obtain ⟨middle, toBefore⟩ := runs.laps lapped
  obtain ⟨after, toEntry, -⟩ := (runs.tests _ toBefore).ok held
  have within := regime.run.trans toBefore toEntry
  refine ⟨after, regime.run.trans toStart within, under.enter block (fun part member => ?_) ?_⟩
  · rw [(begins.parts entry.machine).1, ← same]
    exact List.mem_cons_of_mem _ member
  · have frames := runs.frames _ within
    rw [← same] at frames
    exact frames

/-- **Into a block** of an instruction. -/
theorem Opens.under (opens : station.Opens instruction entry) (under : station.Under regime record)
    (block : station.block = instruction :: rest) :
    ∃ after, regime.run.later (station.machine, record) (entry.machine, after) ∧
      (station.enter entry).Under regime after := by
  have frames := under.started instruction
  have begun : regime.run.later (station.machine, record) (station.started instruction, record) :=
    Under.later_started station instruction record
  have asks : ∀ condition, Keeps regime.run (fun _ _ => True)
      (conditionHolds station.frame condition) (station.started instruction, record) :=
    fun condition => Regime.conditionHolds condition
  cases opens with
  | @prelude condition newStream prelude stream transform arguments view machine target holds =>
    obtain ⟨after, later, -⟩ := (asks condition).ok holds
    exact ⟨after, regime.run.trans begun later,
      under.enter block (fun part member => List.mem_cons_of_mem _ member) (frames.later later).inner⟩
  | @conditional target interior condition body machine holds =>
    obtain ⟨after, later, -⟩ := (asks condition).ok holds
    exact ⟨after, regime.run.trans begun later,
      under.enter block (fun part member => List.mem_cons_of_mem _ member) (frames.later later).inner⟩
  | @counted target stop output body count cell frame before listed machine counts lists written
      done within ran =>
    have inside : ∀ part ∈ blockParts body,
        part ∈ (Instruction.loop target (some stop) none output body).parts :=
      fun part member => List.mem_cons_of_mem _ member
    have counting : Keeps regime.run (fun _ _ => True) (countIn station.frame "loop count" stop)
        (station.started (.loop target (some stop) none output body), record) := Regime.countIn _ stop
    obtain ⟨recordCounted, toCounted, -⟩ := counting.ok counts
    have makes : Keeps regime.run (fun value _ => value.Inert) newList (before, recordCounted) :=
      Regime.newList
    obtain ⟨recordListed, toListed, inert⟩ := makes.ok lists
    have framesOuter : regime.Frames (listed, recordListed) frame :=
      ((frames.later toCounted).later toListed).set written (Regime.Holds.of_inert inert)
    have rounds : Keeps regime.run (fun _ _ => True)
        (repeatBody (station.round body (frame.child none [])) done) (listed, recordListed) :=
      Keeps.repeatBody (fun inner later =>
        under.round block inside (framesOuter.later later).inner) done
    obtain ⟨after, toEntry, -⟩ := rounds.ok ran
    exact ⟨after, regime.run.trans begun (regime.run.trans toCounted
      (regime.run.trans toListed toEntry)), under.enter block inside (framesOuter.later toEntry).inner⟩
  | terminated targeted read ends lists written rounds =>
    obtain ⟨loop, begins, same, count, before, lapped, held⟩ :=
      Opens.begun (.terminated targeted read ends lists written rounds)
    exact begins.enter under block same lapped held
  | throughout targeted read opens lists written rounds =>
    obtain ⟨loop, begins, same, count, before, lapped, held⟩ :=
      Opens.begun (.throughout targeted read opens lists written rounds)
    exact begins.enter under block same lapped held

/-- **At the start** of a program the frame holds the streams that it is given. -/
theorem Starts.under {view : View} {values : List Value} (starts : next.Starts view values)
    (peeks : regime.Peeks)
    (admitted : (Linked.mk next.environment.program next.environment.types).Throughout
      (Linked.Admitted regime.wraps))
    (shallow : regime.contract.tolerates (.misuse .nestingTooDeep) ∨
      (Linked.mk next.environment.program next.environment.types).Within next.depth)
    (fits : regime.Fits (next.machine, record) view)
    (holds : ∀ value ∈ values, regime.Holds (next.machine, record) value) :
    next.Under regime record := by
  obtain ⟨frame, bound, same, -, -, block⟩ := starts
  refine ⟨peeks, admitted, shallow, ?_, ?_⟩
  · rw [block]
    exact fun part member => member
  · rw [same]
    exact (Frame.Views.bindArguments holds bound).bindReader fits

/-- The start of a run over a source. -/
theorem Starts.under_source {source : RunSource} {view : View} {values : List Value}
    (starts : next.Starts view values) (opened : source.open? next.environment.mode = .ok view)
    (depth : next.depth = next.environment.types.length + nestingLimit) (peeks : regime.Peeks)
    (admitted : (Linked.mk next.environment.program next.environment.types).Throughout
      (Linked.Admitted regime.wraps))
    (shallow : regime.contract.tolerates (.misuse .nestingTooDeep) ∨
      (Linked.mk next.environment.program next.environment.types).Acyclic)
    (fits : regime.Fits (next.machine, record) source.view)
    (holds : ∀ value ∈ values, regime.Holds (next.machine, record) value) :
    next.Under regime record := by
  refine starts.under peeks admitted (shallow.imp_right fun acyclic => ?_) ?_ holds
  · rw [depth]
    exact acyclic.within (Nat.le_add_right _ _)
  · rw [source.eq_view_of_open opened]
    exact fits

/-- **One step** of a run keeps to the regime. -/
theorem Follows.under (follows : station.Follows next) (under : station.Under regime record) :
    ∃ after, regime.run.later (station.machine, record) (next.machine, after) ∧
      next.Under regime after := by
  cases follows with
  | @later instruction rest frame machine block ran =>
    have admits := under.admits
    have inside := under.inside
    rw [block] at admits inside
    obtain ⟨after, later, frames⟩ := (Instruction.run_regime instruction station.frame _
      (fun part member => admits part (List.mem_append_left _ member))
      (under.started instruction)).ok ran
    exact ⟨after, regime.run.trans (Under.later_started station instruction record) later, under.peeks,
      under.admitted, under.shallow, fun part member => inside part (List.mem_append_right _ member),
      frames⟩
  | inside block opens => exact opens.under under block
  | @message target data name arguments rest view entry values message next block targeted required
      read entered depth environment machine starts =>
    obtain rfl := TypeEntry.inPlace_eq_ok entered
    have names : (Linked.mk station.environment.program station.environment.types).Names message :=
      ⟨target, data, name, arguments, under.inside _ (by
        rw [block]
        exact List.mem_append_left _ (Instruction.mem_parts _)), required⟩
    have frames := under.started (.decodeReference target data name arguments)
    have shallow := under.shallow
    rw [depth] at shallow
    refine ⟨record, ?_, starts.under under.peeks ?_ ?_ ?_ ?_⟩
    · rw [machine]
      exact Under.later_started station _ record
    · rw [environment]
      exact under.admitted.message names
    · rw [environment]
      exact shallow.imp_right fun within => within message names
    · rw [machine]
      exact frames.target targeted
    · rw [machine]
      exact frames.getMany read

/-- **All stations** that a run comes to from one under a regime are under it. -/
theorem Under.follows (under : station.Under regime record)
    (follows : Relation.ReflTransGen Follows station next) :
    ∃ after, regime.run.later (station.machine, record) (next.machine, after) ∧
      next.Under regime after := by
  induction follows with
  | refl => exact ⟨record, regime.run.refl _, under⟩
  | tail _ step hypothesis =>
    obtain ⟨middle, toMiddle, keeps⟩ := hypothesis
    obtain ⟨after, toNext, holds⟩ := step.under keeps
    exact ⟨after, regime.run.trans toMiddle toNext, holds⟩

/-! ### Stations at which time passes -/

/-- The supply of a loop bounds what its stream can give. -/
theorem Begins.supplied (begins : station.Begins instruction loop) :
    loop.view.budget loop.start.streams ≤ loop.supply := by
  cases begins with
  | terminated => exact Nat.le_refl _
  | @throughout target output body view cursor content cell frame drained opened listed targeted read
      opens lists written =>
    cases opens
    cases lists
    show ((drained.streams.cursors.push _).get _).buffer.content.length ≤ content.length
    rw [Table.get_push_self]

/-- **A loop runs no more rounds than its stream has bytes to give:** every round adds to what the
stream has given. -/
theorem Begins.pays (begins : station.Begins instruction loop) (under : station.Under regime record)
    (advances : regime.Advances) (block : station.block = instruction :: rest) {count : Nat}
    {after : Machine} (lapped : loop.after count = some after) :
    loop.view.position loop.start.streams + count ≤ loop.view.position after.streams ∧
      count ≤ loop.view.budget loop.start.streams ∧
      loop.view.budget loop.start.streams ≤ loop.supply := by
  obtain ⟨start, -, runs⟩ := begins.runs under block
  have stalls : regime.contract.tolerates (.decode .stalledLoop) := regime.excuses _ id
  obtain ⟨last, later, position⟩ := laps_position stalls
    (fun first second => (advances second.1 (regime.later first.1 runs.fits)).position)
    runs.tests runs.rounds lapped
  have total := (advances later.1 runs.fits).total
  dsimp only at total position
  exact ⟨position, by omega, begins.supplied⟩

section Passing

variable {layout : Layout false}

/-- A station of a run in which time passes on every view. -/
abbrev Passing (station : Station) (layout : Layout false) : Prop :=
  station.Under Regime.passing layout

theorem Begins.paid (begins : station.Begins instruction loop) (passing : station.Passing layout)
    (block : station.block = instruction :: rest) {count : Nat} {after : Machine}
    (lapped : loop.after count = some after) :
    loop.view.position loop.start.streams + count ≤ loop.view.position after.streams ∧
      count ≤ loop.view.budget loop.start.streams ∧
      loop.view.budget loop.start.streams ≤ loop.supply :=
  begins.pays passing Regime.passing_advances block lapped

/-- **At the start** of a program whose references nest no deeper than they may. -/
theorem Starts.passing {view : View} {values : List Value} (starts : next.Starts view values)
    (admitted : (Linked.mk next.environment.program next.environment.types).Throughout
      (Linked.Admitted Regime.passing.wraps))
    (within : (Linked.mk next.environment.program next.environment.types).Within next.depth)
    (fits : Regime.passing.Fits (next.machine, layout) view)
    (holds : ∀ value ∈ values, Regime.passing.Holds (next.machine, layout) value) :
    next.Passing layout :=
  starts.under Regime.passing_peeks admitted (.inr within) fits holds

theorem Passing.follows (passing : station.Passing layout)
    (follows : Relation.ReflTransGen Follows station next) : ∃ after, next.Passing after := by
  obtain ⟨after, -, passes⟩ := Under.follows passing follows
  exact ⟨after, passes⟩

end Passing

end Station

end WireProgram
