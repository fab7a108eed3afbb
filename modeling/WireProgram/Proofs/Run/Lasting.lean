/-
**The stations of a run over streams that last.**

At every station of a run the frame holds streams that stand, whatever the transforms and types of its
program are, and one step of a run keeps this up. So no loop has more rounds than its stream has bytes to
give, and what fails inside of a run is how the run fails. The main definitions and statements:

* `Station.Lasting`, the invariant of the stations of a run, and `Station.Follows.lasting`, one step;
* `Station.Begins.lasts`, a loop that is begun at a station;
* `Station.Lasting.not_overdrawn`, the rounds of a loop and the bytes of its stream;
* `Environment.Visits.lasting` and `Environment.Visits.fails`, the stations of a whole run.
-/

import WireProgram.Proofs.Address
import WireProgram.Proofs.Run.Upkeep

namespace WireProgram

namespace Station

variable {station next : Station} {instruction : Instruction} {rest : List Instruction}
  {entry : Entry} {loop : Loop} {layout : Layout false}

/-- A station whose frame holds streams that stand. -/
def Lasting (station : Station) (layout : Layout false) : Prop :=
  Upkeep.Frames (station.machine, layout) station.frame

theorem refer_upkeeps (station : Station) : station.refer.Upkeeps :=
  decodeMessage_upkeep _ _ _ _

theorem Lasting.started (lasting : station.Lasting layout) (instruction : Instruction) :
    Upkeep.Frames (station.started instruction, layout) station.frame := by
  refine lasting.mono fun view stands => ?_
  show layout.Stands (station.started instruction).streams view
  rw [started_streams]
  exact stands

/-- The body of a loop takes nothing back. -/
theorem round_upkeep (station : Station) (body : List Instruction) {frame : Frame}
    {inner : Machine × Layout false} (frames : Upkeep.Frames inner frame) :
    Keeps .upkeep (fun _ _ => True) (station.round body frame) inner :=
  (runBlock_upkeep station.refer_upkeeps body 0 frame inner frames).discard

/-! ### Loops -/

/-- A loop over a stream that stands, whose rounds and tests take nothing back. -/
structure Lasts (loop : Loop) (layout : Layout false) : Prop where
  stands : Upkeep.Stands (loop.start, layout) loop.view
  supply : loop.view.budget loop.start.streams ≤ loop.supply
  tests : ∀ inner, Contract.upkeep.later (loop.start, layout) inner →
    Keeps .upkeep (fun _ _ => True) loop.test inner
  rounds : ∀ inner, Contract.upkeep.later (loop.start, layout) inner →
    Keeps .upkeep (fun _ _ => True) loop.round inner
  frames : ∀ inner, Contract.upkeep.later (loop.start, layout) inner →
    Upkeep.Frames inner (loop.entry inner.1).frame

theorem goesOn_upkeep {state : Machine × Layout false} {view : View} (stands : Upkeep.Stands state view)
    (terminator : Bytes) : Keeps .upkeep (fun _ _ => True) (view.goesOn terminator) state := by
  refine (Keeps.onStreams (View.approach_stands stands terminator)).bind fun approach _ _ _ => ?_
  cases approach <;> exact .pure trivial

theorem hasMore_upkeep (state : Machine × Layout false) (cursor : View) :
    Keeps .upkeep (fun _ _ => True) cursor.hasMore state :=
  Leads.of_ok (Step.run_look _ _) ⟨state.2, Contract.upkeep.refl state, trivial⟩

/-- The cursor that a loop opens, on the machine on which it makes its first test. -/
theorem opened_cursor {cursor : View} {content : Bytes} {cell : Nat} {drained opened listed : Machine}
    (opens : (Step.onStreams (openedBy fun streams => streams.openCursor content)).run drained =
      (.ok cursor, opened))
    (lists : newList.run opened = (.ok (.list cell), listed)) :
    ∃ slot, cursor = .cursor slot ∧ (listed.streams.cursors.get slot).buffer.content = content ∧
      cell < listed.lists.size ∧ listed.lists.get cell = [] := by
  cases opens
  cases lists
  refine ⟨_, rfl, ?_, ?_, Table.get_push_self _ _⟩
  · show ((drained.streams.cursors.push _).get _).buffer.content = content
    rw [Table.get_push_self]
  · show drained.lists.size < (drained.lists.push []).size
    exact Table.size_lt_push _ _

/-- A loop to the end of its stream, before its first round: its stream, its cursor and its frame. -/
theorem Lasting.opens_cursor {target : Target} {output : Register} {body : List Instruction}
    {view cursor : View} {content : Bytes} {cell : Nat} {frame : Frame}
    {drained opened listed : Machine} (lasting : station.Lasting layout)
    (targeted : station.frame.target target = .ok view)
    (read : (Step.onStreams view.readToEnd).run
      (station.started (.loop target none none output body)) = (.ok content, drained))
    (opens : (Step.onStreams (openedBy fun streams => streams.openCursor content)).run drained =
      (.ok cursor, opened))
    (lists : newList.run opened = (.ok (.list cell), listed))
    (written : station.frame.set output (.list cell) = .ok frame) :
    ∃ middle after, Contract.upkeep.later (drained, middle) (listed, after) ∧
      Upkeep.Stands (drained, middle) view ∧ Upkeep.Stands (listed, after) cursor ∧
      Upkeep.Frames (listed, after) frame := by
  have frames := lasting.started (.loop target none none output body)
  have reads : Keeps .upkeep (fun _ _ => True) (Step.onStreams view.readToEnd)
      (station.started (.loop target none none output body), layout) :=
    Keeps.onStreams (View.readToEnd_stands (frames.target targeted))
  obtain ⟨middle, toDrained, -⟩ := reads.ok read
  have cursors : Keeps .upkeep (fun cursor after => Upkeep.Stands after cursor)
      (Step.onStreams (openedBy fun streams => streams.openCursor content)) (drained, middle) :=
    Keeps.onStreams (openCursor_stands content)
  obtain ⟨layoutOpened, toOpened, stands⟩ := cursors.ok opens
  have makes : Keeps .upkeep (fun value _ => value.Inert) newList (opened, layoutOpened) :=
    Upkeep.newList
  obtain ⟨after, toListed, inert⟩ := makes.ok lists
  have later := Contract.upkeep.trans toOpened toListed
  refine ⟨middle, after, later, ?_, Upkeep.Stands.later stands toListed, ?_⟩
  · exact Upkeep.Stands.later (frames.target targeted) toDrained
  · exact ((frames.later toDrained).later later).set written (Upkeep.Holds.of_inert inert)

/-- A loop that is begun at a station whose streams stand. -/
theorem Begins.lasts (begins : station.Begins instruction loop) (lasting : station.Lasting layout) :
    ∃ after, Lasts loop after := by
  cases begins with
  | @terminated target terminator output body view value ending cell frame listed targeted read ends
      filled lists written =>
    have frames := lasting.started (.loop target none (some terminator) output body)
    have makes : Keeps .upkeep (fun value _ => value.Inert) newList
        (station.started (.loop target none (some terminator) output body), layout) := Upkeep.newList
    obtain ⟨after, later, inert⟩ := makes.ok lists
    have framesOuter : Upkeep.Frames (listed, after) frame :=
      (frames.later later).set written (Upkeep.Holds.of_inert inert)
    have stands := (frames.later later).target targeted
    refine ⟨after, stands, Nat.le_refl _, fun inner more => ?_, fun inner more => ?_, fun inner more => ?_⟩
    · exact goesOn_upkeep (Upkeep.Stands.later stands more) ending
    · exact station.round_upkeep body (framesOuter.later more).inner
    · exact (framesOuter.later more).inner
  | @throughout target output body view cursor content cell frame drained opened listed targeted read
      opens lists written =>
    obtain ⟨-, after, -, -, stands, framesOuter⟩ :=
      lasting.opens_cursor targeted read opens lists written
    obtain ⟨slot, rfl, same, -⟩ := opened_cursor opens lists
    refine ⟨after, stands, ?_, fun inner more => ?_, fun inner more => ?_, fun inner more => ?_⟩
    · show (listed.streams.cursors.get slot).buffer.content.length ≤ content.length
      rw [same]
    · exact hasMore_upkeep inner _
    · exact station.round_upkeep body
        ((framesOuter.later more).cursorFrame target (Upkeep.Stands.later stands more))
    · exact (framesOuter.later more).cursorFrame target (Upkeep.Stands.later stands more)

/-- So many rounds of a loop, on streams that stand. -/
theorem Lasts.laps (lasts : Lasts loop layout) {count : Nat} {after : Machine}
    (lapped : loop.after count = some after) :
    ∃ last, Contract.upkeep.later (loop.start, layout) (after, last) ∧ count ≤ loop.supply := by
  obtain ⟨last, later, position⟩ := @laps_position _ _ _ _ _ _ _ trivial
    (fun first second => (second.1.2 _ (lasts.stands.later first)).position) lasts.tests lasts.rounds
    _ _ lapped
  have total := (later.1.2 _ lasts.stands).total
  have supply := lasts.supply
  refine ⟨last, later, ?_⟩
  dsimp only at total position
  omega

/-- **No loop has more rounds than its stream has bytes to give.** -/
theorem Lasting.not_overspends (lasting : station.Lasting layout) (instruction : Instruction) :
    ¬station.Overspends instruction := by
  rintro ⟨loop, count, before, begins, lapped, beyond⟩
  obtain ⟨start, lasts⟩ := begins.lasts lasting
  obtain ⟨-, -, within⟩ := lasts.laps lapped
  exact absurd within (Nat.not_le_of_lt beyond)

theorem Lasting.not_overdrawn (lasting : station.Lasting layout) : ¬station.Overdrawn := by
  rintro ⟨instruction, rest, -, overspends⟩
  exact lasting.not_overspends instruction overspends

/-! ### One step -/

/-- Into a round of a loop. -/
theorem Begins.enters_lasting (begins : station.Begins instruction loop)
    (lasting : station.Lasting layout) (same : entry = loop.entry entry.machine) {count : Nat}
    {before : Machine} (lapped : loop.after count = some before)
    (held : loop.test.run before = (.ok true, entry.machine)) :
    ∃ after, (station.enter entry).Lasting after := by
  obtain ⟨start, lasts⟩ := begins.lasts lasting
  obtain ⟨middle, toBefore, -⟩ := lasts.laps lapped
  obtain ⟨after, toEntry, -⟩ := (lasts.tests _ toBefore).ok held
  have frames := lasts.frames _ (Contract.upkeep.trans toBefore toEntry)
  rw [← same] at frames
  exact ⟨after, frames⟩

/-- **Into a block** of an instruction. -/
theorem Opens.lasting (opens : station.Opens instruction entry) (lasting : station.Lasting layout) :
    ∃ after, (station.enter entry).Lasting after := by
  have frames := lasting.started instruction
  have asks : ∀ condition instruction, Keeps .upkeep (fun _ _ => True)
      (conditionHolds station.frame condition) (station.started instruction, layout) :=
    fun condition _ => Upkeep.conditionHolds condition
  cases opens with
  | prelude target holds =>
    obtain ⟨after, later, -⟩ := (asks _ _).ok holds
    exact ⟨after, (frames.later later).inner⟩
  | conditional holds =>
    obtain ⟨after, later, -⟩ := (asks _ _).ok holds
    exact ⟨after, (frames.later later).inner⟩
  | @counted target stop output body count cell frame before listed machine counts lists written
      done within ran =>
    have counting : Keeps .upkeep (fun _ _ => True) (countIn station.frame "loop count" stop)
        (station.started (.loop target (some stop) none output body), layout) := Upkeep.countIn _ stop
    obtain ⟨layoutCounted, toCounted, -⟩ := counting.ok counts
    have makes : Keeps .upkeep (fun value _ => value.Inert) newList (before, layoutCounted) :=
      Upkeep.newList
    obtain ⟨layoutListed, toListed, inert⟩ := makes.ok lists
    have framesOuter : Upkeep.Frames (listed, layoutListed) frame :=
      ((frames.later toCounted).later toListed).set written (Upkeep.Holds.of_inert inert)
    have rounds : Keeps .upkeep (fun _ _ => True)
        (repeatBody (station.round body (frame.child none [])) done) (listed, layoutListed) :=
      Keeps.repeatBody (fun inner later =>
        station.round_upkeep body (framesOuter.later later).inner) done
    obtain ⟨after, toEntry, -⟩ := rounds.ok ran
    exact ⟨after, (framesOuter.later toEntry).inner⟩
  | terminated targeted read ends lists written rounds =>
    obtain ⟨loop, begins, same, count, before, lapped, held⟩ :=
      Opens.begun (.terminated targeted read ends lists written rounds)
    exact begins.enters_lasting lasting same lapped held
  | throughout targeted read opens lists written rounds =>
    obtain ⟨loop, begins, same, count, before, lapped, held⟩ :=
      Opens.begun (.throughout targeted read opens lists written rounds)
    exact begins.enters_lasting lasting same lapped held

/-- **At the start** of a program the frame holds the streams that it is given. -/
theorem Starts.lasting {view : View} {values : List Value} (starts : next.Starts view values)
    (stands : Upkeep.Stands (next.machine, layout) view)
    (holds : ∀ value ∈ values, Upkeep.Holds (next.machine, layout) value) : next.Lasting layout := by
  obtain ⟨frame, bound, same, -, -, -⟩ := starts
  unfold Lasting
  rw [same]
  exact (Frame.Views.bindArguments holds bound).bindReader stands

/-- **One step** of a run leaves the streams of the frame standing. -/
theorem Follows.lasting (follows : station.Follows next) (lasting : station.Lasting layout) :
    ∃ after, next.Lasting after := by
  cases follows with
  | @later instruction rest frame machine block ran =>
    obtain ⟨after, -, frames⟩ := (Instruction.run_upkeep station.refer_upkeeps instruction
      station.frame _ (lasting.started instruction)).ok ran
    exact ⟨after, frames⟩
  | inside block opens => exact opens.lasting lasting
  | @message target data name arguments rest view entry values message next block targeted required
      read entered depth environment machine starts =>
    have frames := lasting.started (.decodeReference target data name arguments)
    refine ⟨layout, starts.lasting ?_ ?_⟩
    · rw [machine]
      exact frames.target targeted
    · rw [machine]
      exact frames.getMany read

theorem Lasting.follows (lasting : station.Lasting layout)
    (follows : Relation.ReflTransGen Follows station next) : ∃ after, next.Lasting after := by
  induction follows with
  | refl => exact ⟨layout, lasting⟩
  | tail _ step hypothesis =>
    obtain ⟨middle, lasts⟩ := hypothesis
    exact step.lasting lasts

end Station

/-! ### Whole runs -/

section Visits

variable {environment : Environment} {source : RunSource} {values : List Value} {machine : Machine}
  {station : Station} {layout : Layout false}

/-- The streams of a run over streams that stand last up to every station. -/
theorem Environment.Visits.lasting (visits : environment.Visits source values machine station)
    (stands : layout.Stands machine.streams source.view)
    (holds : ∀ value ∈ values, ∀ view, value = .stream view → layout.Stands machine.streams view) :
    ∃ after, station.Lasting after := by
  obtain ⟨view, start, opened, -, -, same, starts, reached⟩ := visits
  obtain rfl := source.eq_view_of_open opened
  refine Station.Lasting.follows (@Station.Starts.lasting _ layout _ _ starts ?_ ?_) reached
  · rw [same]
    exact stands
  · rw [same]
    exact holds

/-- **What fails at a station is how the run fails,** with places in front of its path. -/
theorem Environment.Visits.fails (visits : environment.Visits source values machine station)
    (stands : layout.Stands machine.streams source.view)
    (holds : ∀ value ∈ values, ∀ view, value = .stream view → layout.Stands machine.streams view)
    {failure : Failure} (failed : station.Fails failure) :
    ∃ path last, (decodeWith environment source values).run machine =
      (.error ⟨failure.fault, path⟩, last) ∧ failure.path <:+ path := by
  obtain ⟨view, start, opened, same, depth, machines, starts, reached⟩ := visits
  obtain rfl := source.eq_view_of_open opened
  have lasting : start.Lasting layout := starts.lasting (by rw [machines]; exact stands)
    (by rw [machines]; exact holds)
  obtain ⟨whole, ⟨last, ran⟩, fault, suffix⟩ := failed.up_within reached fun middle front => by
    obtain ⟨after, lasts⟩ := lasting.follows front
    exact lasts.not_overdrawn
  refine ⟨whole.path, last, ?_, suffix⟩
  obtain ⟨frame, bound, framed, -, index, block⟩ := starts
  rw [← fault]
  unfold Station.onward Station.refer at ran
  rw [block, index, framed, same, depth, machines] at ran
  rw [same] at bound
  exact (Station.run_decode bound opened machine).trans (run_bind_error ran)

end Visits

end WireProgram
