/-
**The trace tells the run.**

With the trace on, every instruction that is executed leaves a note as it starts, and every
instruction that a fault of the input passes leaves one as it fails. Nothing else leaves notes. So
the notes of a run are those of its moments in the order of execution, and after them those of the
moments that failed, from the inside out. The main definitions and statements:

* `Note` and `Trace.noteAll`, notes one after the other, and `Trace.snapshot_noteAll`, what is kept;
* `Step.Records`, a step that leaves the notes of some moments;
* `Moment.records`, what is left of a block records what it executes;
* `decode_recorded`, **the trace of a whole run**.
-/

import WireProgram.Proofs.Moment.Order

namespace WireProgram

/-! ### Notes -/

/-- An event without its number. -/
structure Note where
  event : String
  depth : Nat
  instruction : String
  detail : String
  deriving DecidableEq

/-- An event with its number. -/
def Note.numbered (note : Note) (number : Nat) : TraceEntry :=
  ⟨number, note.event, note.depth, note.instruction, note.detail⟩

/-- An event without its number. -/
def TraceEntry.note (entry : TraceEntry) : Note :=
  ⟨entry.event, entry.depth, entry.instruction, entry.detail⟩

/-- Notes with the numbers from one on. -/
def numberedFrom : (number : Nat) → List Note → List TraceEntry
  | _, [] => []
  | number, note :: rest => note.numbered number :: numberedFrom (number + 1) rest

theorem note_numberedFrom (number : Nat) (notes : List Note) :
    (numberedFrom number notes).map TraceEntry.note = notes := by
  induction notes generalizing number with
  | nil => rfl
  | cons note rest hypothesis => exact congrArg (note :: ·) (hypothesis (number + 1))

theorem number_numberedFrom (number : Nat) (notes : List Note) :
    (numberedFrom number notes).map TraceEntry.number = List.range' number notes.length := by
  induction notes generalizing number with
  | nil => rfl
  | cons note rest hypothesis => exact congrArg (number :: ·) (hypothesis (number + 1))

theorem length_numberedFrom (number : Nat) (notes : List Note) :
    (numberedFrom number notes).length = notes.length := by
  rw [← List.length_map TraceEntry.note, note_numberedFrom]

namespace Trace

/-- Records notes in order. -/
def noteAll (trace : Trace) (notes : List Note) : Trace :=
  notes.foldl (fun trace note => trace.record note.event note.depth note.instruction note.detail)
    trace

theorem noteAll_append (trace : Trace) (first second : List Note) :
    trace.noteAll (first ++ second) = (trace.noteAll first).noteAll second :=
  List.foldl_append

/-- To keep what was kept before one more event is to keep it after. -/
theorem keep_cons_keep (capacity : Option Nat) (entry : TraceEntry) (entries : List TraceEntry) :
    keep capacity (entry :: keep capacity entries) = keep capacity (entry :: entries) := by
  cases capacity with
  | none => rfl
  | some limit =>
    cases limit with
    | zero => rfl
    | succ limit =>
      show (entry :: entries.take (limit + 1)).take (limit + 1) = (entry :: entries).take (limit + 1)
      rw [List.take_succ_cons, List.take_succ_cons, List.take_take, Nat.min_eq_left (Nat.le_succ _)]

theorem keep_append_keep (capacity : Option Nat) (newer older : List TraceEntry) :
    keep capacity (newer ++ keep capacity older) = keep capacity (newer ++ older) := by
  induction newer with
  | nil =>
    cases capacity with
    | none => rfl
    | some limit => exact (List.take_take).trans (congrArg (List.take · older) (Nat.min_self limit))
  | cons entry newer hypothesis =>
    rw [List.cons_append, ← keep_cons_keep, hypothesis, keep_cons_keep, List.cons_append]

/-- **A trace after some notes:** the numbers go on, and the newest events are kept. -/
theorem noteAll_eq (trace : Trace) (fits : keep trace.capacity trace.newest = trace.newest)
    (notes : List Note) : trace.noteAll notes =
      { trace with
        next := trace.next + notes.length
        newest := keep trace.capacity ((numberedFrom trace.next notes).reverse ++ trace.newest) } := by
  induction notes generalizing trace with
  | nil =>
    show trace = { trace with newest := keep trace.capacity trace.newest }
    rw [fits]
  | cons note rest hypothesis =>
    have after := keep_append_keep trace.capacity [] (note.numbered trace.next :: trace.newest)
    refine (hypothesis (trace.record _ _ _ _) after).trans ?_
    show Trace.mk trace.capacity (trace.next + 1 + rest.length) (keep trace.capacity
      ((numberedFrom (trace.next + 1) rest).reverse ++
        keep trace.capacity (note.numbered trace.next :: trace.newest))) = _
    rw [keep_append_keep, List.length_cons, numberedFrom, List.reverse_cons, List.append_assoc,
      List.singleton_append]
    congr 1
    omega

/-- **What is kept of some notes** from a cleared trace on: as many as the capacity allows of the last
ones, with their numbers. -/
theorem snapshot_noteAll (capacity : Nat) (notes : List Note) :
    let trace : Trace := noteAll { capacity := some capacity } notes
    trace.next = notes.length ∧
      trace.snapshot.map TraceEntry.note = notes.drop (notes.length - min notes.length capacity) ∧
      trace.snapshot.map TraceEntry.number =
        List.range' (notes.length - min notes.length capacity) (min notes.length capacity) := by
  have whole := noteAll_eq { capacity := some capacity } List.take_nil notes
  have kept : (noteAll { capacity := some capacity } notes).snapshot =
      (numberedFrom 0 notes).drop (notes.length - min notes.length capacity) := by
    rw [whole]
    show (((numberedFrom 0 notes).reverse ++ []).take capacity).reverse = _
    rw [List.append_nil, List.take_reverse, List.reverse_reverse, length_numberedFrom]
    congr 1
    omega
  dsimp only
  refine ⟨?_, ?_, ?_⟩
  · rw [whole]
    exact Nat.zero_add _
  · rw [kept, List.map_drop, note_numberedFrom]
  · rw [kept, List.map_drop, number_numberedFrom, List.drop_range']
    congr 1
    · omega
    · omega

end Trace

/-- What an instruction leaves in the trace as it starts. -/
def Moment.started (moment : Moment) : Note :=
  ⟨"exec", moment.station.frame.depth, moment.station.label, moment.station.environment.mode⟩

/-- What an instruction leaves in the trace as a fault passes it. -/
def Moment.failed (fault : Fault) (moment : Moment) : Note :=
  ⟨"fail", moment.station.frame.depth, moment.station.label, fault.message⟩

/-! ### Steps that leave no notes -/

variable {α β : Type}

/-- A step that runs no instruction leaves no notes. -/
theorem Step.Immediate.trace {step : Step α} (immediate : step.Immediate) :
    ∀ before, (step.run before).2.trace = before.trace := by
  induction immediate with
  | @bind _ _ first next _ _ one two =>
    intro before
    have here := one before
    rcases ran : first.run before with ⟨failure | value, after⟩
    · rw [run_bind_error ran]
      rwa [ran] at here
    · rw [run_bind_ok ran, two value after]
      rwa [ran] at here
  | onStreams step => exact fun _ => by rw [run_onStreams]
  | onLists act =>
    intro before
    rw [run_onLists]
    rcases act before.lists with fault | ⟨value, lists⟩ <;> rfl
  | _ => exact fun _ => rfl

/-! ### Steps that leave the notes of some moments -/

/-- **A step that records some moments:** it leaves the notes of them as they start. If it fails, it
leaves after these the notes of those that failed, from the inside out; the path of the failure names
them from the outside in. -/
structure Step.Records (step : Step α) (before : Machine) (executed : List Moment) : Prop where
  ok : ∀ {value after}, step.run before = (.ok value, after) →
    after.trace = before.trace.noteAll (executed.map Moment.started)
  error : ∀ {failure after}, step.run before = (.error failure, after) →
    ∃ failing : List Moment, failing.Sublist executed ∧
      failing.map (fun moment => moment.station.site) = failure.path ∧
      (failure.fault.isDecode = false → failing = []) ∧
      after.trace = before.trace.noteAll
        (executed.map Moment.started ++ failing.reverse.map (Moment.failed failure.fault))

namespace Step.Records

variable {step first : Step α} {next : α → Step β} {before : Machine}
  {executed inside beyond : List Moment}

theorem of_immediate (immediate : step.Immediate) : step.Records before [] where
  ok ran := by
    have trace := immediate.trace before
    rwa [ran] at trace
  error ran := by
    have trace := immediate.trace before
    rw [ran] at trace
    exact ⟨[], .refl _, ((immediate.path before).error ran).symm, fun _ => rfl, trace⟩

/-- **Sequencing:** the notes of the second step come after those of the first one. -/
theorem bind (one : first.Records before inside)
    (two : ∀ value after, first.run before = (.ok value, after) →
      (next value).Records after beyond)
    (last : ∀ failure after, first.run before = (.error failure, after) → beyond = []) :
    (first >>= next).Records before (inside ++ beyond) where
  ok ran := by
    obtain ⟨value, middle, ran, ran'⟩ := run_bind_eq_ok ran
    rw [(two value middle ran).ok ran', one.ok ran, ← Trace.noteAll_append, List.map_append]
  error ran := by
    rcases ran' : first.run before with ⟨failure | value, middle⟩
    · rw [run_bind_error ran'] at ran
      cases ran
      rw [last _ _ ran', List.append_nil]
      exact one.error ran'
    · rw [run_bind_ok ran'] at ran
      obtain ⟨failing, sublist, path, decode, trace⟩ := (two value middle ran').error ran
      refine ⟨failing, sublist.trans (List.sublist_append_right _ _), path, decode, ?_⟩
      rw [trace, one.ok ran', ← Trace.noteAll_append, List.map_append, List.append_assoc]

/-- What leaves no notes comes first. -/
theorem immediate_bind (one : first.Immediate)
    (two : ∀ value after, first.run before = (.ok value, after) →
      (next value).Records after executed)
    (last : ∀ failure after, first.run before = (.error failure, after) → executed = []) :
    (first >>= next).Records before executed :=
  bind (of_immediate one) two last

/-- What leaves no notes comes last. -/
theorem bind_immediate (one : first.Records before executed) (two : ∀ value, (next value).Immediate) :
    (first >>= next).Records before executed := by
  have both : (first >>= next).Records before (executed ++ []) :=
    one.bind (fun value _ _ => of_immediate (two value)) fun _ _ _ => rfl
  rwa [List.append_nil] at both

theorem discard (records : step.Records before executed) :
    (Functor.discard step : Step Unit).Records before executed where
  ok ran := by
    rw [run_discard] at ran
    split at ran
    · cases ran
      exact records.ok ‹_›
    · cases ran
  error ran := by
    rw [run_discard] at ran
    split at ran
    · cases ran
    · cases ran
      exact records.error ‹_›

theorem withProgress {body : Step Unit} (view : View) (records : body.Records before executed) :
    (WireProgram.withProgress view body).Records before executed := by
  refine immediate_bind (.look fun _ _ => rfl) (fun position after ran => ?_)
    fun failure after ran => ?_
  · cases ran
    refine records.bind_immediate fun _ => .bind (.look fun _ _ => rfl) fun last => ?_
    split
    · exact .throw _
    · exact .pure _
  · cases ran

/-- **A loop** records what its rounds record. -/
theorem takeTurns {test : Step Bool} {round spent : Step Unit} {bound : Nat}
    {each : Machine → List Moment} (tests : test.Immediate) (spends : spent.Immediate)
    (rounds : ∀ machine ∈ turns test round bound before, round.Records machine (each machine)) :
    (WireProgram.takeTurns test round spent bound).Records before
      ((turns test round bound before).flatMap each) := by
  induction bound generalizing before with
  | zero => exact of_immediate spends
  | succ bound hypothesis =>
    rw [WireProgram.takeTurns]
    rw [turns] at rounds ⊢
    refine immediate_bind tests (fun goesOn tested held => ?_) fun failure after ran => ?_
    · rw [held] at rounds ⊢
      cases goesOn with
      | false => exact of_immediate (.pure ())
      | true =>
        obtain ⟨here, others⟩ := List.forall_mem_cons.mp rounds
        rw [if_pos rfl, List.flatMap_cons]
        refine here.bind (fun _ after ran => ?_) fun failure after ran => ?_
        · rw [ran] at others ⊢
          exact hypothesis others
        · rw [ran]
          rfl
    · rw [ran]
      rfl

/-- A computation without the machine comes first. -/
theorem computed_bind {result : Except Fault α}
    (two : ∀ value, result = .ok value → (next value).Records before executed)
    (last : ∀ fault, result = .error fault → executed = []) :
    (Step.ofExcept result >>= next).Records before executed := by
  cases result with
  | ok value => exact two value rfl
  | error fault =>
    rw [last fault rfl]
    exact of_immediate (.throw fault)

end Step.Records

/-! ### Instructions and blocks -/

theorem Station.prepare_immediate (station : Station) (target : Target) (output : Register)
    (body : List Instruction) (stop terminator : Option Register) :
    (station.prepare target output body stop terminator).Immediate := by
  cases stop with
  | some stop =>
    cases terminator with
    | some terminator => exact .throw _
    | none =>
      exact .bind (.countIn _ _ _) fun _ => .bind (.look fun _ _ => rfl) fun _ =>
        .bind .newList fun _ => .bind (.ofExcept _) fun _ => .pure _
  | none =>
    cases terminator with
    | some terminator =>
      unfold prepare
      refine .bind (.ofExcept _) fun view => .bind (.ofExcept _) fun _ =>
        .bind (.look fun _ _ => rfl) fun _ => .bind (.look fun _ _ => rfl) fun _ =>
          .bind (.ofExcept _) fun ending => ?_
      split
      · exact .throw _
      · exact .bind (.look fun _ _ => rfl) fun _ => .bind .newList fun _ =>
          .bind (.ofExcept _) fun _ => .pure _
    | none =>
      exact .bind (.ofExcept _) fun _ => .bind (.onStreams _) fun _ => .bind (.onStreams _) fun _ =>
        .bind (.look fun _ _ => rfl) fun _ => .bind .newList fun _ => .bind (.ofExcept _) fun _ =>
          .pure _

namespace Moment

open Step (Records)

variable {moment : Moment} {instruction : Instruction} {rest : List Instruction}

/-- **A loop** records what its rounds record. -/
theorem records_loop {target : Target} {stop terminator : Option Register} {output : Register}
    {body : List Instruction}
    (inside : ∀ next ∈ moment.entered (.loop target stop terminator output body),
      next.station.onward.Records next.station.machine next.executed) :
    ((Instruction.loop target stop terminator output body).run moment.station.environment
      moment.station.refer moment.station.frame).Records
        (moment.station.started (.loop target stop terminator output body))
        ((moment.entered (.loop target stop terminator output body)).flatMap executed) := by
  rw [moment.station.run_loop]
  refine .immediate_bind (moment.station.prepare_immediate _ _ _ _ _) (fun cycle listed ran => ?_)
    fun failure after ran => ?_
  · rw [entered_loop ran] at inside ⊢
    rw [List.flatMap_map]
    have rounds : ∀ machine ∈ turns cycle.test cycle.round cycle.bound listed,
        (moment.station.round body cycle.inner).Records machine (executed
          ⟨moment.station.enter ⟨[cycle.cell], body, cycle.inner, machine⟩, moment.waiting⟩) :=
      fun machine member => (inside _ (List.mem_map_of_mem member)).discard
    refine Records.bind_immediate ?_ fun _ => .pure _
    cases Station.prepares_of_run ran with
    | counted => exact .takeTurns (.pure true) (.pure ()) rounds
    | terminated =>
      exact .takeTurns (.goesOn _ _) (.throw _) fun machine member =>
        (rounds machine member).withProgress _
    | throughout =>
      exact .takeTurns (.hasMore _) (.throw _) fun machine member =>
        (rounds machine member).withProgress _
  · rw [entered_loop_failed ran]
    rfl

/-- **A reference** records what the message records. -/
theorem records_reference {target : Target} {data : Register} {name : Json}
    {arguments : List Register}
    (inside : ∀ next ∈ moment.entered (.decodeReference target data name arguments),
      next.station.onward.Records next.station.machine next.executed) :
    ((Instruction.decodeReference target data name arguments).run moment.station.environment
      moment.station.refer moment.station.frame).Records
        (moment.station.started (.decodeReference target data name arguments))
        ((moment.entered (.decodeReference target data name arguments)).flatMap executed) := by
  rw [moment.station.run_reference]
  refine .computed_bind (fun found same => ?_) fun fault failed => ?_
  · obtain ⟨view, message, values⟩ := found
    refine Records.bind_immediate ?_ fun _ => .ofExcept _
    unfold Station.refer
    cases deep : moment.station.depth with
    | zero =>
      rw [entered_reference_shallow deep]
      exact .of_immediate (.throw _)
    | succ depth =>
      refine .computed_bind (fun frame bound => ?_) fun fault failed => ?_
      · refine .computed_bind (fun opened same => ?_) fun fault failed => by cases failed
        cases same
        rw [entered_reference same deep bound] at inside ⊢
        rw [List.flatMap_singleton]
        have decoded := inside _ (List.mem_singleton_self _)
        exact decoded.bind_immediate fun inner => .bind (.ofExcept _) fun _ => .ofExcept _
      · rw [entered_reference_unbound same deep failed]
        rfl
  · rw [entered_reference_unfound failed]
    rfl

/-- **An instruction records what it executes.** -/
theorem records_instruction (instruction : Instruction)
    (inside : ∀ next ∈ moment.entered instruction,
      next.station.onward.Records next.station.machine next.executed) :
    (instruction.run moment.station.environment moment.station.refer moment.station.frame).Records
      (moment.station.started instruction) ((moment.entered instruction).flatMap executed) := by
  by_cases immediate : instruction.isImmediate = true
  · rw [entered_immediate immediate]
    exact .of_immediate (instruction.run_immediate _ _ immediate _)
  cases instruction with
  | conditionalWrapStream condition prelude stream newStream transform arguments =>
    unfold Instruction.run
    refine .computed_bind (fun view targeted => ?_) fun fault failed => ?_
    · refine .immediate_bind (.conditionHolds _ _) (fun holds after ran => ?_)
        fun failure after ran => ?_
      · rw [entered_prelude targeted ran] at inside ⊢
        cases holds with
        | false => exact .of_immediate (.ofExcept _)
        | true =>
          have block := inside _ (List.mem_singleton_self _)
          rw [if_pos rfl, if_pos rfl, List.flatMap_singleton]
          exact block.bind_immediate fun inner => .bind (.ofExcept _) fun _ =>
            .bind (.onStreams _) fun _ => .ofExcept _
      · rw [entered_prelude_failed targeted ran]
        rfl
    · rw [entered_prelude_untargeted failed]
      rfl
  | decodeReference target data typeName arguments => exact records_reference inside
  | loop target stop terminator output body => exact records_loop inside
  | conditional target interior condition body =>
    unfold Instruction.run
    refine .immediate_bind (.conditionHolds _ _) (fun holds after ran => ?_)
      fun failure after ran => ?_
    · rw [entered_conditional ran] at inside ⊢
      cases holds with
      | false => exact .of_immediate (.ofExcept _)
      | true =>
        have block := inside _ (List.mem_singleton_self _)
        rw [if_pos rfl, if_pos rfl, List.flatMap_singleton]
        exact block.bind_immediate fun inner => .bind (.ofExcept _) fun _ => .ofExcept _
    · rw [entered_conditional_failed ran]
      rfl
  | _ => exact absurd rfl immediate

/-- An instruction with the records around it. -/
def tracedRun (moment : Moment) (instruction : Instruction) : Step Frame := do
  Step.record moment.station.environment.config "exec" moment.station.frame.depth instruction.label
    moment.station.environment.mode
  Step.guarded moment.station.environment.config moment.station.frame.depth
    ⟨moment.station.index, instruction.label⟩
    (instruction.run moment.station.environment moment.station.refer moment.station.frame)

theorem run_tracedRun (moment : Moment) (instruction : Instruction) :
    (moment.tracedRun instruction).run moment.station.machine =
      (Step.guarded moment.station.environment.config moment.station.frame.depth
        ⟨moment.station.index, instruction.label⟩ (instruction.run moment.station.environment
          moment.station.refer moment.station.frame)).run (moment.station.started instruction) := by
  unfold tracedRun
  rw [run_bind]
  rfl

/-- What is left of a block is its first instruction with its records, and then the others. -/
theorem onward_eq (block : moment.station.block = instruction :: rest) :
    moment.station.onward = moment.tracedRun instruction >>= fun frame =>
      runBlock moment.station.environment moment.station.refer rest (moment.station.index + 1)
        frame := by
  unfold Station.onward tracedRun
  rw [block, runBlock, bind_assoc]

/-- Where an instruction completes, a block goes on before the next one. -/
theorem later_of_ok (rest : List Instruction) {frame : Frame} {after : Machine}
    (ran : (moment.tracedRun instruction).run moment.station.machine = (.ok frame, after)) :
    moment.later instruction rest = [⟨{ moment.station with
      block := rest
      index := moment.station.index + 1
      frame := frame
      machine := after }, moment.waiting⟩] := by
  rw [run_tracedRun, Step.run_guarded] at ran
  split at ran
  · rename_i ended
    cases ran
    simp only [Moment.later, Station.next?, ended]
    rfl
  · cases ran

/-- Where one fails, no instruction of the block comes later. -/
theorem later_of_error (rest : List Instruction) {failure : Failure} {after : Machine}
    (ran : (moment.tracedRun instruction).run moment.station.machine = (.error failure, after)) :
    moment.later instruction rest = [] := by
  rw [run_tracedRun, Step.run_guarded] at ran
  split at ran
  · cases ran
  · rename_i ended
    simp only [Moment.later, Station.next?, ended]
    rfl

/-- **An instruction notes its start,** then comes what it executes, and then its own failure. -/
theorem records_tracedRun (block : moment.station.block = instruction :: rest)
    (traced : moment.station.environment.config.trace = true) {executed : List Moment}
    (inside : (instruction.run moment.station.environment moment.station.refer
      moment.station.frame).Records (moment.station.started instruction) executed) :
    (moment.tracedRun instruction).Records moment.station.machine (moment :: executed) := by
  have label := Station.label_eq block
  have start : (moment.station.started instruction).trace =
      moment.station.machine.trace.noteAll [moment.started] := by
    unfold Station.started Step.record
    rw [Step.run_change]
    dsimp only
    rw [if_pos traced, ← label]
    rfl
  refine ⟨fun ran => ?_, fun ran => ?_⟩
  · rw [run_tracedRun, Step.run_guarded] at ran
    split at ran
    · cases ran
      rw [inside.ok ‹_›, start, ← Trace.noteAll_append]
      rfl
    · cases ran
  · rw [run_tracedRun, Step.run_guarded] at ran
    split at ran
    · cases ran
    · rename_i failure after ran'
      cases ran
      obtain ⟨failing, sublist, path, undecoded, trace⟩ := inside.error ran'
      rw [start, ← Trace.noteAll_append] at trace
      cases decode : failure.fault.isDecode with
      | false =>
        have passes : failure.within ⟨moment.station.index, instruction.label⟩ = failure := by
          unfold Failure.within
          rw [if_neg (Bool.eq_false_iff.mp decode)]
        have unrecorded : Step.recorded moment.station.environment.config
            moment.station.frame.depth ⟨moment.station.index, instruction.label⟩ failure after =
              after :=
          if_neg fun both => Bool.eq_false_iff.mp decode both.1
        rw [passes, unrecorded]
        exact ⟨failing, sublist.cons _, path, undecoded, trace⟩
      | true =>
        have placed : failure.within ⟨moment.station.index, instruction.label⟩ =
            ⟨failure.fault, moment.station.site :: failure.path⟩ := by
          unfold Failure.within Station.site
          rw [if_pos decode, label]
        have recorded : (Step.recorded moment.station.environment.config
            moment.station.frame.depth ⟨moment.station.index, instruction.label⟩ failure after).trace =
              after.trace.noteAll [Moment.failed failure.fault moment] := by
          unfold Step.recorded Moment.failed
          rw [if_pos ⟨decode, traced⟩, label]
          rfl
        rw [placed, recorded]
        refine ⟨moment :: failing, sublist.cons_cons _, ?_, ?_, ?_⟩
        · rw [List.map_cons, path]
        · exact fun other => absurd (decode.symm.trans other) (by decide)
        · rw [trace, ← Trace.noteAll_append, List.reverse_cons, List.map_append, List.map_cons,
            List.append_assoc, List.append_assoc]
          rfl

/-- **What is left of a block records what it executes.** The induction is on what every step of a
run uses up; what an instruction executes comes before what is executed after it. -/
theorem records (traced : moment.station.environment.config.trace = true) :
    moment.station.onward.Records moment.station.machine moment.executed := by
  induction moment using executed.induct with
  | case1 moment empty =>
    have block := List.isEmpty_iff.mp empty
    rw [executed_nil block]
    unfold Station.onward
    rw [block]
    exact .of_immediate (.pure _)
  | case2 moment filled hypothesis =>
    obtain ⟨instruction, rest, block⟩ := List.exists_cons_of_ne_nil fun empty =>
      filled (List.isEmpty_iff.mpr empty)
    have children : moment.children =
        moment.entered instruction ++ moment.later instruction rest := by
      unfold Moment.children
      rw [block]
    have child : ∀ next ∈ moment.children,
        next.station.onward.Records next.station.machine next.executed := fun next member =>
      hypothesis ⟨next, member⟩ ((follows_of_mem_children member).config ▸ traced)
    rw [executed_cons block, onward_eq block, ← List.cons_append]
    refine (records_tracedRun block traced (records_instruction instruction fun next member =>
      child next (children ▸ List.mem_append_left _ member))).bind (fun frame after ran => ?_)
        fun failure after ran => ?_
    · have later := later_of_ok rest ran
      rw [later, List.flatMap_singleton]
      exact child _ (children ▸ List.mem_append_right _ (later ▸ List.mem_singleton_self _))
    · rw [later_of_error rest ran]
      rfl

end Moment

/-! ### Whole runs -/

theorem decodeWith_records (environment : Environment) (source : RunSource) (values : List Value)
    (machine : Machine) (traced : environment.config.trace = true) :
    (decodeWith environment source values).Records machine
      (environment.executed source values machine) := by
  unfold decodeWith Environment.decode Environment.executed Environment.start?
  refine .computed_bind (fun frame bound => .computed_bind (fun view opened => ?_)
    fun fault failed => ?_) fun fault failed => ?_
  · simp only [bound, opened]
    have whole := @Moment.records ⟨environment.start (environment.types.length + nestingLimit)
      (frame.bindReader view) machine, []⟩ traced
    exact whole.bind_immediate fun inner => .bind (.ofExcept _) fun _ => .ofExcept _
  · simp only [bound, failed]
  · simp only [failed]

/-- **The trace tells the run.** A run of any program over any source, in any mode and with any
settings that turn the trace on, leaves these events from a cleared trace on: one for every instruction
that it executes, in the order of execution, with its label and the depth of its frame; and if it fails
for its input, one more for every instruction on the path of the failure, from the last to the first,
with the text of the fault. A run that gives a value or fails for another reason leaves none of these.
Of `n` events the last `min n 256` are kept in order, with their numbers from `n - min n 256` on. -/
theorem decode_recorded (environment : Environment) (source : RunSource) (values : List Value)
    (machine after : Machine) (result : Except Failure Value)
    (traced : environment.config.trace = true) (cleared : machine.trace = {})
    (ran : (decodeWith environment source values).run machine = (result, after)) :
    ∃ notes : List Note,
      (∀ value, result = .ok value →
        notes = (environment.executed source values machine).map Moment.started) ∧
      (∀ failure, result = .error failure → ∃ failing : List Moment,
        failing.Sublist (environment.executed source values machine) ∧
        failing.map (fun moment => moment.station.site) = failure.path ∧
        (failure.fault.isDecode = false → failing = []) ∧
        notes = (environment.executed source values machine).map Moment.started ++
          failing.reverse.map (Moment.failed failure.fault)) ∧
      after.trace.next = notes.length ∧
      after.trace.snapshot.map TraceEntry.note =
        notes.drop (notes.length - min notes.length 256) ∧
      after.trace.snapshot.map TraceEntry.number =
        List.range' (notes.length - min notes.length 256) (min notes.length 256) := by
  have records := decodeWith_records environment source values machine traced
  have kept : ∀ notes, after.trace = machine.trace.noteAll notes →
      after.trace.next = notes.length ∧
      after.trace.snapshot.map TraceEntry.note =
        notes.drop (notes.length - min notes.length 256) ∧
      after.trace.snapshot.map TraceEntry.number =
        List.range' (notes.length - min notes.length 256) (min notes.length 256) := by
    intro notes trace
    rw [trace, cleared]
    exact Trace.snapshot_noteAll 256 notes
  cases result with
  | ok value => exact ⟨_, fun _ _ => rfl, nofun, kept _ (records.ok ran)⟩
  | error failure =>
    obtain ⟨failing, sublist, path, undecoded, trace⟩ := records.error ran
    refine ⟨_, nofun, fun failure' same => ?_, kept _ trace⟩
    cases same
    exact ⟨failing, sublist, path, undecoded, rfl⟩

/-- The packets with the trace on. -/
def tracedPackets : Environment :=
  { packets with config := { trace := true } }

theorem decode_recorded_of_cutOffPacket : ∃ (after : Machine) (failing : List Moment),
    failing.map (fun moment => moment.station.site) =
      [⟨1, "Loop(r2)"⟩, ⟨0, "DecodeRef(r1)"⟩, ⟨1, "Conditional(r2)"⟩, ⟨0, "DecodePrimitive(r1)"⟩] ∧
    after.trace.snapshot.map TraceEntry.note =
      (tracedPackets.executed ⟨.source .blocking 0, true⟩ [] cutOffPacket).map Moment.started ++
        failing.reverse.map (Moment.failed (.decode (.shortRead 4 2))) ∧
    after.trace.next = 14 := by
  obtain ⟨after, ran, count⟩ : ∃ after,
      (decodeWith tracedPackets ⟨.source .blocking 0, true⟩ []).run cutOffPacket =
        (.error ⟨.decode (.shortRead 4 2), [⟨1, "Loop(r2)"⟩, ⟨0, "DecodeRef(r1)"⟩,
          ⟨1, "Conditional(r2)"⟩, ⟨0, "DecodePrimitive(r1)"⟩]⟩, after) ∧ after.trace.next = 14 :=
    ⟨_, rfl, rfl⟩
  obtain ⟨notes, -, fails, next, snapshot, -⟩ :=
    decode_recorded tracedPackets ⟨.source .blocking 0, true⟩ [] cutOffPacket after _ rfl rfl ran
  obtain ⟨failing, -, path, -, rfl⟩ := fails _ rfl
  refine ⟨after, failing, path, ?_, count⟩
  rw [← next, count] at snapshot
  exact snapshot

end WireProgram
