/-
**Where a run fails.**

A fault of the input goes up through every instruction around the one that raised it, and each adds
its place. So the path of the failure is an address: it leads from the program, block by block and
message by message, to the instruction that raised the fault. The main definitions and statements:

* `Station.Raises`, an instruction that raises a fault by itself;
* `Station.Addresses`, the paths that lead to such an instruction, and `Linked.Locates`, what a path
  means without a run;
* `Station.Enters.resumes` and `Station.blames`, an instruction goes on from what it entered, and fails
  by itself or as what it entered;
* `decode_addressed`, **the path of every decode fault is an address**.
-/

import WireProgram.Examples
import WireProgram.Proofs.Discipline.Spare
import WireProgram.Proofs.Ending.Visit

namespace WireProgram

/-! ### Failures without a place -/

section Unplaced

variable {α β : Type}

/-- What comes after a step whose value is dropped. -/
theorem run_discard_bind (step : Step α) (next : Unit → Step β) (before : Machine) :
    ((discard step : Step Unit) >>= next).run before =
      (step >>= fun _ => next ()).run before := by
  rw [run_bind, run_bind, run_discard]
  rcases step.run before with ⟨_ | _, after⟩ <;> rfl

/-- A sequence is judged by what its first part gives, which is known exactly. -/
theorem Leads.bind_run {first : Step α} {next : α → Step β} {before : Machine}
    {good : β → Machine → Prop} {bad : Failure → Machine → Prop}
    (one : Leads first before (fun _ _ => True) bad)
    (two : ∀ value after, first.run before = (.ok value, after) →
      Leads (next value) after good bad) :
    Leads (first >>= next) before good bad := by
  rcases ran : first.run before with ⟨failure | value, after⟩
  · exact .of_error (run_bind_error ran) (one.error ran)
  · unfold Leads
    rw [run_bind, ran]
    exact two value after ran

/-- The failures of a step that runs no instruction name none. -/
theorem Step.Immediate.path {step : Step α} (immediate : step.Immediate) :
    ∀ machine, Leads step machine (fun _ _ => True) fun failure _ => failure.path = [] := by
  induction immediate with
  | pure value => exact fun _ => .pure trivial
  | throw fault => exact fun _ => .throw rfl
  | bind _ _ one two => exact fun machine => (one machine).bind fun value after _ => two value after
  | ofExcept result =>
    intro machine
    cases result with
    | ok value => exact .of_ok rfl trivial
    | error fault => exact .of_error rfl rfl
  | onStreams step =>
    intro machine
    unfold Leads
    rw [run_onStreams]
    cases (step.run machine.streams).1 with
    | ok value => trivial
    | error fault => rfl
  | onLists act =>
    intro machine
    unfold Leads
    rw [run_onLists]
    cases act machine.lists with
    | ok result => trivial
    | error fault => rfl
  | look => exact fun machine => .of_ok (run_look _ machine) trivial
  | warn text => exact fun machine => .of_ok (run_change _ machine) trivial

end Unplaced

/-! ### Loops that fail -/

section Loops

variable {test : Step Bool} {body : Step Unit} {failure : Failure} {start machine last : Machine}

/-- A loop with a count goes on with the rounds that are left. -/
theorem repeatBody_resumes {done count : Nat}
    (ran : (repeatBody body done).run start = (.ok (), machine)) (within : done < count) :
    ∃ more, (repeatBody body count).run start =
      (body >>= fun _ => repeatBody body more).run machine := by
  induction done generalizing start count with
  | zero =>
    obtain ⟨rest, rfl⟩ : ∃ rest, count = rest + 1 := ⟨count - 1, by omega⟩
    cases ran
    exact ⟨rest, rfl⟩
  | succ done hypothesis =>
    obtain ⟨rest, rfl⟩ : ∃ rest, count = rest + 1 := ⟨count - 1, by omega⟩
    rw [repeatBody, run_bind] at ran ⊢
    rcases first : body.run start with ⟨_ | _, middle⟩
    · rw [first] at ran
      cases ran
    · rw [first] at ran
      exact hypothesis ran (by omega)

/-- A failing loop with a count fails in one of its rounds. -/
theorem repeatBody_error {count : Nat}
    (failed : (repeatBody body count).run start = (.error failure, last)) :
    ∃ done < count, ∃ machine after, (repeatBody body done).run start = (.ok (), machine) ∧
      body.run machine = (.error failure, after) := by
  induction count generalizing start with
  | zero => cases failed
  | succ count hypothesis =>
    rw [repeatBody, run_bind] at failed
    rcases first : body.run start with ⟨fault | _, middle⟩
    · rw [first] at failed
      cases failed
      exact ⟨0, Nat.succ_pos _, start, _, rfl, first⟩
    · rw [first] at failed
      obtain ⟨done, within, machine, after, ran, wrong⟩ := hypothesis failed
      refine ⟨done + 1, Nat.succ_lt_succ within, machine, after, ?_, wrong⟩
      rw [repeatBody, run_bind, first]
      exact ran

/-- A loop without a count goes on with a round that it comes to, unless that is beyond its bound. -/
theorem repeatWhile_resumes {count : Nat} {before : Machine}
    (lapped : laps test body count start = some before)
    (held : test.run before = (.ok true, machine)) (fuel : Nat) :
    (fuel ≤ count ∧ ∃ after, (repeatWhile test body fuel).run start =
      (.error ⟨.misuse .boundExceeded, []⟩, after)) ∨
      ∃ more, (repeatWhile test body fuel).run start =
        (body >>= fun _ => repeatWhile test body more).run machine := by
  induction count generalizing start fuel with
  | zero =>
    cases lapped
    cases fuel with
    | zero => exact .inl ⟨Nat.le_refl _, _, rfl⟩
    | succ fuel =>
      refine .inr ⟨fuel, ?_⟩
      rw [repeatWhile, run_bind_ok held]
      rfl
  | succ count hypothesis =>
    obtain ⟨tested, ended, holds, ran, others⟩ := laps_succ lapped
    cases fuel with
    | zero => exact .inl ⟨Nat.zero_le _, _, rfl⟩
    | succ fuel =>
      have same : (repeatWhile test body (fuel + 1)).run start =
          (repeatWhile test body fuel).run ended := by
        rw [repeatWhile, run_bind_ok holds]
        show ((body >>= fun _ => repeatWhile test body fuel).run tested) = _
        rw [run_bind_ok ran]
      rw [same]
      exact (hypothesis others fuel).imp_left (And.imp_left Nat.succ_le_succ)

/-- A failing round ends a loop without a count, unless it is beyond the bound of the loop. -/
theorem repeatWhile_fails {count : Nat} {before : Machine}
    (lapped : laps test body count start = some before)
    (held : test.run before = (.ok true, machine))
    (failed : body.run machine = (.error failure, last)) (fuel : Nat) : ∃ failure' after,
      (repeatWhile test body fuel).run start = (.error failure', after) ∧
        (fuel ≤ count ∧ failure'.fault.Overruns ∨ failure' = failure) := by
  rcases repeatWhile_resumes lapped held fuel with ⟨within, after, overran⟩ | ⟨more, ran⟩
  · exact ⟨_, after, overran, .inl ⟨within, trivial⟩⟩
  · exact ⟨failure, last, ran.trans (run_bind_error failed), .inr rfl⟩

/-- Where a loop makes a test: at its start, or after one of its rounds. -/
def Station.Rests (tests : Machine → Machine → Prop) (body : Step Unit) (start machine : Machine) :
    Prop :=
  machine = start ∨ ∃ before, Station.Rounds tests body start before ∧
    body.run before = (.ok (), machine)

theorem Station.Rests.round {tests : Machine → Machine → Prop} {after : Machine}
    (rests : Station.Rests tests body start machine) (tested : tests machine after) :
    Station.Rounds tests body start after := by
  rcases rests with rfl | ⟨before, rounds, ran⟩
  · exact .first tested
  · exact .next rounds ran tested

/-- A failing loop without a count fails by itself or in one of its rounds. -/
theorem repeatWhile_error {tests : Machine → Machine → Prop} (immediate : test.Immediate)
    (holds : ∀ before after, test.run before = (.ok true, after) → tests before after) (fuel : Nat)
    (rests : Station.Rests tests body start machine) :
    Leads (repeatWhile test body fuel) machine (fun _ _ => True) fun failure _ =>
      failure.path = [] ∨ ∃ inner after, Station.Rounds tests body start inner ∧
        body.run inner = (.error failure, after) := by
  induction fuel generalizing machine with
  | zero => exact .throw (.inl rfl)
  | succ fuel hypothesis =>
    refine .bind_run ((immediate.path machine).mono (fun _ _ _ => trivial) fun _ _ => .inl) ?_
    intro goesOn tested ran
    cases goesOn with
    | false => exact .pure trivial
    | true =>
      have round := rests.round (holds _ _ ran)
      refine .bind_run ?_ fun _ after ended => hypothesis (.inr ⟨tested, round, ended⟩)
      rcases ended : body.run tested with ⟨failure | _, after⟩
      · exact .of_error ended (.inr ⟨tested, after, round, ended⟩)
      · exact .of_ok ended trivial

/-- A round that must consume something fails by itself or as its body. -/
theorem withProgress_error {view : View}
    (failed : (withProgress view body).run start = (.error failure, last)) :
    failure.path = [] ∨ ∃ after, body.run start = (.error failure, after) := by
  unfold withProgress at failed
  rw [run_bind_ok (Step.run_look _ _)] at failed
  rcases ran : body.run start with ⟨fault | _, after⟩
  · rw [run_bind_error ran] at failed
    cases failed
    exact .inr ⟨_, rfl⟩
  · rw [run_bind_ok ran, run_bind_ok (Step.run_look _ _)] at failed
    split at failed
    · cases failed
      exact .inl rfl
    · cases failed

theorem View.peeked_of_goesOn {view : View} {terminator : Bytes} {before after : Machine}
    (ran : (view.goesOn terminator).run before = (.ok true, after)) :
    ∃ peeked, (Step.onStreams (view.fillBuf terminator.length)).run before = (.ok peeked, after) ∧
      peeked.isEmpty = false ∧ peeked.take terminator.length ≠ terminator := by
  unfold goesOn approach at ran
  rw [Step.onStreams_bind, bind_assoc] at ran
  rcases peeks : (Step.onStreams (view.fillBuf terminator.length)).run before with
    ⟨fault | peeked, middle⟩
  · rw [run_bind_error peeks] at ran
    cases ran
  rw [run_bind_ok peeks] at ran
  unfold Approach.of at ran
  by_cases ended : peeked.isEmpty = true
  · rw [if_pos ended] at ran
    cases ran
  by_cases starts : peeked.take terminator.length = terminator
  · rw [if_neg ended, if_pos starts] at ran
    dsimp only at ran
    rw [Step.onStreams_bind, bind_assoc, run_bind] at ran
    rcases dropped : (Step.onStreams (view.consume terminator.length)).run middle with
      ⟨fault | _, drained⟩
    · rw [dropped] at ran
      cases ran
    · rw [dropped] at ran
      cases ran
  · rw [if_neg ended, if_neg starts] at ran
    cases ran
    exact ⟨peeked, rfl, Bool.eq_false_iff.mpr ended, starts⟩

end Loops

/-! ### Stations that fail -/

namespace Station

variable {station next start : Station} {instruction : Instruction} {rest : List Instruction}
  {entry : Entry} {failure : Failure}

/-- The run of what is left of the block. -/
def onward (station : Station) : Step Frame :=
  runBlock station.environment station.refer station.block station.index station.frame

/-- What is left of the block completes. -/
def Completes (station : Station) : Prop :=
  ∃ frame after, station.onward.run station.machine = (.ok frame, after)

/-- What is left of the block fails. -/
def Fails (station : Station) (failure : Failure) : Prop :=
  ∃ after, station.onward.run station.machine = (.error failure, after)

/-- To the next instruction of the block, after the one before it completed. -/
def Passes (station next : Station) : Prop :=
  station.Follows next ∧ next.index = station.index + 1

/-- Into a block of the instruction, or into the message that it refers to. -/
def Enters (station next : Station) : Prop :=
  station.Follows next ∧ next.index = 0

/-- **An instruction that raises a fault by itself:** its own run ends with the fault and no place,
and all blocks and messages that it entered completed. -/
structure Raises (station : Station) (instruction : Instruction) (fault : Fault) : Prop where
  fails : ∃ after, (instruction.run station.environment station.refer station.frame).run
    (station.started instruction) = (.error ⟨fault, []⟩, after)
  entered : ∀ next, station.Enters next → next.Completes

/-- **The paths that lead to the instruction that raised a fault.** From the start of a block the run
passed over instructions that completed. There it stands before the instruction of the first place,
which raised the fault by itself, or which entered a block or a message from whose start the rest of
the path leads on. -/
inductive Addresses : Station → List Site → Fault → Prop
  | raised {start station : Station} {instruction : Instruction} {rest : List Instruction}
    {fault : Fault} (passed : Relation.ReflTransGen Passes start station)
    (block : station.block = instruction :: rest) (raises : station.Raises instruction fault) :
    Addresses start [⟨station.index, instruction.label⟩] fault
  | entered {start station next : Station} {instruction : Instruction} {rest : List Instruction}
    {path : List Site} {fault : Fault} (passed : Relation.ReflTransGen Passes start station)
    (block : station.block = instruction :: rest) (enters : station.Enters next)
    (further : Addresses next path fault) :
    Addresses start (⟨station.index, instruction.label⟩ :: path) fault

theorem Addresses.ne_nil {path : List Site} {fault : Fault}
    (addresses : start.Addresses path fault) : path ≠ [] := by
  cases addresses <;> exact List.cons_ne_nil _ _

/-- The instructions before the first place completed too. -/
theorem Addresses.after {path : List Site} {fault : Fault} (addresses : next.Addresses path fault)
    (passes : station.Passes next) : station.Addresses path fault := by
  cases addresses with
  | raised passed block raises => exact .raised (.head passes passed) block raises
  | entered passed block enters further => exact .entered (.head passes passed) block enters further

/-! ### One instruction -/

/-- A block goes on with the first instruction at its place, and then with the others. -/
theorem onward_cons (block : station.block = instruction :: rest) :
    station.onward.run station.machine =
      (Step.guarded station.environment.config station.frame.depth
        ⟨station.index, instruction.label⟩
        (instruction.run station.environment station.refer station.frame) >>= fun frame =>
          runBlock station.environment station.refer rest (station.index + 1) frame).run
        (station.started instruction) := by
  unfold Station.onward
  rw [block, runBlock, run_bind]
  rfl

theorem Completes.or_fails (station : Station) :
    station.Completes ∨ ∃ failure, station.Fails failure := by
  rcases ran : station.onward.run station.machine with ⟨failure | frame, after⟩
  · exact .inr ⟨failure, after, ran⟩
  · exact .inl ⟨frame, after, ran⟩

/-- A block fails as its instruction does. -/
theorem fails_of_run (block : station.block = instruction :: rest) {after : Machine}
    (ran : (instruction.run station.environment station.refer station.frame).run
      (station.started instruction) = (.error failure, after)) :
    station.Fails (failure.within ⟨station.index, instruction.label⟩) := by
  unfold Fails
  rw [onward_cons block, run_bind, Step.run_guarded, ran]
  exact ⟨_, rfl⟩

/-- A loop without a count runs its block in every round. -/
theorem Begins.round {loop : Loop} (begins : station.Begins instruction loop) (machine : Machine) :
    loop.round = discard (station.enter (loop.entry machine)).onward := by
  cases begins <;> rfl

/-- A loop without a count makes its test without changing a list. -/
theorem Begins.tests {loop : Loop} (begins : station.Begins instruction loop) {loops : List Nat}
    (machine : Machine) : Spares False loops (fun _ => True) loop.test machine := by
  cases begins with
  | terminated =>
    refine (Spares.onStreams (View.approach_quiet _ _)).bind fun approach _ _ _ => ?_
    cases approach <;> exact .pure trivial
  | throughout => exact Spares.look_bind (.pure trivial)

/-- A loop without a count spares what its rounds spare. -/
theorem Begins.spares {loop : Loop} (begins : station.Begins instruction loop) {loops : List Nat}
    (rounds : ∀ machine, Spares False loops (fun _ => True) loop.round machine) (fuel : Nat)
    (machine : Machine) :
    Spares False loops (fun _ => True) (repeatWhile loop.test loop.body fuel) machine := by
  induction fuel generalizing machine with
  | zero => exact .throw id
  | succ fuel hypothesis =>
    refine (begins.tests machine).bind fun goesOn tested _ _ => ?_
    cases goesOn with
    | false => exact .pure trivial
    | true => exact ((rounds tested).withProgress loop.view).bind fun _ after _ _ => hypothesis after

/-- An instruction with a loop of more rounds than its stream has bytes to give. -/
def Overspends (station : Station) (instruction : Instruction) : Prop :=
  ∃ (loop : Loop) (count : Nat) (before : Machine), station.Begins instruction loop ∧
    loop.after count = some before ∧ loop.supply < count

/-- How an instruction goes on from what it entered, if that is not beyond its bounds: with what is left
of the block there, and then with steps that spare all lists that the block spares. -/
def Resumes (station : Station) (instruction : Instruction) (next : Station) : Prop :=
  (station.Overspends instruction ∧
    ∃ after, (instruction.run station.environment station.refer station.frame).run
      (station.started instruction) = (.error ⟨.misuse .boundExceeded, []⟩, after)) ∨
    ∃ onwards : Frame → Step Frame,
      (instruction.run station.environment station.refer station.frame).run
        (station.started instruction) = (next.onward >>= onwards).run next.machine ∧
      ∀ loops, (∀ machine, Spares False loops (fun _ => True) next.onward machine) →
        ∀ inner machine, Spares False loops (fun _ => True) (onwards inner) machine

/-- A loop without a count goes on from a round that it comes to. -/
theorem Begins.resumes {loop : Loop} (begins : station.Begins instruction loop)
    (same : entry = loop.entry entry.machine) {count : Nat} {before : Machine}
    (lapped : loop.after count = some before)
    (held : loop.test.run before = (.ok true, entry.machine)) :
    station.Resumes instruction (station.enter entry) := by
  obtain ⟨fuel, enough, ran⟩ := begins.run
  have onward : loop.round = discard (station.enter entry).onward := by
    rw [begins.round entry.machine, ← same]
  rcases repeatWhile_resumes lapped held fuel with ⟨within, after, overran⟩ | ⟨more, resumed⟩
  · exact .inl ⟨⟨loop, count, before, begins, lapped, Nat.lt_of_lt_of_le enough within⟩, after,
      ran.trans (run_bind_error overran)⟩
  · refine .inr ⟨fun _ => Step.look (fun machine => loop.view.position machine.streams) >>=
      fun after => (if after = loop.view.position entry.machine.streams then
        throw ⟨.decode .stalledLoop, []⟩ else pure ()) >>= fun _ =>
          repeatWhile loop.test loop.body more >>= fun _ => pure loop.frame, ?_, ?_⟩
    · rw [ran, run_bind, resumed, ← run_bind, Loop.body, withProgress, onward, bind_assoc,
        bind_assoc, run_bind_ok (Step.run_look _ _), bind_assoc, bind_assoc, run_discard_bind]
      rfl
    · intro loops rounds inner machine
      have each : ∀ machine, Spares False loops (fun _ => True) loop.round machine := by
        rw [onward]
        exact fun machine => (rounds machine).discard
      have progress : ∀ after : Nat, Spares False loops (fun _ => True)
          (if after = loop.view.position entry.machine.streams then
            throw ⟨.decode .stalledLoop, []⟩ else pure () : Step Unit) machine := by
        intro after
        split
        · exact .throw id
        · exact .pure trivial
      exact Spares.look_bind ((progress _).bind fun _ after _ _ =>
        (begins.spares each more after).bind fun _ _ _ _ => .pure trivial)

/-- **An instruction goes on from a block that it opened.** -/
theorem Opens.resumes (opens : station.Opens instruction entry) :
    station.Resumes instruction (station.enter entry) := by
  cases opens with
  | @prelude condition newStream prelude stream transform arguments view machine target holds =>
    refine .inr ⟨fun inner => Step.ofExcept (inner.getMany arguments) >>= fun values =>
      Step.onStreams (transform.wrap view values) >>= fun wrapped =>
        Step.ofExcept (station.frame.set newStream (.stream wrapped)), ?_, ?_⟩
    · unfold Instruction.run
      rw [run_bind_ok (Step.run_ofExcept_ok target _), run_bind_ok holds, if_pos rfl]
      rfl
    · exact fun loops _ inner machine => (Spares.computed _).bind fun values _ _ _ =>
        (Spares.onStreams (transform.wrap_quiet view values)).bind fun _ _ _ _ => .computed _
  | @conditional target interior condition body machine holds =>
    refine .inr ⟨fun inner => Step.ofExcept (inner.get interior) >>= fun value =>
      Step.ofExcept (station.frame.set target value), ?_, ?_⟩
    · unfold Instruction.run
      rw [run_bind_ok holds, if_pos rfl]
      rfl
    · exact fun loops _ inner machine => (Spares.computed _).bind fun _ _ _ _ => .computed _
  | @counted target stop output body count cell frame before listed machine counts lists written
      done within ran =>
    obtain ⟨more, resumed⟩ := repeatBody_resumes ran within
    refine .inr ⟨fun _ => repeatBody (station.round body (frame.child none [])) more >>= fun _ =>
      pure frame, ?_, ?_⟩
    · unfold Instruction.run
      rw [run_bind_ok counts, run_bind_ok lists, run_bind_ok (Step.run_ofExcept_ok written _)]
      show (repeatBody (station.round body (frame.child none [])) count >>= fun _ =>
        pure frame).run listed = _
      rw [run_bind, resumed, ← run_bind, bind_assoc, Station.round, run_discard_bind]
      rfl
    · exact fun loops rounds inner machine =>
        (Spares.repeatBody (fun machine => (rounds machine).discard) more).bind
          fun _ _ _ _ => .pure trivial
  | terminated targeted read ends lists written rounds =>
    obtain ⟨loop, begins, same, count, before, lapped, held⟩ :=
      Opens.begun (.terminated targeted read ends lists written rounds)
    exact begins.resumes same lapped held
  | throughout targeted read opens lists written rounds =>
    obtain ⟨loop, begins, same, count, before, lapped, held⟩ :=
      Opens.begun (.throughout targeted read opens lists written rounds)
    exact begins.resumes same lapped held

/-- A decode runs the block of its program, and then reads the last register. -/
theorem run_decode {environment : Environment} {refer : Referral} {opening : Except Fault View}
    {values : List Value} {frame : Frame} {view : View}
    (bound : bindArguments environment.program values = .ok frame) (opened : opening = .ok view)
    (machine : Machine) : (environment.decode refer opening values).run machine =
      (runBlock environment refer environment.program.instructions 0 (frame.bindReader view) >>=
        fun inner => Step.ofExcept environment.program.outputRegister >>= fun output =>
          Step.ofExcept (inner.get output)).run machine := by
  unfold Environment.decode
  rw [run_bind_ok (Step.run_ofExcept_ok bound _), run_bind_ok (Step.run_ofExcept_ok opened _)]

/-- **An instruction goes on from what it entered.** -/
theorem Enters.resumes (enters : station.Enters next) (block : station.block = instruction :: rest) :
    station.Resumes instruction next := by
  obtain ⟨follows, first⟩ := enters
  cases follows with
  | later same ran => cases first
  | inside same opens =>
    cases block.symm.trans same
    exact opens.resumes
  | @message target data name arguments others view entry values message next same targeted required
      read entered depth environment machine starts =>
    cases block.symm.trans same
    obtain ⟨frame, bound, framed, -, index, instructions⟩ := starts
    have decoded : (station.refer message view values).run (station.started
        (.decodeReference target data name arguments)) = (next.onward >>= fun inner =>
          Step.ofExcept next.environment.program.outputRegister >>= fun output =>
            Step.ofExcept (inner.get output)).run next.machine := by
      rw [environment] at bound
      have opened : (Except.ok view : Except Fault View) = .ok view := rfl
      have whole := @run_decode ⟨message.program, message.visible station.environment.types,
        station.environment.mode, station.environment.config⟩ next.refer _ _ _ _ bound opened
        next.machine
      unfold onward refer at *
      rw [instructions, index, framed, environment] at *
      rw [depth, ← machine]
      exact whole
    refine .inr ⟨fun inner => Step.ofExcept next.environment.program.outputRegister >>= fun output =>
      Step.ofExcept (inner.get output) >>= fun value =>
        Step.ofExcept (station.frame.set data value), ?_, ?_⟩
    · unfold Instruction.run
      rw [run_bind_ok (Step.run_ofExcept_ok targeted _), run_bind_ok (Step.run_ofExcept_ok required _),
        run_bind_ok (Step.run_ofExcept_ok read _), run_bind_ok (Step.run_ofExcept_ok entered _), run_bind,
        decoded, ← run_bind]
      simp only [bind_assoc]
    · exact fun loops _ inner machine => (Spares.computed _).bind fun _ _ _ _ =>
        (Spares.computed _).bind fun _ _ _ _ => .computed _

/-- **An instruction fails as what it entered,** if that is not beyond its bounds. -/
theorem Enters.fails (enters : station.Enters next) (block : station.block = instruction :: rest)
    (failed : next.Fails failure) : ∃ failure' after,
      (instruction.run station.environment station.refer station.frame).run
        (station.started instruction) = (.error failure', after) ∧
          (station.Overspends instruction ∧ failure'.fault.Overruns ∨ failure' = failure) := by
  obtain ⟨last, failed⟩ := failed
  rcases enters.resumes block with ⟨spent, after, overran⟩ | ⟨onwards, ran, -⟩
  · exact ⟨_, after, overran, .inl ⟨spent, trivial⟩⟩
  · exact ⟨failure, last, ran.trans (run_bind_error failed), .inr rfl⟩

/-- A failure without a place, or that of something that the instruction entered. -/
def Blames (station : Station) (failure : Failure) : Prop :=
  failure.path = [] ∨ ∃ next, station.Enters next ∧ next.Fails failure

section Blames

variable {α : Type} {step : Step α} {before : Machine}

theorem blames_of_immediate (immediate : step.Immediate) :
    Leads step before (fun _ _ => True) fun failure _ => station.Blames failure :=
  (immediate.path before).mono (fun _ _ _ => trivial) fun _ _ => .inl

/-- What can fail only without a place comes first. -/
theorem blames_bind {β : Type} {next : α → Step β} (immediate : step.Immediate)
    (rest : ∀ value after, step.run before = (.ok value, after) →
      Leads (next value) after (fun _ _ => True) fun failure _ => station.Blames failure) :
    Leads (step >>= next) before (fun _ _ => True) fun failure _ => station.Blames failure :=
  .bind_run (blames_of_immediate immediate) rest

/-- A computation that does not touch the machine comes first. -/
theorem blames_ofExcept {β : Type} {result : Except Fault α} {next : α → Step β}
    (rest : ∀ value, result = .ok value →
      Leads (next value) before (fun _ _ => True) fun failure _ => station.Blames failure) :
    Leads (Step.ofExcept result >>= next) before (fun _ _ => True)
      fun failure _ => station.Blames failure := by
  refine blames_bind (.ofExcept result) fun value after ran => ?_
  cases result with
  | ok found =>
    cases ran
    exact rest _ rfl
  | error fault => cases ran

/-- A block of the instruction runs. -/
theorem blames_inside (block : station.block = instruction :: rest)
    (opens : station.Opens instruction entry) :
    Leads (station.enter entry).onward entry.machine (fun _ _ => True)
      fun failure _ => station.Blames failure := by
  rcases ran : (station.enter entry).onward.run entry.machine with ⟨failure | frame, after⟩
  · exact .of_error ran (.inr ⟨_, ⟨.inside block opens, rfl⟩, after, ran⟩)
  · exact .of_ok ran trivial

/-- A round of a loop runs. -/
theorem blames_round {body : List Instruction} {frame : Frame} {cell : Nat} {after : Machine}
    (block : station.block = instruction :: rest)
    (opens : station.Opens instruction ⟨[cell], body, frame, before⟩)
    (failed : (station.round body frame).run before = (.error failure, after)) :
    station.Blames failure := by
  unfold Station.round at failed
  rw [run_discard] at failed
  rcases ran : (runBlock station.environment station.refer body 0 frame).run before with
    ⟨fault | _, last⟩
  · rw [ran] at failed
    cases failed
    exact .inr ⟨_, ⟨.inside block opens, rfl⟩, _, ran⟩
  · rw [ran] at failed
    cases failed

/-- The rounds of a loop run. -/
theorem blames_rounds {test : Step Bool} {view : View} {body : List Instruction} {frame : Frame}
    {cell : Nat} {tests : Machine → Machine → Prop} {listed : Machine} (immediate : test.Immediate)
    (holds : ∀ before after, test.run before = (.ok true, after) → tests before after)
    (block : station.block = instruction :: rest)
    (opens : ∀ machine, Rounds tests (withProgress view (station.round body frame)) listed machine →
      station.Opens instruction ⟨[cell], body, frame, machine⟩) (fuel : Nat) :
    Leads (repeatWhile test (withProgress view (station.round body frame)) fuel) listed
      (fun _ _ => True) fun failure _ => station.Blames failure := by
  refine (repeatWhile_error immediate holds fuel (.inl rfl)).mono (fun _ _ _ => trivial) ?_
  rintro failure last (own | ⟨inner, after, rounds, failed⟩)
  · exact .inl own
  · rcases withProgress_error failed with own | ⟨after', failed'⟩
    · exact .inl own
    · exact blames_round block (opens inner rounds) failed'

/-- The message that the instruction refers to runs. -/
theorem blames_message {target : Target} {data : Register} {name : Json}
    {arguments : List Register} {view : View} {typeEntry : TypeEntry} {values : List Value}
    {message : MessageType}
    (block : station.block = .decodeReference target data name arguments :: rest)
    (targeted : station.frame.target target = .ok view)
    (required : station.environment.types.require name = .ok typeEntry)
    (read : station.frame.getMany arguments = .ok values)
    (entered : typeEntry.inPlace = .ok message) :
    Leads (station.refer message view values)
      (station.started (.decodeReference target data name arguments)) (fun _ _ => True)
      fun failure _ => station.Blames failure := by
  unfold refer
  cases deep : station.depth with
  | zero => exact .throw (.inl rfl)
  | succ depth =>
    refine blames_ofExcept fun frame bound => blames_ofExcept fun opened same => ?_
    cases same
    refine .bind_run ?_ fun inner last _ =>
      blames_of_immediate (.bind (.ofExcept _) fun _ => .ofExcept _)
    let next : Station :=
      { environment := ⟨message.program, message.visible station.environment.types,
          station.environment.mode, station.environment.config⟩
        depth := depth
        loops := []
        block := message.program.instructions
        index := 0
        frame := frame.bindReader view
        machine := station.started (.decodeReference target data name arguments) }
    have follows : station.Follows next :=
      .message block targeted required read entered deep rfl rfl ⟨frame, bound, rfl, rfl, rfl, rfl⟩
    rcases ran : next.onward.run next.machine with ⟨failure | inner, after⟩
    · exact .of_error ran (.inr ⟨next, ⟨follows, rfl⟩, after, ran⟩)
    · exact .of_ok ran trivial

end Blames

theorem newList_eq_ok {value : Value} {before after : Machine}
    (ran : newList.run before = (.ok value, after)) : ∃ cell, value = .list cell :=
  ⟨_, (Except.ok.inj (Prod.mk.inj ran).1).symm⟩

/-- **A loop fails by itself, or in one of its rounds.** -/
theorem blames_loop {target : Target} {stop terminator : Option Register} {output : Register}
    {body : List Instruction}
    (block : station.block = .loop target stop terminator output body :: rest) :
    Leads ((Instruction.loop target stop terminator output body).run station.environment
        station.refer station.frame)
      (station.started (.loop target stop terminator output body)) (fun _ _ => True)
      fun failure _ => station.Blames failure := by
  cases stop with
  | some stop =>
    cases terminator with
    | some terminator => exact .throw (.inl rfl)
    | none =>
      unfold Instruction.run
      refine blames_bind (.countIn _ _ _) fun count counted counts => ?_
      refine blames_bind .newList fun list listed lists => ?_
      obtain ⟨cell, rfl⟩ := newList_eq_ok lists
      refine blames_ofExcept fun frame written => ?_
      refine .bind_run ?_ fun _ _ _ => .pure trivial
      rcases ran : (repeatBody (station.round body (frame.child none [])) count).run listed with
        ⟨failure | _, last⟩
      · obtain ⟨done, within, machine, after, before, failed⟩ := repeatBody_error ran
        exact .of_error ran
          (blames_round block (.counted counts lists written within before) failed)
      · exact .of_ok ran trivial
  | none =>
    cases terminator with
    | some terminator =>
      unfold Instruction.run
      refine blames_ofExcept fun view targeted => blames_ofExcept fun value read => ?_
      refine blames_bind (.look fun _ _ => rfl) fun lists after looked => ?_
      cases looked
      refine blames_bind (.look fun _ _ => rfl) fun bound after looked => ?_
      cases looked
      refine blames_ofExcept fun ending ends => ?_
      split
      · exact .throw (.inl rfl)
      · refine blames_bind .newList fun list listed lists => ?_
        obtain ⟨cell, rfl⟩ := newList_eq_ok lists
        refine blames_ofExcept fun frame written => ?_
        refine .bind_run ?_ fun _ _ _ => .pure trivial
        rw [untilTerminator_eq]
        exact blames_rounds (.goesOn view ending) (fun _ _ => View.peeked_of_goesOn) block
          (fun _ => .terminated targeted read ends lists written) _
    | none =>
      unfold Instruction.run
      refine blames_ofExcept fun view targeted => ?_
      refine blames_bind (.onStreams _) fun content drained read => ?_
      refine blames_bind (.onStreams _) fun cursor opened opens => ?_
      refine blames_bind .newList fun list listed lists => ?_
      obtain ⟨cell, rfl⟩ := newList_eq_ok lists
      refine blames_ofExcept fun frame written => ?_
      refine .bind_run ?_ fun _ _ _ => .pure trivial
      rw [throughCursor_eq]
      refine blames_rounds (.hasMore cursor) (fun before after ran => ?_) block
        (fun _ => .throughout targeted read opens lists written) _
      obtain ⟨more, same⟩ := Prod.mk.inj ran
      exact ⟨Bool.not_eq_true' _ |>.mp (Except.ok.inj more), same.symm⟩

/-- **An instruction fails by itself, or as what it entered.** -/
theorem blames (block : station.block = instruction :: rest) :
    Leads (instruction.run station.environment station.refer station.frame)
      (station.started instruction) (fun _ _ => True) fun failure _ => station.Blames failure := by
  by_cases immediate : instruction.isImmediate = true
  · exact blames_of_immediate (instruction.run_immediate _ _ immediate _)
  cases instruction with
  | conditionalWrapStream condition prelude stream newStream transform arguments =>
    unfold Instruction.run
    refine blames_ofExcept fun view target => ?_
    refine blames_bind (.conditionHolds _ _) fun holds after ran => ?_
    cases holds with
    | false => exact blames_of_immediate (.ofExcept _)
    | true =>
      rw [if_pos rfl]
      refine .bind_run (blames_inside block (.prelude target ran)) fun inner last _ => ?_
      exact blames_of_immediate (.bind (.ofExcept _) fun _ => .bind (.onStreams _) fun _ =>
        .ofExcept _)
  | decodeReference target data typeName arguments =>
    unfold Instruction.run
    refine blames_ofExcept fun view targeted => blames_ofExcept fun entry required =>
      blames_ofExcept fun values read => blames_ofExcept fun message entered => ?_
    exact .bind_run (blames_message block targeted required read entered) fun _ _ _ =>
      blames_of_immediate (.ofExcept _)
  | loop target stop terminator output body => exact blames_loop block
  | conditional target interior condition body =>
    unfold Instruction.run
    refine blames_bind (.conditionHolds _ _) fun holds after ran => ?_
    cases holds with
    | false => exact blames_of_immediate (.ofExcept _)
    | true =>
      rw [if_pos rfl]
      refine .bind_run (blames_inside block (.conditional ran)) fun inner last _ => ?_
      exact blames_of_immediate (.bind (.ofExcept _) fun _ => .ofExcept _)
  | _ => exact absurd rfl immediate

/-! ### Blocks and runs -/

/-- **A path of a decode fault is an address.** The induction is on what every step of a run uses
up: the path of the rest of a block, or of what an instruction entered, is an address by hypothesis. -/
theorem Fails.addresses (failed : station.Fails failure) (decode : failure.fault.isDecode = true) :
    station.Addresses failure.path failure.fault := by
  induction station using ranked.induction generalizing failure with
  | _ station hypothesis =>
  obtain ⟨after, failed⟩ := failed
  cases block : station.block with
  | nil =>
    unfold onward at failed
    rw [block] at failed
    cases failed
  | cons instruction rest =>
    rw [onward_cons block, run_bind, Step.run_guarded] at failed
    rcases ran : (instruction.run station.environment station.refer station.frame).run
      (station.started instruction) with ⟨inner | frame, middle⟩
    · rw [ran] at failed
      obtain rfl : inner.within ⟨station.index, instruction.label⟩ = failure :=
        Except.error.inj (Prod.mk.inj failed).1
      have decodes : inner.fault.isDecode = true := by
        unfold Failure.within at decode
        split at decode <;> assumption
      unfold Failure.within
      rw [if_pos decodes]
      rcases (blames block).error ran with own | ⟨next, enters, fails⟩
      · have same : inner = ⟨inner.fault, []⟩ := by
          rw [← own]
        rw [own]
        refine .raised .refl block ⟨⟨middle, same ▸ ran⟩, fun next enters => ?_⟩
        -- What failed inside would have given the failure a place.
        refine (Completes.or_fails next).resolve_right ?_
        rintro ⟨deep, fails⟩
        obtain ⟨other, last, again, either⟩ := enters.fails block fails
        cases ran.symm.trans again
        rcases either with ⟨-, overruns⟩ | rfl
        · exact Fault.not_overruns_of_isDecode decodes overruns
        · exact (hypothesis next enters.1.decreases fails decodes).ne_nil own
      · exact .entered .refl block enters (hypothesis next enters.1.decreases fails decodes)
    · rw [ran] at failed
      have follows := Follows.later block ran
      exact (hypothesis _ follows.decreases ⟨after, failed⟩ decode).after ⟨follows, rfl⟩

/-- A station before a loop of more rounds than its stream has bytes to give. -/
def Overdrawn (station : Station) : Prop :=
  ∃ instruction rest, station.block = instruction :: rest ∧ station.Overspends instruction

/-- A failure goes up from where a run comes to, if it is not beyond a bound, and it keeps its fault
and its path, with places in front. -/
theorem Follows.fails (follows : station.Follows next) (failed : next.Fails failure) :
    ∃ failure', station.Fails failure' ∧ (station.Overdrawn ∧ failure'.fault.Overruns ∨
      failure'.fault = failure.fault ∧ failure.path <:+ failure'.path) := by
  have up : ∀ {instruction : Instruction} {rest : List Instruction},
      station.block = instruction :: rest → station.Enters next → ∃ failure',
        station.Fails failure' ∧ (station.Overdrawn ∧ failure'.fault.Overruns ∨
          failure'.fault = failure.fault ∧ failure.path <:+ failure'.path) := by
    intro instruction rest block enters
    obtain ⟨inner, after, ran, either⟩ := enters.fails block failed
    refine ⟨_, fails_of_run block ran, ?_⟩
    unfold Failure.within
    split
    · exact either.imp (And.imp_left fun spends => ⟨_, _, block, spends⟩)
        (by rintro rfl; exact ⟨rfl, List.suffix_cons _ _⟩)
    · exact either.imp (And.imp_left fun spends => ⟨_, _, block, spends⟩)
        (by rintro rfl; exact ⟨rfl, List.suffix_rfl⟩)
  cases follows with
  | later block ran =>
    obtain ⟨after, failed⟩ := failed
    refine ⟨failure, ⟨after, ?_⟩, .inr ⟨rfl, List.suffix_rfl⟩⟩
    rw [onward_cons block, run_bind, Step.run_guarded, ran]
    exact failed
  | inside block opens => exact up block ⟨.inside block opens, rfl⟩
  | message block targeted required read entered depth environment machine starts =>
    exact up block ⟨.message block targeted required read entered depth environment machine starts,
      starts.choose_spec.2.2.2.1⟩

theorem Fails.up (reached : Relation.ReflTransGen Follows station next)
    (failed : next.Fails failure) :
    ∃ failure', station.Fails failure' ∧ (failure'.fault.Overruns ∨
      failure'.fault = failure.fault ∧ failure.path <:+ failure'.path) := by
  induction reached using Relation.ReflTransGen.head_induction_on with
  | refl => exact ⟨failure, failed, .inr ⟨rfl, List.suffix_rfl⟩⟩
  | head follows _ hypothesis =>
    obtain ⟨middle, fails, either⟩ := hypothesis
    obtain ⟨last, ends, either'⟩ := follows.fails fails
    refine ⟨last, ends, ?_⟩
    rcases either' with ⟨-, overruns⟩ | ⟨same, suffix⟩
    · exact .inl overruns
    · rw [same]
      exact either.imp id fun ⟨same', suffix'⟩ => ⟨same', suffix'.trans suffix⟩

/-- Where no loop has more rounds than its stream has bytes, no failure on the way up is one of a
bound. -/
theorem Fails.up_within (reached : Relation.ReflTransGen Follows station next)
    (within : ∀ middle, Relation.ReflTransGen Follows station middle → ¬middle.Overdrawn)
    (failed : next.Fails failure) :
    ∃ failure', station.Fails failure' ∧
      failure'.fault = failure.fault ∧ failure.path <:+ failure'.path := by
  induction reached generalizing failure with
  | refl => exact ⟨failure, failed, rfl, List.suffix_rfl⟩
  | tail front follows hypothesis =>
    obtain ⟨middle, fails, either⟩ := follows.fails failed
    obtain ⟨same, suffix⟩ := either.resolve_left fun overran => within _ front overran.1
    obtain ⟨whole, ends, same', suffix'⟩ := hypothesis fails
    exact ⟨whole, ends, same'.trans same, suffix.trans suffix'⟩

/-! ### Loops that stand still -/

/-- **A loop that stands still:** after some whole rounds its body runs to the end and consumes
nothing of its stream. -/
def Stalls (station : Station) (instruction : Instruction) : Prop :=
  ∃ (loop : Loop) (count : Nat) (before tested after : Machine),
    station.Begins instruction loop ∧ loop.after count = some before ∧
      loop.test.run before = (.ok true, tested) ∧ loop.round.run tested = (.ok (), after) ∧
      loop.view.position after.streams = loop.view.position tested.streams

/-- A loop that stands still raises the fault by itself. -/
theorem Stalls.fails (block : station.block = instruction :: rest)
    (stalls : station.Stalls instruction) : ∃ failure, station.Fails failure ∧
      (station.Overspends instruction ∧ failure.fault.Overruns ∨
        failure = ⟨.decode .stalledLoop, [⟨station.index, instruction.label⟩]⟩) := by
  obtain ⟨loop, count, before, tested, after, begins, lapped, held, ran, same⟩ := stalls
  obtain ⟨fuel, enough, whole⟩ := begins.run
  obtain ⟨failure, last, looped, either⟩ :=
    repeatWhile_fails lapped held (loop.refused ran same) fuel
  refine ⟨_, fails_of_run block (whole.trans (run_bind_error looped)), ?_⟩
  rcases either with ⟨within, overruns⟩ | rfl
  · have spends : station.Overspends instruction :=
      ⟨loop, count, before, begins, lapped, Nat.lt_of_lt_of_le enough within⟩
    unfold Failure.within
    split
    · exact .inl ⟨spends, overruns⟩
    · exact .inl ⟨spends, overruns⟩
  · exact .inr rfl

end Station

/-! ### Paths without a run -/

/-- **What a path names in a program,** whatever runs: an instruction of a block by its index and
label; from there on one of a block inside of that instruction, or one of the message that it refers
to. -/
inductive Linked.Locates : Linked → List Instruction → List Site → Instruction → Prop
  | here {linked : Linked} {block : List Instruction} {index : Nat} {instruction : Instruction}
    (found : block[index]? = some instruction) :
    Locates linked block [⟨index, instruction.label⟩] instruction
  | inside {linked : Linked} {block inner : List Instruction} {index : Nat}
    {outer instruction : Instruction} {path : List Site} (found : block[index]? = some outer)
    (nested : inner ∈ outer.blocks) (further : Locates linked inner path instruction) :
    Locates linked block (⟨index, outer.label⟩ :: path) instruction
  | message {linked : Linked} {block : List Instruction} {index : Nat} {target : Target}
    {data : Register} {name : Json} {arguments : List Register} {message : MessageType}
    {instruction : Instruction} {path : List Site}
    (found : block[index]? = some (.decodeReference target data name arguments))
    (required : linked.types.require name = .ok (.message message))
    (further : Locates (.ofMessage message linked.types) message.program.instructions path
      instruction) :
    Locates linked block
      (⟨index, (Instruction.decodeReference target data name arguments).label⟩ :: path) instruction

namespace Station

variable {start station next : Station} {instruction : Instruction} {rest : List Instruction}

theorem Opens.mem_blocks {entry : Entry} (opens : station.Opens instruction entry) :
    entry.block ∈ instruction.blocks := by
  cases opens <;> exact List.mem_singleton_self _

/-- The next instruction of a block is one index further. -/
theorem Passes.block (passes : station.Passes next) : next.environment = station.environment ∧
    next.index = station.index + 1 ∧
      ∃ instruction, station.block = instruction :: next.block := by
  obtain ⟨follows, index⟩ := passes
  cases follows with
  | later block ran => exact ⟨rfl, rfl, _, block⟩
  | inside block opens => cases index
  | message block targeted required read entered depth environment machine starts =>
    obtain ⟨-, -, -, -, first, -⟩ := starts
    exact absurd (first.symm.trans index) (Nat.zero_ne_add_one _)

/-- What the run stands before is in the block, as far from the start as the run passed. -/
theorem found_of_passed (passed : Relation.ReflTransGen Passes start station)
    (first : start.index = 0) (block : station.block = instruction :: rest) :
    station.environment = start.environment ∧ start.block[station.index]? = some instruction := by
  have general : ∀ {station : Station}, Relation.ReflTransGen Passes start station →
      station.environment = start.environment ∧
        ∃ done, start.block = done ++ station.block ∧ station.index = done.length := by
    intro station passed
    induction passed with
    | refl => exact ⟨rfl, [], rfl, first⟩
    | tail _ passes hypothesis =>
      obtain ⟨same, done, whole, index⟩ := hypothesis
      obtain ⟨same', index', instruction, block⟩ := passes.block
      refine ⟨same'.trans same, done ++ [instruction], ?_, ?_⟩
      · rw [whole, block, List.append_assoc, List.singleton_append]
      · rw [index', index, List.length_append, List.length_singleton]
  obtain ⟨same, done, whole, index⟩ := general passed
  refine ⟨same, ?_⟩
  rw [whole, block, index, List.getElem?_append_right (Nat.le_refl _), Nat.sub_self]
  rfl

/-- **An address names an instruction** of the program also without the run. -/
theorem Addresses.locates {path : List Site} {fault : Fault} (addresses : start.Addresses path fault)
    (first : start.index = 0) : ∃ instruction,
      (Linked.mk start.environment.program start.environment.types).Locates start.block path
        instruction := by
  induction addresses with
  | raised passed block raises =>
    obtain ⟨-, found⟩ := found_of_passed passed first block
    exact ⟨_, .here found⟩
  | entered passed block enters further hypothesis =>
    obtain ⟨follows, index⟩ := enters
    obtain ⟨instruction, located⟩ := hypothesis index
    obtain ⟨same, found⟩ := found_of_passed passed first block
    cases follows with
    | later block' ran => cases index
    | inside block' opens =>
      cases block.symm.trans block'
      refine ⟨instruction, .inside found opens.mem_blocks ?_⟩
      rw [← same]
      exact located
    | message block' targeted required read entered depth environment machine starts =>
      cases block.symm.trans block'
      obtain ⟨-, -, -, -, -, instructions⟩ := starts
      obtain rfl := TypeEntry.inPlace_eq_ok entered
      rw [instructions, environment] at located
      refine ⟨instruction, .message found (same ▸ required) ?_⟩
      rw [← same]
      exact located

end Station

/-! ### Whole runs -/

section Undecoded

/-- A computation whose faults are none of the input. -/
abbrev Undecoded {α : Type} (result : Except Fault α) : Prop :=
  Ends result (fun _ => True) fun fault => fault.isDecode = false

theorem Ends.framed_undecoded {α : Type} {result : Except Fault α} (framed : Framed result) :
    Undecoded result :=
  framed.mono (fun _ holds => holds) fun _ => Fault.OfFrame.undecoded

theorem Program.outputRegister_undecoded (program : Program) : Undecoded program.outputRegister := by
  unfold Program.outputRegister
  split
  · trivial
  · rfl

theorem RunSource.open_undecoded (source : RunSource) (mode : String) :
    Undecoded (source.open? mode) := by
  unfold RunSource.open?
  split
  · rfl
  · trivial

end Undecoded

/-- A fault of the input comes from the block of the program. -/
theorem decode_fails_inside {environment : Environment} {refer : Referral}
    {opening : Except Fault View} {values : List Value} {machine after : Machine} {failure : Failure}
    (opens : Undecoded opening)
    (failed : (environment.decode refer opening values).run machine = (.error failure, after))
    (decode : failure.fault.isDecode = true) : ∃ view frame last, opening = .ok view ∧
      bindArguments environment.program values = .ok frame ∧
      (runBlock environment refer environment.program.instructions 0 (frame.bindReader view)).run
        machine = (.error failure, last) := by
  have undecoded : ∀ {α : Type} {result : Except Fault α} {next : α → Step Value}
      {before : Machine}, Undecoded result → (Step.ofExcept result >>= next).run before =
        (.error failure, after) → ∃ value, result = .ok value ∧
          (next value).run before = (.error failure, after) := by
    intro α result next before ends failed
    cases result with
    | ok value => exact ⟨value, rfl, failed⟩
    | error fault =>
      cases failed
      exact absurd (decode.symm.trans ends) (by decide)
  obtain ⟨frame, bound, failed⟩ :=
    undecoded (Ends.framed_undecoded (bindArguments_framed _ _)) failed
  obtain ⟨view, opened, failed⟩ := undecoded opens failed
  rw [run_bind] at failed
  rcases ran : (runBlock environment refer environment.program.instructions 0
    (frame.bindReader view)).run machine with ⟨fault | inner, last⟩
  · rw [ran] at failed
    cases failed
    exact ⟨view, frame, _, opened, bound, ran⟩
  · rw [ran] at failed
    obtain ⟨output, -, failed⟩ := undecoded (Program.outputRegister_undecoded _) failed
    have got := Ends.framed_undecoded (inner.get_framed output)
    rw [Step.run_ofExcept] at failed
    cases same : inner.get output with
    | ok value =>
      rw [same] at failed
      cases failed
    | error fault =>
      rw [same] at failed got
      cases failed
      exact absurd (decode.symm.trans got) (by decide)

/-- **The path of every decode fault is an address.** A run of any program over any source, in any
mode and with any settings, that fails for its input has a path that is not empty. It leads from the
start of the program to the instruction that raised the fault by itself; on the way every instruction
before a place had completed, and each place is inside of a block or of the message of the one before
it. The failure keeps the fault as it was raised. A loop that the run came to and whose body stood
still is that instruction. -/
theorem decode_addressed (environment : Environment) (source : RunSource) (values : List Value)
    (machine : Machine) (failure : Failure) (after : Machine)
    (failed : (decodeWith environment source values).run machine = (.error failure, after))
    (decode : failure.fault.isDecode = true) :
    failure.path ≠ [] ∧
      (∃ (view : View) (start : Station), source.open? environment.mode = .ok view ∧
        start.environment = environment ∧ start.depth = environment.types.length + nestingLimit ∧
        start.machine = machine ∧ start.Starts view values ∧
        start.Addresses failure.path failure.fault) ∧
      (∃ instruction, (Linked.mk environment.program environment.types).Locates
        environment.program.instructions failure.path instruction) ∧
      ∀ station, environment.Visits source values machine station →
        ∀ instruction rest, station.block = instruction :: rest → station.Stalls instruction →
          failure.fault = .decode .stalledLoop ∧
            failure.path.getLast? = some ⟨station.index, instruction.label⟩ := by
  obtain ⟨view, frame, last, opened, bound, ran⟩ :=
    decode_fails_inside (RunSource.open_undecoded source environment.mode) failed decode
  let start : Station :=
    { environment := environment
      depth := environment.types.length + nestingLimit
      loops := []
      block := environment.program.instructions
      index := 0
      frame := frame.bindReader view
      machine := machine }
  have starts : start.Starts view values := ⟨frame, bound, rfl, rfl, rfl, rfl⟩
  have fails : start.Fails failure := ⟨last, ran⟩
  have addresses := fails.addresses decode
  refine ⟨addresses.ne_nil, ⟨view, start, opened, rfl, rfl, rfl, starts, addresses⟩,
    addresses.locates rfl, ?_⟩
  rintro station ⟨view', start', opened', same, depth, machines, starts', reached⟩ instruction rest
    block stalls
  cases opened.symm.trans opened'
  obtain rfl : start' = start := starts.unique starts' same depth machines
  obtain ⟨stalled, here, either⟩ := stalls.fails block
  obtain ⟨whole, ⟨end', ended⟩, up⟩ := here.up reached
  obtain rfl : whole = failure := by
    cases ran.symm.trans ended
    rfl
  have calm := Fault.not_overruns_of_isDecode decode
  obtain ⟨fault, suffix⟩ := up.resolve_left calm
  rw [fault] at calm
  obtain rfl := either.resolve_left fun overran => calm overran.2
  obtain ⟨front, path⟩ := suffix
  refine ⟨fault, ?_⟩
  rw [← path, List.getLast?_append]
  rfl

/-! ### A packet that is cut off -/

/-- A number of packets, each with a number that is there only if a switch says so. -/
def packets : Environment where
  program := Examples.programOf 3
    [Examples.scalar 0 "u8",
      .loop .direct (some (Examples.register 0)) none (Examples.register 2)
        [.decodeReference .direct (Examples.register 1) "Packet" [],
          .loopOutput (Examples.register 2) (Examples.register 1)]]
  types := [("Packet", .message { name := "Packet", program := Examples.optionalNumber })]
  mode := "blocking"
  config := {}

/-- Two packets, of which the second one is cut off in its number. -/
def cutOffPacket : Machine where
  streams := (Streams.openSource {} .blocking ⟨[.bytes [2, 0, 1, 9, 9]], 0⟩).2

theorem decode_addressed_of_cutOffPacket :
    ∃ start : Station, start.block = packets.program.instructions ∧ start.machine = cutOffPacket ∧
      start.Addresses [⟨1, "Loop(r2)"⟩, ⟨0, "DecodeRef(r1)"⟩, ⟨1, "Conditional(r2)"⟩,
        ⟨0, "DecodePrimitive(r1)"⟩] (.decode (.shortRead 4 2)) := by
  obtain ⟨after, ran⟩ : ∃ after,
      (decodeWith packets ⟨.source .blocking 0, true⟩ []).run cutOffPacket =
        (.error ⟨.decode (.shortRead 4 2), [⟨1, "Loop(r2)"⟩, ⟨0, "DecodeRef(r1)"⟩,
          ⟨1, "Conditional(r2)"⟩, ⟨0, "DecodePrimitive(r1)"⟩]⟩, after) := ⟨_, rfl⟩
  obtain ⟨-, ⟨view, start, -, environment, -, machine, starts, addresses⟩, -⟩ :=
    decode_addressed packets ⟨.source .blocking 0, true⟩ [] cutOffPacket _ after ran rfl
  obtain ⟨-, -, -, -, -, block⟩ := starts
  exact ⟨start, by rw [block, environment], machine, addresses⟩

end WireProgram
