/-
**Which lists a run changes, and when.**

A run stands inside of some loops, those of the message and those of its callers. What it does from
there on, however it ends, changes no list that is there but those of these loops. The main definitions
and statements:

* `Station.last`, the machine at the end of what is left of a block, and `Station.Overran`;
* `Station.Around`, a station with the lists of all loops that are running there;
* `Station.Around.last`, what the rest of a run does to the lists.
-/

import WireProgram.Proofs.Address
import WireProgram.Proofs.Discipline.Visit

namespace WireProgram

theorem Failure.fault_within (failure : Failure) (site : Site) :
    (failure.within site).fault = failure.fault := by
  unfold within
  split <;> rfl

theorem Step.recorded_lists (config : Config) (depth : Nat) (site : Site) (failure : Failure)
    (machine : Machine) : (recorded config depth site failure machine).lists = machine.lists := by
  unfold recorded
  split <;> rfl

namespace Station

variable {start station next : Station} {instruction : Instruction} {rest : List Instruction}
  {entry : Entry} {strict : Prop} {running : List Nat} {cell : Nat}

/-! ### What is left of a block -/

/-- The machine at the end of what is left of the block. -/
def last (station : Station) : Machine :=
  (station.onward.run station.machine).2

/-- What is left of the block ends since a loop exceeds its bound. -/
def Overran (station : Station) : Prop :=
  ∃ failure, station.Fails failure ∧ failure.fault = .misuse .boundExceeded

/-- What is left of a block changes no list but those of the loops around it. -/
theorem Disciplined.onward (disciplined : station.Disciplined strict) (machine : Machine) :
    Spares strict station.loops (fun _ => True) station.onward machine := by
  obtain ⟨extent, scope, placeOf, passed, tracks⟩ := disciplined.followed
  exact (runBlock_sound station.block disciplined.sober scope placeOf station.index station.loops _
    machine passed tracks).mono fun _ _ => trivial

/-- **An instruction** changes no list that is there but those of the loops around it. -/
theorem Disciplined.run (disciplined : station.Disciplined strict)
    (block : station.block = instruction :: rest) :
    Spares strict station.loops (fun _ => True)
      (instruction.run station.environment station.refer station.frame)
      (station.started instruction) := by
  obtain ⟨extent, scope, place, -, passed, -, tracks⟩ := disciplined.checked block
  have sober := disciplined.sober
  rw [block] at sober
  exact (Instruction.run_sound instruction (fun part member =>
    sober part (List.mem_append_left _ member)) scope place _ _ _ passed tracks).mono
      fun _ _ => trivial

/-- After an instruction the block goes on as the rest of it. -/
theorem onward_later (block : station.block = instruction :: rest) {frame : Frame}
    {machine : Machine}
    (ran : (instruction.run station.environment station.refer station.frame).run
      (station.started instruction) = (.ok frame, machine)) :
    station.onward.run station.machine =
      (onward { station with
        block := rest, index := station.index + 1, frame := frame, machine := machine }).run
        machine := by
  rw [onward_cons block, run_bind, Step.run_guarded, ran]
  rfl

/-- An instruction that exceeds a bound ends the block. -/
theorem overran_of_run (block : station.block = instruction :: rest) {failure : Failure}
    {after : Machine}
    (ran : (instruction.run station.environment station.refer station.frame).run
      (station.started instruction) = (.error failure, after))
    (bound : failure.fault = .misuse .boundExceeded) : station.Overran :=
  ⟨_, fails_of_run block ran, (failure.fault_within _).trans bound⟩

/-- What is entered exceeds no bound that the instruction does not exceed. -/
theorem Enters.overran (enters : station.Enters next) (block : station.block = instruction :: rest)
    (overran : next.Overran) : station.Overran := by
  obtain ⟨failure, ⟨after, failed⟩, bound⟩ := overran
  rcases enters.resumes block with ⟨-, cut, ended⟩ | ⟨onwards, ran, -⟩
  · exact overran_of_run block ended rfl
  · exact overran_of_run block (ran.trans (run_bind_error failed)) bound

/-- An instruction goes on from what it entered by steps that change only the lists of the loops
around, unless it exceeds a bound. -/
theorem Enters.onwards (enters : station.Enters next) (block : station.block = instruction :: rest)
    (disciplined : station.Disciplined strict) :
    (∃ after, (instruction.run station.environment station.refer station.frame).run
        (station.started instruction) = (.error ⟨.misuse .boundExceeded, []⟩, after)) ∨
      ∃ onwards : Frame → Step Frame,
        (instruction.run station.environment station.refer station.frame).run
          (station.started instruction) = (next.onward >>= onwards).run next.machine ∧
        ∀ inner machine, Spares False (next.loops ++ station.loops) (fun _ => True)
          (onwards inner) machine :=
  (enters.resumes block).imp And.right fun ⟨onwards, ran, spares⟩ => ⟨onwards, ran,
    spares _ fun machine => ((enters.1.disciplined disciplined).onward machine).lax
      (List.subset_append_left _ _)⟩

/-- **What an instruction entered ends before the instruction does,** and from there on only the lists
of the loops around change. -/
theorem Enters.completes (enters : station.Enters next) (block : station.block = instruction :: rest)
    (disciplined : station.Disciplined strict) {frame : Frame} {machine : Machine}
    (ran : (instruction.run station.environment station.refer station.frame).run
      (station.started instruction) = (.ok frame, machine)) :
    next.Completes ∧ Lists.Kept (next.loops ++ station.loops) next.last.lists machine.lists := by
  rcases enters.onwards block disciplined with ⟨cut, ended⟩ | ⟨onwards, resumed, spares⟩
  · cases ended.symm.trans ran
  rcases ended : next.onward.run next.machine with ⟨failure | inner, middle⟩
  · cases ran.symm.trans (resumed.trans (run_bind_error ended))
  · have finished : (onwards inner).run middle = (.ok frame, machine) :=
      ((resumed.trans (run_bind_ok ended)).symm.trans ran)
    have same : next.last = middle := congrArg Prod.snd ended
    exact ⟨⟨inner, middle, ended⟩, same ▸ ((spares inner middle).ok finished).1⟩

/-- **After what an instruction entered** only the lists of the loops around that change. -/
theorem Enters.last (enters : station.Enters next) (block : station.block = instruction :: rest)
    (disciplined : station.Disciplined strict) :
    station.Overran ∨
      Lists.Kept (next.loops ++ station.loops) next.last.lists station.last.lists := by
  rcases ran : (instruction.run station.environment station.refer station.frame).run
    (station.started instruction) with ⟨failure | frame, after⟩
  · have failed : station.last.lists = after.lists := by
      unfold Station.last
      rw [onward_cons block, run_bind, Step.run_guarded, ran]
      exact Step.recorded_lists _ _ _ _ _
    rcases enters.onwards block disciplined with ⟨cut, ended⟩ | ⟨onwards, resumed, spares⟩
    · exact .inl (overran_of_run block ended rfl)
    refine .inr ?_
    rw [failed]
    rcases ended : next.onward.run next.machine with ⟨fault | inner, middle⟩
    · cases (ran.symm.trans (resumed.trans (run_bind_error ended)))
      rw [show next.last = after from congrArg Prod.snd ended]
      exact .refl _ _
    · have finished := (resumed.trans (run_bind_ok ended)).symm.trans ran
      rw [show next.last = middle from congrArg Prod.snd ended]
      exact ((spares inner middle).error finished).1
  · obtain ⟨-, kept⟩ := enters.completes block disciplined ran
    have later := (Follows.later block ran).disciplined disciplined
    refine .inr (kept.trans ?_)
    unfold Station.last
    rw [onward_later block ran]
    exact (later.onward after).kept.mono (List.subset_append_right _ _)

/-! ### One step -/

/-- A step goes to the next instruction, or into what the instruction enters. -/
theorem Follows.cases (follows : station.Follows next) :
    ∃ instruction rest, station.block = instruction :: rest ∧ (station.Enters next ∨
      ∃ frame machine, (instruction.run station.environment station.refer station.frame).run
        (station.started instruction) = (.ok frame, machine) ∧ next = { station with
          block := rest, index := station.index + 1, frame := frame, machine := machine }) := by
  cases follows with
  | later block ran => exact ⟨_, _, block, .inr ⟨_, _, ran, rfl⟩⟩
  | inside block opens => exact ⟨_, _, block, .inl ⟨.inside block opens, rfl⟩⟩
  | message block targeted required read entered depth environment machine starts =>
    exact ⟨_, _, block, .inl
      ⟨.message block targeted required read entered depth environment machine starts,
        starts.choose_spec.2.2.2.1⟩⟩

/-- No step exceeds a bound that the station before it does not exceed. -/
theorem Follows.overran (follows : station.Follows next) (overran : next.Overran) :
    station.Overran := by
  obtain ⟨instruction, rest, block, enters | ⟨frame, machine, ran, rfl⟩⟩ := follows.cases
  · exact enters.overran block overran
  · obtain ⟨failure, ⟨after, failed⟩, bound⟩ := overran
    exact ⟨failure, ⟨after, (onward_later block ran).trans failed⟩, bound⟩

/-- After a step and all that comes with it only the lists of the loops around change. -/
theorem Follows.last (follows : station.Follows next) (disciplined : station.Disciplined strict) :
    station.Overran ∨
      Lists.Kept (next.loops ++ station.loops) next.last.lists station.last.lists := by
  obtain ⟨instruction, rest, block, enters | ⟨frame, machine, ran, rfl⟩⟩ := follows.cases
  · exact enters.last block disciplined
  · refine .inr ?_
    rw [show station.last = _ from congrArg Prod.snd (onward_later block ran)]
    exact .refl _ _

/-- **A step** changes the lists of the loops around only, and every loop that it enters has a new
list. -/
theorem Follows.kept (follows : station.Follows next) (disciplined : station.Disciplined strict) :
    Lists.Kept station.loops station.machine.lists next.machine.lists ∧
      ∀ cell ∈ next.loops, cell ∈ station.loops ∨ station.machine.lists.size ≤ cell := by
  cases follows with
  | later block ran =>
    have kept := ((disciplined.run block).ok ran).1
    rw [started_lists] at kept
    exact ⟨kept, fun cell member => .inl member⟩
  | inside block opens =>
    obtain ⟨opened, -⟩ := opens.disciplined disciplined block
    refine ⟨opened.kept, fun cell member => ?_⟩
    rcases List.mem_append.mp member with own | around
    · exact .inr (opened.new cell own).1
    · exact .inl around
  | message block targeted required read entered depth environment machine starts =>
    obtain ⟨-, -, -, outside, -, -⟩ := starts
    rw [machine, started_lists, outside]
    exact ⟨.refl _ _, fun cell member => absurd member List.not_mem_nil⟩

/-! ### All loops that are running -/

/-- A station that a run comes to from a start, with the lists of all loops that are running there:
those of the message and those of the messages that refer to it. -/
inductive Around (start : Station) : List Nat → Station → Prop
  | start : Around start start.loops start
  | step {running : List Nat} {station next : Station} (around : Around start running station)
    (follows : station.Follows next) : Around start (next.loops ++ running) next

namespace Around

theorem follows (around : start.Around running station) :
    Relation.ReflTransGen Follows start station := by
  induction around with
  | start => exact .refl
  | step _ follows hypothesis => exact hypothesis.tail follows

theorem of_follows (follows : Relation.ReflTransGen Follows start station) :
    ∃ running, start.Around running station := by
  induction follows with
  | refl => exact ⟨_, .start⟩
  | tail _ step hypothesis =>
    obtain ⟨running, around⟩ := hypothesis
    exact ⟨_, around.step step⟩

theorem disciplined (around : start.Around running station)
    (disciplined : start.Disciplined strict) : station.Disciplined strict :=
  disciplined.visits around.follows

/-- The loops of the message are among those that are running. -/
theorem loops (around : start.Around running station) : station.loops ⊆ running := by
  cases around with
  | start => exact List.Subset.refl _
  | step => exact List.subset_append_left _ _

theorem overran (around : start.Around running station) (overran : station.Overran) :
    start.Overran := by
  induction around with
  | start => exact overran
  | step _ follows hypothesis => exact hypothesis (follows.overran overran)

/-- **Up to a station** a run changes no list that was there at its start but those of the loops
around the start; the lists of all other running loops are new. -/
theorem kept (around : start.Around running station) (disciplined : start.Disciplined strict) :
    Lists.Kept start.loops start.machine.lists station.machine.lists ∧ ∀ cell ∈ running,
      cell < station.machine.lists.size ∧
        (cell ∈ start.loops ∨ start.machine.lists.size ≤ cell) := by
  induction around with
  | start => exact ⟨.refl _ _, fun cell member => ⟨disciplined.held cell member, .inl member⟩⟩
  | @step running station next around follows hypothesis =>
    obtain ⟨kept, all⟩ := hypothesis
    have here := around.disciplined disciplined
    obtain ⟨more, new⟩ := follows.kept here
    constructor
    · refine ⟨Nat.le_trans kept.grown more.grown, fun cell inside free => ?_⟩
      rw [more.same cell (Nat.lt_of_lt_of_le inside kept.grown), kept.same cell inside free]
      intro member
      rcases (all cell (around.loops member)).2 with around | fresh
      · exact free around
      · omega
    · intro cell member
      rcases List.mem_append.mp member with own | member
      · refine ⟨(follows.disciplined here).held cell own, ?_⟩
        rcases new cell own with member | fresh
        · exact (all cell (around.loops member)).2
        · exact .inr (Nat.le_trans kept.grown fresh)
      · exact ⟨Nat.lt_of_lt_of_le (all cell member).1 more.grown, (all cell member).2⟩

/-- **From a station on** a run changes no list that is there but those of the running loops. -/
theorem last (around : start.Around running station) (disciplined : start.Disciplined strict) :
    start.Overran ∨ Lists.Kept running station.last.lists start.last.lists := by
  induction around with
  | start => exact .inr (.refl _ _)
  | @step running station next around follows hypothesis =>
    rcases hypothesis with overran | kept
    · exact .inl overran
    rcases follows.last (around.disciplined disciplined) with overran | first
    · exact .inl (around.overran overran)
    · have within : next.loops ++ station.loops ⊆ next.loops ++ running := fun cell member =>
        (List.mem_append.mp member).elim (List.mem_append_left _) fun outer =>
          List.mem_append_right _ (around.loops outer)
      exact .inr ((first.mono within).trans (kept.mono (List.subset_append_right _ _)))

end Around

end Station

end WireProgram
