/-
**The calls of the instructions that a run comes to.**

A run makes the calls of every instruction at every station that it comes to: a block goes on with each
of its instructions, an instruction with each of its blocks, a loop with each of its rounds, and a
reference with its message. Only a loop that ran out of its bound would not come to a round; where time
passes on every stream no loop does. The main statements:

* `Step.Performs.discard`, `Step.Performs.repeatBody` and `Step.Performs.repeatWhile`, the rounds of loops;
* `Station.Opens.performs` and `Station.Follows.performs`, one step of a run;
* `Environment.Visits.performs`, **all stations of a run**.
-/

import WireProgram.Proofs.Address
import WireProgram.Proofs.Call.Step

namespace WireProgram

/-! ### Rounds -/

namespace Step.Performs

variable {α β : Type} {call : StreamStep Codec α} {start : Streams Codec} {step : Step β}
  {body : Step Unit} {test : Step Bool} {before machine tested : Machine}

/-- A step whose value is dropped. -/
theorem discard (performs : step.Performs call start machine) :
    (Functor.discard step : Step Unit).Performs call start machine := by
  have same : (Functor.discard step : Step Unit) = step >>= fun _ => pure () := by
    funext machine
    show (Functor.discard step : Step Unit).run machine = (step >>= _).run machine
    rw [run_discard, run_bind]
    rcases step.run machine with ⟨_ | _, _⟩ <;> rfl
  rw [same]
  exact .first performs

theorem withProgress (view : View) (performs : body.Performs call start machine) :
    (withProgress view body).Performs call start machine :=
  .next (run_look _ _) (.first performs)

/-- A round of a loop with a count. -/
theorem repeatBody {done count : Nat}
    (ran : (WireProgram.repeatBody body done).run before = (.ok (), machine)) (within : done < count)
    (performs : body.Performs call start machine) :
    (WireProgram.repeatBody body count).Performs call start before := by
  obtain ⟨more, rfl⟩ := Nat.exists_eq_add_of_lt within
  induction done generalizing before with
  | zero =>
    cases ran
    rw [Nat.zero_add]
    exact .first performs
  | succ done hypothesis =>
    rw [WireProgram.repeatBody] at ran
    obtain ⟨_, middle, first, rest⟩ := run_bind_eq_ok ran
    rw [show done + 1 + more + 1 = done + more + 1 + 1 by omega]
    exact .next first (hypothesis rest (by omega))

/-- A round of a loop with a test. -/
theorem repeatWhile {count fuel : Nat} (lapped : laps test body count before = some machine)
    (held : test.run machine = (.ok true, tested)) (within : count < fuel)
    (performs : body.Performs call start tested) :
    (WireProgram.repeatWhile test body fuel).Performs call start before := by
  obtain ⟨more, rfl⟩ := Nat.exists_eq_add_of_lt within
  induction count generalizing before with
  | zero =>
    cases lapped
    rw [Nat.zero_add]
    exact .next held (.first performs)
  | succ count hypothesis =>
    obtain ⟨tried, ended, holds, ran, others⟩ := laps_succ lapped
    rw [show count + 1 + more + 1 = count + more + 1 + 1 by omega]
    exact .next holds (.next ran (hypothesis others (by omega)))

end Step.Performs

/-! ### One step -/

namespace Station

variable {γ α : Type} {regime : Regime γ} {record : γ} {station next : Station}
  {instruction : Instruction} {rest : List Instruction} {entry : Entry} {loop : Loop}
  {call : StreamStep Codec α} {start : Streams Codec}

/-- The run of the instruction that a run stands before. -/
def execution (station : Station) (instruction : Instruction) : Step Frame :=
  instruction.run station.environment station.refer station.frame

/-- A block makes the calls of its first instruction. -/
theorem onward_performs (block : station.block = instruction :: rest)
    (performs : (station.execution instruction).Performs call start (station.started instruction)) :
    station.onward.Performs call start station.machine := by
  unfold onward
  rw [block, runBlock]
  exact .next rfl (.first (.guarded performs))

/-- An instruction makes the calls of its loop. -/
theorem Begins.performs (begins : station.Begins instruction loop)
    (performs : ∀ fuel, loop.supply < fuel →
      (repeatWhile loop.test loop.body fuel).Performs call start loop.start) :
    (station.execution instruction).Performs call start (station.started instruction) := by
  cases begins with
  | @terminated target terminator output body view value ending cell frame listed targeted read ends
      filled lists written =>
    have enough := View.budget_le_weight
      (station.started (.loop target none (some terminator) output body)).streams view
    obtain rfl := (Prod.mk.inj lists).2
    have loops := performs _ (Nat.lt_succ_of_le enough)
    unfold execution Instruction.run
    refine .next (Step.run_ofExcept_ok targeted _) (.next (Step.run_ofExcept_ok read _)
      (.next (Step.run_look _ _) (.next (Step.run_look _ _)
        (.next (Step.run_ofExcept_ok ends _) ?_))))
    rw [if_neg fun empty => filled (List.isEmpty_iff.mp empty)]
    refine .next lists (.next (Step.run_ofExcept_ok written _) (.first ?_))
    rw [untilTerminator_eq]
    exact loops
  | @throughout target output body view cursor content cell frame drained opened listed targeted read
      opens lists written =>
    have loops := performs _ (Nat.lt_succ_self _)
    unfold execution Instruction.run
    refine .next (Step.run_ofExcept_ok targeted _) (.next read (.next opens (.next lists
      (.next (Step.run_ofExcept_ok written _) (.first ?_)))))
    rw [throughCursor_eq]
    exact loops

/-- An instruction makes the calls of a round of its loop. -/
theorem Begins.performs_round (begins : station.Begins instruction loop)
    (under : station.Under regime record) (advances : regime.Advances)
    (block : station.block = instruction :: rest) (same : entry = loop.entry entry.machine)
    {count : Nat} {before : Machine} (lapped : loop.after count = some before)
    (held : loop.test.run before = (.ok true, entry.machine))
    (performs : (station.enter entry).onward.Performs call start entry.machine) :
    (station.execution instruction).Performs call start (station.started instruction) := by
  obtain ⟨-, paid, supplied⟩ := begins.pays under advances block lapped
  refine begins.performs fun fuel enough => ?_
  refine .repeatWhile lapped held (Nat.lt_of_le_of_lt (Nat.le_trans paid supplied) enough) ?_
  refine .withProgress loop.view ?_
  rw [begins.round entry.machine, ← same]
  exact performs.discard

/-- **An instruction makes the calls of a block inside of it.** -/
theorem Opens.performs (opens : station.Opens instruction entry)
    (under : station.Under regime record) (advances : regime.Advances)
    (block : station.block = instruction :: rest)
    (performs : (station.enter entry).onward.Performs call start entry.machine) :
    (station.execution instruction).Performs call start (station.started instruction) := by
  cases opens with
  | prelude target holds =>
    unfold execution Instruction.run
    exact .next (Step.run_ofExcept_ok target _) (.next holds (.first performs))
  | conditional holds =>
    unfold execution Instruction.run
    exact .next holds (.first performs)
  | counted counts lists written within ran =>
    unfold execution Instruction.run
    exact .next counts (.next lists (.next (Step.run_ofExcept_ok written _)
      (.first (.repeatBody ran within performs.discard))))
  | terminated targeted read ends lists written rounds =>
    obtain ⟨loop, begins, same, count, before, lapped, held⟩ :=
      Opens.begun (.terminated targeted read ends lists written rounds)
    exact begins.performs_round under advances block same lapped held performs
  | throughout targeted read opens lists written rounds =>
    obtain ⟨loop, begins, same, count, before, lapped, held⟩ :=
      Opens.begun (.throughout targeted read opens lists written rounds)
    exact begins.performs_round under advances block same lapped held performs

/-- A program makes the calls of its block. -/
theorem Starts.performs {view : View} {values : List Value} {opening : Except Fault View}
    (starts : next.Starts view values) (opened : opening = .ok view)
    (performs : next.onward.Performs call start next.machine) :
    (next.environment.decode next.refer opening values).Performs call start next.machine := by
  obtain ⟨frame, bound, framed, -, index, block⟩ := starts
  unfold onward at performs
  rw [framed, index, block] at performs
  exact .next (Step.run_ofExcept_ok bound _) (.next (Step.run_ofExcept_ok opened _) (.first performs))

/-- **A run makes the calls of what comes next.** -/
theorem Follows.performs (follows : station.Follows next) (under : station.Under regime record)
    (advances : regime.Advances) (performs : next.onward.Performs call start next.machine) :
    station.onward.Performs call start station.machine := by
  cases follows with
  | @later instruction rest frame machine block ran =>
    have passed : (Step.guarded station.environment.config station.frame.depth
        ⟨station.index, instruction.label⟩ (station.execution instruction)).run
          (station.started instruction) = (.ok frame, machine) := by
      unfold execution
      rw [Step.run_guarded, ran]
    unfold onward
    rw [block, runBlock]
    exact .next rfl (.next passed performs)
  | inside block opens => exact onward_performs block (opens.performs under advances block performs)
  | @message target data name arguments rest view entry values message next block targeted required
      read entered depth environment machine starts =>
    refine onward_performs block ?_
    have decodes : (next.environment.decode next.refer (.ok view) values).Performs call start
        next.machine := starts.performs rfl performs
    unfold execution Instruction.run
    refine .next (Step.run_ofExcept_ok targeted _) (.next (Step.run_ofExcept_ok required _)
      (.next (Step.run_ofExcept_ok read _) (.next (Step.run_ofExcept_ok entered _) (.first ?_))))
    unfold refer at decodes ⊢
    rw [environment, machine] at decodes
    rw [depth]
    exact decodes

/-- All that a run comes to from a station. -/
theorem Under.performs (under : station.Under regime record) (advances : regime.Advances)
    (follows : Relation.ReflTransGen Follows station next)
    (performs : next.onward.Performs call start next.machine) :
    station.onward.Performs call start station.machine := by
  induction follows using Relation.ReflTransGen.head_induction_on generalizing record with
  | refl => exact performs
  | head step _ hypothesis =>
    obtain ⟨after, -, holds⟩ := step.under under
    exact step.performs under advances (hypothesis holds)

end Station

/-- **A run makes the calls of every instruction that it comes to.** -/
theorem Environment.Visits.performs {γ α : Type} {regime : Regime γ} {record : γ}
    {environment : Environment} {source : RunSource} {values : List Value} {machine : Machine}
    {station : Station} {instruction : Instruction} {rest : List Instruction}
    {call : StreamStep Codec α} {start : Streams Codec}
    (visits : environment.Visits source values machine station) (advances : regime.Advances)
    (peeks : regime.Peeks)
    (admitted : (Linked.mk environment.program environment.types).Throughout
      (Linked.Admitted regime.wraps))
    (shallow : regime.contract.tolerates (.misuse .nestingTooDeep) ∨
      (Linked.mk environment.program environment.types).Acyclic)
    (fits : regime.Fits (machine, record) source.view)
    (holds : ∀ value ∈ values, regime.Holds (machine, record) value)
    (block : station.block = instruction :: rest)
    (performs : (station.execution instruction).Performs call start (station.started instruction)) :
    (decodeWith environment source values).Performs call start machine := by
  obtain ⟨view, first, opened, rfl, depth, rfl, starts, follows⟩ := visits
  have under : first.Under regime record :=
    starts.under_source opened depth peeks admitted shallow fits holds
  have decodes := starts.performs opened
    (under.performs advances follows (Station.onward_performs block performs))
  unfold Station.refer at decodes
  rw [depth] at decodes
  exact decodes

end WireProgram
