/-
**The order of a run, and the lists that its loops make.**

A run takes the steps from a station one after another: it goes through the rounds of a loop in order,
and through all that an instruction enters before it comes to the next one. So of any two stations of a
run one is after the other, and the lists only grow. A loop that begins makes the first list that was
not there; therefore no two of them make the same one, and from its end on nothing changes its list.
The main definitions and statements:

* `Station.Precedes`, two steps from one station, and `Station.Follows.ordered`;
* `Station.Earlier`, `Station.Before` and `Station.before_total`, any two stations of a run;
* `Station.Collects`, the list that a loop makes, and `Station.Collects.lt_of_before`;
* `Station.Collects.settled`, a loop that has ended.
-/

import WireProgram.Proofs.History.Cells

namespace WireProgram

/-! ### Laps in order -/

section Laps

variable {test : Step Bool} {body : Step Unit} {start before after machine : Machine}

/-- A loop that went through some laps goes on with the next one. -/
theorem laps_resumes {count more : Nat} (lapped : laps test body count start = some before)
    (further : laps test body more start = some after) (fewer : count < more) :
    ∃ tested ended left, test.run before = (.ok true, tested) ∧ body.run tested = (.ok (), ended) ∧
      laps test body left ended = some after := by
  induction count generalizing start more with
  | zero =>
    cases lapped
    obtain ⟨rest, rfl⟩ : ∃ rest, more = rest + 1 := ⟨more - 1, by omega⟩
    obtain ⟨tested, ended, holds, ran, others⟩ := laps_succ further
    exact ⟨tested, ended, rest, holds, ran, others⟩
  | succ count hypothesis =>
    obtain ⟨rest, rfl⟩ : ∃ rest, more = rest + 1 := ⟨more - 1, by omega⟩
    obtain ⟨tested, ended, holds, ran, others⟩ := laps_succ lapped
    obtain ⟨tested', ended', holds', ran', others'⟩ := laps_succ further
    cases holds.symm.trans holds'
    cases ran.symm.trans ran'
    exact hypothesis others others' (by omega)

/-- Laps change the lists that the tests and the rounds change. -/
theorem laps_kept {loops : List Nat} {count : Nat}
    (tests : ∀ machine, Spares False loops (fun _ => True) test machine)
    (rounds : ∀ machine, Spares False loops (fun _ => True) body machine)
    (lapped : laps test body count start = some after) :
    Lists.Kept loops start.lists after.lists := by
  induction count generalizing start with
  | zero =>
    cases lapped
    exact .refl _ _
  | succ count hypothesis =>
    obtain ⟨tested, ended, holds, ran, others⟩ := laps_succ lapped
    exact (((tests _).ok holds).1.trans ((rounds _).ok ran).1).trans (hypothesis others)

end Laps

namespace Station

variable {start station first second one other : Station} {instruction : Instruction}
  {rest : List Instruction} {entry again : Entry} {strict : Prop} {cell : Nat}

/-! ### Two steps from one station -/

/-- Of two steps from a station the first is taken before the second: where it goes to, the block
completes, and from there on only the lists of the loops around change. -/
structure Precedes (station first second : Station) : Prop where
  completes : first.Completes
  kept : Lists.Kept (first.loops ++ station.loops) first.last.lists second.machine.lists
  around : second.loops ⊆ first.loops ++ station.loops

theorem Completes.not_overran (completes : station.Completes) : ¬station.Overran := by
  rintro ⟨failure, ⟨after, failed⟩, -⟩
  obtain ⟨frame, last, ended⟩ := completes
  cases ended.symm.trans failed

/-- A round that is followed by another one. -/
theorem precedes_of_round {between : Machine} (same : again.loops = entry.loops)
    (ran : (discard (station.enter entry).onward : Step Unit).run entry.machine = (.ok (), between))
    (kept : Lists.Kept (entry.loops ++ station.loops) between.lists again.machine.lists) :
    station.Precedes (station.enter entry) (station.enter again) := by
  rw [run_discard] at ran
  rcases ended : (station.enter entry).onward.run entry.machine with ⟨failure | frame, last⟩
  · rw [ended] at ran
    cases ran
  · rw [ended] at ran
    cases ran
    refine ⟨⟨frame, between, ended⟩, ?_, ?_⟩
    · rw [show (station.enter entry).last = between from congrArg Prod.snd ended]
      exact kept.mono (List.subset_append_left _ _)
    · show again.loops ++ station.loops ⊆ _
      rw [same]
      exact List.subset_append_left _ _

/-- **The rounds of a loop** are run one after another. -/
theorem Begins.ordered {loop : Loop} (begins : station.Begins instruction loop)
    (block : station.block = instruction :: rest) (disciplined : station.Disciplined strict)
    (opens : station.Opens instruction entry) (same : entry = loop.entry entry.machine)
    (same' : again = loop.entry again.machine) {count more : Nat} {before after : Machine}
    (lapped : loop.after count = some before)
    (held : loop.test.run before = (.ok true, entry.machine))
    (lapped' : loop.after more = some after)
    (held' : loop.test.run after = (.ok true, again.machine)) (fewer : count < more) :
    station.Precedes (station.enter entry) (station.enter again) := by
  obtain ⟨tested, ended, left, holds, ran, others⟩ := laps_resumes lapped lapped' fewer
  cases held.symm.trans holds
  have onward : loop.round = discard (station.enter entry).onward := by
    rw [begins.round entry.machine, ← same]
  have rounds : ∀ machine, Spares False (entry.loops ++ station.loops) (fun _ => True)
      loop.body machine := by
    intro machine
    have each := (opens.disciplined disciplined block).2.onward machine
    rw [Loop.body, onward]
    exact ((each.lax (List.Subset.refl _)).discard).withProgress loop.view
  have loops : again.loops = entry.loops := by
    rw [same, same']
    cases begins <;> rfl
  refine precedes_of_round loops (onward ▸ withProgress_ok ran) ?_
  exact (laps_kept begins.tests rounds others).trans ((begins.tests after).ok held').1

/-- **The blocks that one instruction opens** are run one after another. -/
theorem Opens.ordered (block : station.block = instruction :: rest)
    (disciplined : station.Disciplined strict) (opens : station.Opens instruction entry)
    (opens' : station.Opens instruction again) :
    entry = again ∨ station.Precedes (station.enter entry) (station.enter again) ∨
      station.Precedes (station.enter again) (station.enter entry) := by
  have begun : ∀ {loop : Loop}, station.Begins instruction loop →
      (entry = loop.entry entry.machine ∧ ∃ count before, loop.after count = some before ∧
        loop.test.run before = (.ok true, entry.machine)) →
      (again = loop.entry again.machine ∧ ∃ count before, loop.after count = some before ∧
        loop.test.run before = (.ok true, again.machine)) →
      entry = again ∨ station.Precedes (station.enter entry) (station.enter again) ∨
        station.Precedes (station.enter again) (station.enter entry) := by
    rintro loop begins ⟨same, count, before, lapped, held⟩ ⟨same', more, after, lapped', held'⟩
    rcases Nat.lt_trichotomy count more with fewer | rfl | fewer
    · exact .inr (.inl
        (begins.ordered block disciplined opens same same' lapped held lapped' held' fewer))
    · cases lapped.symm.trans lapped'
      have machines : entry.machine = again.machine := congrArg Prod.snd (held.symm.trans held')
      exact .inl (by rw [same, same', machines])
    · exact .inr (.inr
        (begins.ordered block disciplined opens' same' same lapped' held' lapped held fewer))
  cases opens with
  | prelude target holds =>
    cases opens' with
    | prelude target' holds' =>
      cases holds.symm.trans holds'
      exact .inl rfl
  | conditional holds =>
    cases opens' with
    | conditional holds' =>
      cases holds.symm.trans holds'
      exact .inl rfl
  | @counted target stop output body count cell frame before listed machine counts lists written
      done within ran =>
    cases opens' with
    | @counted _ _ _ _ count' cell' frame' before' listed' machine' counts' lists' written' done'
        within' ran' =>
      cases counts.symm.trans counts'
      cases lists.symm.trans lists'
      cases written.symm.trans written'
      have rounds : ∀ machine, Spares False ([cell] ++ station.loops) (fun _ => True)
          (station.round body (frame.child none [])) machine := fun inner =>
        ((((Opens.counted counts lists written within ran).disciplined disciplined block).2.onward
          inner).lax (List.Subset.refl _)).discard
      -- from one round to a later one the loop goes on with the rounds between them
      have earlier : ∀ {done more : Nat} {from' to' : Machine},
          (repeatBody (station.round body (frame.child none [])) done).run listed = (.ok (), from') →
          (repeatBody (station.round body (frame.child none [])) more).run listed = (.ok (), to') →
          done < more → station.Precedes
            (station.enter ⟨[cell], body, frame.child none [], from'⟩)
            (station.enter ⟨[cell], body, frame.child none [], to'⟩) := by
        intro done more from' to' ran ran' fewer
        obtain ⟨left, resumed⟩ := repeatBody_resumes ran fewer
        have both := resumed.symm.trans ran'
        rcases ended : (station.round body (frame.child none [])).run from' with ⟨failure | _, between⟩
        · cases (run_bind_error ended).symm.trans both
        · rw [run_bind_ok ended] at both
          exact precedes_of_round rfl ended ((Spares.repeatBody rounds left).ok both).1
      rcases Nat.lt_trichotomy done done' with fewer | rfl | fewer
      · exact .inr (.inl (earlier ran ran' fewer))
      · cases ran.symm.trans ran'
        exact .inl rfl
      · exact .inr (.inr (earlier ran' ran fewer))
  | terminated targeted read ends lists written rounds =>
    obtain ⟨loop, begins, known⟩ := Opens.begun (.terminated targeted read ends lists written rounds)
    obtain ⟨loop', begins', known'⟩ := Opens.begun opens'
    obtain rfl := begins.unique begins'
    exact begun begins known known'
  | throughout targeted read opens lists written rounds =>
    obtain ⟨loop, begins, known⟩ := Opens.begun (.throughout targeted read opens lists written rounds)
    obtain ⟨loop', begins', known'⟩ := Opens.begun opens'
    obtain rfl := begins.unique begins'
    exact begun begins known known'

/-- **Two steps from one station** are one step, or one is taken before the other. -/
theorem Follows.ordered (disciplined : station.Disciplined strict)
    (follows : station.Follows first) (follows' : station.Follows second) :
    first = second ∨ station.Precedes first second ∨ station.Precedes second first := by
  have entered : ∀ {entered later : Station} {instruction : Instruction} {rest : List Instruction},
      station.block = instruction :: rest → station.Enters entered →
      (∃ frame machine, (instruction.run station.environment station.refer station.frame).run
        (station.started instruction) = (.ok frame, machine) ∧ later = { station with
          block := rest, index := station.index + 1, frame := frame, machine := machine }) →
      station.Precedes entered later := by
    rintro entered later instruction rest block enters ⟨frame, machine, ran, rfl⟩
    obtain ⟨completes, kept⟩ := enters.completes block disciplined ran
    exact ⟨completes, kept, List.subset_append_right _ _⟩
  obtain ⟨instruction, rest, block, enters | goes⟩ := follows.cases
  · obtain ⟨_, _, block', enters' | goes'⟩ := follows'.cases
    · cases enters.1 with
      | later => exact absurd enters.2 (Nat.succ_ne_zero _)
      | inside same opens =>
        cases enters'.1 with
        | later => exact absurd enters'.2 (Nat.succ_ne_zero _)
        | inside same' opens' =>
          cases same.symm.trans same'
          rcases opens.ordered same disciplined opens' with rfl | precedes
          · exact .inl rfl
          · exact .inr precedes
        | message same' =>
          cases same.symm.trans same'
          cases opens
      | message same =>
        exact .inl (Follows.message_unique same follows' follows enters'.2 enters.2)
    · cases block.symm.trans block'
      exact .inr (.inl (entered block enters goes'))
  · obtain ⟨_, _, block', enters' | goes'⟩ := follows'.cases
    · cases block.symm.trans block'
      exact .inr (.inr (entered block enters' goes))
    · cases block.symm.trans block'
      obtain ⟨frame, machine, ran, rfl⟩ := goes
      obtain ⟨frame', machine', ran', rfl⟩ := goes'
      cases ran.symm.trans ran'
      exact .inl rfl

/-! ### Two stations of a run -/

/-- **A run comes to one station before another one,** on its way through what the first of two steps
goes to. -/
inductive Earlier (start one other : Station) : Prop
  | intro {station first second : Station} (reached : Relation.ReflTransGen Follows start station)
    (follows : station.Follows first) (follows' : station.Follows second)
    (precedes : station.Precedes first second) (before : Relation.ReflTransGen Follows first one)
    (after : Relation.ReflTransGen Follows second other)

theorem Earlier.head (earlier : first.Earlier one other) (follows : start.Follows first) :
    start.Earlier one other := by
  obtain ⟨reached, here, there, precedes, before, after⟩ := earlier
  exact ⟨.head follows reached, here, there, precedes, before, after⟩

/-- **Of any two stations of a run** one is on the way to the other, or the run comes to one of them
before the other. -/
theorem ordered (disciplined : start.Disciplined strict)
    (reaches : Relation.ReflTransGen Follows start one)
    (reaches' : Relation.ReflTransGen Follows start other) :
    Relation.ReflTransGen Follows one other ∨ Relation.ReflTransGen Follows other one ∨
      start.Earlier one other ∨ start.Earlier other one := by
  induction reaches using Relation.ReflTransGen.head_induction_on with
  | refl => exact .inl reaches'
  | @head start first follows more hypothesis =>
    rcases Relation.ReflTransGen.cases_head reaches' with rfl | ⟨second, follows', more'⟩
    · exact .inr (.inl (.head follows more))
    rcases follows.ordered disciplined follows' with rfl | precedes | precedes
    · rcases hypothesis (follows.disciplined disciplined) more' with on | back | earlier | earlier
      · exact .inl on
      · exact .inr (.inl back)
      · exact .inr (.inr (.inl (earlier.head follows)))
      · exact .inr (.inr (.inr (earlier.head follows)))
    · exact .inr (.inr (.inl ⟨.refl, follows, follows', precedes, more, more'⟩))
    · exact .inr (.inr (.inr ⟨.refl, follows', follows, precedes, more', more⟩))

/-- **A run is at one station before another one**: the other one is further on its way, or the run comes
to it later. -/
def Before (start one other : Station) : Prop :=
  Relation.TransGen Follows one other ∨ start.Earlier one other

/-- Any two stations of a run are one, or one is before the other. -/
theorem before_total (disciplined : start.Disciplined strict)
    (reaches : Relation.ReflTransGen Follows start one)
    (reaches' : Relation.ReflTransGen Follows start other) :
    one = other ∨ start.Before one other ∨ start.Before other one := by
  rcases ordered disciplined reaches reaches' with on | back | earlier | earlier
  · exact (Relation.reflTransGen_iff_eq_or_transGen.mp on).imp Eq.symm fun on => .inl (.inl on)
  · exact (Relation.reflTransGen_iff_eq_or_transGen.mp back).imp id fun back => .inr (.inl back)
  · exact .inr (.inl (.inr earlier))
  · exact .inr (.inr (.inr earlier))

/-- On its way a run only makes lists. -/
theorem Disciplined.grown (disciplined : start.Disciplined strict)
    (reaches : Relation.ReflTransGen Follows start station) :
    start.machine.lists.size ≤ station.machine.lists.size := by
  obtain ⟨running, around⟩ := Around.of_follows reaches
  exact (around.kept disciplined).1.grown

/-- What is left of the block at the earlier station exceeds no bound. -/
theorem Earlier.not_overran (earlier : start.Earlier one other) : ¬one.Overran := by
  obtain ⟨reached, follows, follows', precedes, before, after⟩ := earlier
  obtain ⟨running, around⟩ := Around.of_follows before
  exact fun overran => precedes.completes.not_overran (around.overran overran)

/-- When the run comes to the later station, all lists are there with which what is left of the block
at the earlier one ended. -/
theorem Earlier.grown (earlier : start.Earlier one other) (disciplined : start.Disciplined strict) :
    one.last.lists.size ≤ other.machine.lists.size := by
  obtain ⟨reached, follows, follows', precedes, before, after⟩ := earlier
  have here := disciplined.visits reached
  obtain ⟨running, around⟩ := Around.of_follows before
  rcases around.last (follows.disciplined here) with overran | kept
  · exact absurd overran precedes.completes.not_overran
  · exact kept.grown.trans (precedes.kept.grown.trans ((follows'.disciplined here).grown after))

/-! ### The list of a loop -/

/-- The loop that a run stands before comes to its rounds, if there are any, and makes its list in a
cell. -/
inductive Collects (station : Station) : Instruction → Nat → Prop
  | counted {target : Target} {stop output : Register} {body : List Instruction} {count cell : Nat}
    {frame : Frame} {before listed : Machine}
    (counts : (countIn station.frame "loop count" stop).run
      (station.started (.loop target (some stop) none output body)) = (.ok count, before))
    (lists : newList.run before = (.ok (.list cell), listed))
    (written : station.frame.set output (.list cell) = .ok frame) :
    Collects station (.loop target (some stop) none output body) cell
  | begun {instruction : Instruction} {loop : Loop} {cell : Nat}
    (begins : station.Begins instruction loop)
    (own : (loop.entry loop.start).loops = [cell]) : Collects station instruction cell

/-- A run is in one of the rounds of a loop, which collects its items in the list of a cell. -/
inductive Executing (loop : Station) (cell : Nat) (station : Station) : Prop
  | intro {instruction : Instruction} {rest : List Instruction} {entry : Entry}
    (block : loop.block = instruction :: rest) (collects : loop.Collects instruction cell)
    (opens : loop.Opens instruction entry)
    (reaches : Relation.ReflTransGen Follows (loop.enter entry) station)

theorem newList_cell {before listed : Machine} {cell : Nat}
    (lists : newList.run before = (.ok (.list cell), listed)) :
    cell = before.lists.size ∧ listed.lists.size = before.lists.size + 1 := by
  obtain ⟨same, rfl⟩ := Prod.mk.inj lists
  cases same
  exact ⟨rfl, Table.size_push _ _⟩

theorem countIn_machine {frame : Frame} {what : String} {register : Register} {count : Nat}
    {before after : Machine}
    (counts : (countIn frame what register).run before = (.ok count, after)) : after = before := by
  unfold countIn at counts
  rw [run_bind] at counts
  cases read : frame.get register with
  | error fault =>
    rw [read] at counts
    cases counts
  | ok value =>
    rw [read] at counts
    exact (congrArg Prod.snd counts).symm

/-- A loop without a count starts with its list made. -/
theorem Begins.listed {loop : Loop} (begins : station.Begins instruction loop) :
    (loop.entry loop.start).loops = [station.machine.lists.size] ∧
      loop.start.lists.size = station.machine.lists.size + 1 := by
  cases begins with
  | terminated targeted read ends filled lists written =>
    obtain ⟨rfl, grown⟩ := newList_cell lists
    rw [started_lists] at grown ⊢
    exact ⟨rfl, grown⟩
  | throughout targeted read opens lists written =>
    obtain ⟨rfl, grown⟩ := newList_cell lists
    rw [Step.lists_of_onStreams opens, Step.lists_of_onStreams read, started_lists] at grown ⊢
    exact ⟨rfl, grown⟩

theorem Begins.entry_machine {loop : Loop} (begins : station.Begins instruction loop)
    (machine : Machine) : (loop.entry machine).machine = machine := by
  cases begins <;> rfl

/-- A loop without a count opens its first round if its first test holds. -/
theorem Begins.opens {loop : Loop} (begins : station.Begins instruction loop) {machine : Machine}
    (holds : loop.test.run loop.start = (.ok true, machine)) :
    station.Opens instruction (loop.entry machine) := by
  cases begins with
  | terminated targeted read ends filled lists written =>
    exact .terminated targeted read ends lists written (.first (View.peeked_of_goesOn holds))
  | throughout targeted read opens lists written =>
    obtain ⟨more, same⟩ := Prod.mk.inj holds
    exact .throughout targeted read opens lists written
      (.first ⟨Bool.not_eq_true' _ |>.mp (Except.ok.inj more), same.symm⟩)

/-- All rounds of a loop have the first list that was not there before it. -/
theorem Opens.loops_eq {target : Target} {stop terminator : Option Register} {output : Register}
    {body : List Instruction} (opens : station.Opens (.loop target stop terminator output body) entry) :
    entry.loops = [station.machine.lists.size] := by
  cases opens with
  | counted counts lists written within ran =>
    rw [(newList_cell lists).1, countIn_machine counts, started_lists]
  | terminated targeted read ends lists written rounds =>
    rw [(newList_cell lists).1, started_lists]
  | throughout targeted read opens lists written rounds =>
    rw [(newList_cell lists).1, Step.lists_of_onStreams opens, Step.lists_of_onStreams read,
      started_lists]

namespace Collects

variable {next : Station}

theorem isLoop (collects : station.Collects instruction cell) :
    ∃ target stop terminator output body, instruction = .loop target stop terminator output body := by
  cases collects with
  | counted => exact ⟨_, _, _, _, _, rfl⟩
  | begun begins => cases begins <;> exact ⟨_, _, _, _, _, rfl⟩

/-- A loop makes the first list that is not there. -/
theorem cell_eq (collects : station.Collects instruction cell) :
    cell = station.machine.lists.size := by
  cases collects with
  | counted counts lists written =>
    rw [(newList_cell lists).1, countIn_machine counts, started_lists]
  | begun begins own => exact (List.singleton_inj.mp (own.symm.trans begins.listed.1))

/-- A loop comes to its first round with its list made, or ends with it. -/
theorem starts (collects : station.Collects instruction cell) :
    (∃ entry, station.Opens instruction entry ∧
        station.machine.lists.size < entry.machine.lists.size) ∨
      station.machine.lists.size < ((instruction.run station.environment station.refer
        station.frame).run (station.started instruction)).2.lists.size := by
  cases collects with
  | @counted target stop output body count cell frame before listed counts lists written =>
    obtain ⟨-, grown⟩ := newList_cell lists
    rw [countIn_machine counts, started_lists] at grown
    cases count with
    | zero =>
      refine .inr ?_
      unfold Instruction.run
      rw [run_bind_ok counts, run_bind_ok lists, run_bind_ok (Step.run_ofExcept_ok written _)]
      show _ < listed.lists.size
      omega
    | succ count =>
      refine .inl ⟨_, .counted counts lists written (Nat.succ_pos count) rfl, ?_⟩
      show _ < listed.lists.size
      omega
  | @begun _ loop _ begins own =>
    obtain ⟨-, grown⟩ := begins.listed
    obtain ⟨fuel, -, ran⟩ := begins.run
    have test : Spares False [] (fun _ => True) loop.test loop.start := begins.tests _
    cases fuel with
    | zero =>
      refine .inr ?_
      rw [ran]
      show _ < loop.start.lists.size
      omega
    | succ fuel =>
      rw [ran, run_bind, repeatWhile]
      rcases tested : loop.test.run loop.start with ⟨failure | goesOn, machine⟩
      · refine .inr ?_
        have kept := (test.error tested).1.grown
        rw [run_bind_error tested]
        show _ < machine.lists.size
        omega
      · have kept := (test.ok tested).1.grown
        cases goesOn with
        | true =>
          refine .inl ⟨_, begins.opens tested, ?_⟩
          rw [begins.entry_machine]
          omega
        | false =>
          refine .inr ?_
          rw [run_bind_ok tested]
          show _ < machine.lists.size
          omega

/-- What is left of a block that starts with a loop makes a list, unless it exceeds a bound. -/
theorem grows (collects : station.Collects instruction cell)
    (block : station.block = instruction :: rest) (disciplined : station.Disciplined strict) :
    station.Overran ∨ station.machine.lists.size < station.last.lists.size := by
  rcases collects.starts with ⟨entry, opens, made⟩ | made
  · have inside := (opens.disciplined disciplined block).2
    rcases Enters.last ⟨.inside block opens, rfl⟩ block disciplined with overran | kept
    · exact .inl overran
    · exact .inr (Nat.lt_of_lt_of_le made ((inside.onward _).kept.grown.trans kept.grown))
  · refine .inr ?_
    unfold Station.last
    rcases ran : (instruction.run station.environment station.refer station.frame).run
      (station.started instruction) with ⟨failure | frame, after⟩
    · rw [ran] at made
      rw [onward_cons block, run_bind, Step.run_guarded, ran]
      show _ < (Step.recorded _ _ _ _ _).lists.size
      rw [Step.recorded_lists]
      exact made
    · rw [ran] at made
      have later := (Follows.later block ran).disciplined disciplined
      rw [onward_later block ran]
      exact Nat.lt_of_lt_of_le made (later.onward after).kept.grown

/-- After a step from a loop its list is there. -/
theorem follows (collects : station.Collects instruction cell)
    (block : station.block = instruction :: rest) (disciplined : station.Disciplined strict)
    (follows : station.Follows next) : station.machine.lists.size < next.machine.lists.size := by
  obtain ⟨target, stop, terminator, output, body, rfl⟩ := collects.isLoop
  cases follows with
  | later same ran =>
    cases block.symm.trans same
    rcases collects.starts with ⟨entry, opens, made⟩ | made
    · have inside := (opens.disciplined disciplined block).2
      obtain ⟨-, kept⟩ := Enters.completes ⟨.inside block opens, rfl⟩ block disciplined ran
      exact Nat.lt_of_lt_of_le made ((inside.onward _).kept.grown.trans kept.grown)
    · rwa [ran] at made
  | inside same opens =>
    cases block.symm.trans same
    obtain ⟨opened, -⟩ := opens.disciplined disciplined block
    have own := List.mem_singleton_self station.machine.lists.size
    rw [← opens.loops_eq] at own
    exact (opened.new _ own).2
  | message same => cases block.symm.trans same

/-- **A loop that begins later makes a later list,** so that no two of them make the same one. -/
theorem lt_of_before {instruction' : Instruction} {cell' : Nat}
    (disciplined : start.Disciplined strict) (reaches : Relation.ReflTransGen Follows start one)
    (block : one.block = instruction :: rest) (collects : one.Collects instruction cell)
    (collects' : other.Collects instruction' cell') (before : start.Before one other) :
    cell < cell' := by
  have here := disciplined.visits reaches
  rw [collects.cell_eq, collects'.cell_eq]
  rcases before with on | earlier
  · obtain ⟨next, follows, more⟩ := Relation.TransGen.head'_iff.mp on
    exact Nat.lt_of_lt_of_le (collects.follows block here follows)
      ((follows.disciplined here).grown more)
  · rcases collects.grows block here with overran | made
    · exact absurd overran earlier.not_overran
    · exact Nat.lt_of_lt_of_le made (earlier.grown disciplined)

/-- Every round of a loop is one of a loop that makes a list. -/
theorem of_opens {target : Target} {stop terminator : Option Register} {output : Register}
    {body : List Instruction} (opens : station.Opens (.loop target stop terminator output body) entry) :
    station.Collects (.loop target stop terminator output body) station.machine.lists.size := by
  have begun : ∀ {terminator : Option Register},
      station.Opens (.loop target none terminator output body) entry →
        station.Collects (.loop target none terminator output body) station.machine.lists.size := by
    intro terminator opens
    obtain ⟨loop, begins, -⟩ := Opens.begun opens
    exact .begun begins begins.listed.1
  cases opens with
  | counted counts lists written within ran =>
    obtain rfl := (newList_cell lists).1
    have made := countIn_machine counts
    rw [← started_lists, ← made]
    exact .counted counts lists written
  | terminated targeted read ends lists written rounds =>
    exact begun (.terminated targeted read ends lists written rounds)
  | throughout targeted read opens lists written rounds =>
    exact begun (.throughout targeted read opens lists written rounds)

/-- A loop that ends leaves the list that it made in its register. -/
theorem of_run {target : Target} {stop terminator : Option Register} {output : Register}
    {body : List Instruction} :
    Leads ((Instruction.loop target stop terminator output body).run station.environment
        station.refer station.frame)
      (station.started (.loop target stop terminator output body))
      (fun frame _ => ∃ cell, station.Collects (.loop target stop terminator output body) cell ∧
        frame.get output = .ok (.list cell)) fun _ _ => True := by
  have any : ∀ {α : Type} (step : Step α) (before : Machine),
      Leads step before (fun _ _ => True) fun _ _ => True := by
    intro α step before
    rcases ran : step.run before with ⟨_ | _, _⟩
    · exact .of_error ran trivial
    · exact .of_ok ran trivial
  have computed : ∀ {α β : Type} {result : Except Fault α} {next : α → Step β} {before : Machine}
      {good : β → Machine → Prop},
      (∀ value, result = .ok value → Leads (next value) before good fun _ _ => True) →
        Leads (Step.ofExcept result >>= next) before good fun _ _ => True := by
    intro α β result next before good rest
    refine .bind_run (any _ _) fun value after ran => ?_
    cases result with
    | ok found =>
      cases ran
      exact rest _ rfl
    | error fault => cases ran
  cases stop with
  | some stop =>
    cases terminator with
    | some terminator => exact .throw trivial
    | none =>
      unfold Instruction.run
      refine .bind_run (any _ _) fun count counted counts => ?_
      refine .bind_run (any _ _) fun list listed lists => ?_
      obtain ⟨cell, rfl⟩ := newList_eq_ok lists
      refine computed fun frame written => ?_
      refine .bind_run (any _ _) fun _ last _ => .pure ?_
      exact ⟨cell, .counted counts lists written, Frame.get_set written⟩
  | none =>
    cases terminator with
    | some terminator =>
      unfold Instruction.run
      refine computed fun view targeted => computed fun value read => ?_
      refine .bind_run (any _ _) fun lists after looked => ?_
      cases looked
      refine .bind_run (any _ _) fun bound after looked => ?_
      cases looked
      refine computed fun ending ends => ?_
      split
      · exact .throw trivial
      · rename_i filled
        refine .bind_run (any _ _) fun list listed lists => ?_
        obtain ⟨cell, rfl⟩ := newList_eq_ok lists
        refine computed fun frame written => ?_
        refine .bind_run (any _ _) fun _ last _ => .pure ?_
        have more : ending ≠ [] := fun empty => filled (List.isEmpty_iff.mpr empty)
        exact ⟨cell, .begun (.terminated targeted read ends more lists written) rfl,
          Frame.get_set written⟩
    | none =>
      unfold Instruction.run
      refine computed fun view targeted => ?_
      refine .bind_run (any _ _) fun content drained read => ?_
      refine .bind_run (any _ _) fun cursor opened opens => ?_
      refine .bind_run (any _ _) fun list listed lists => ?_
      obtain ⟨cell, rfl⟩ := newList_eq_ok lists
      refine computed fun frame written => ?_
      refine .bind_run (any _ _) fun _ last _ => .pure ?_
      exact ⟨cell, .begun (.throughout targeted read opens lists written) rfl, Frame.get_set written⟩

section Settled

variable {frame : Frame} {machine : Machine}

/-- A loop that has ended leaves its list to the end, unless something exceeds a bound. -/
theorem last (disciplined : start.Disciplined strict)
    (reaches : Relation.ReflTransGen Follows start one) (block : one.block = instruction :: rest)
    (collects : one.Collects instruction cell)
    (ran : (instruction.run one.environment one.refer one.frame).run (one.started instruction) =
      (.ok frame, machine)) :
    start.Overran ∨ cell < start.last.lists.size ∧
      start.last.lists.get cell = machine.lists.get cell := by
  obtain ⟨running, around⟩ := Around.of_follows reaches
  have here := disciplined.visits reaches
  have later := Follows.later block ran
  have made : cell < machine.lists.size := collects.cell_eq ▸ collects.follows block here later
  -- all loops around began before this one
  have free : ∀ other ∈ running, other ≠ cell := by
    intro other member same
    have before := ((around.kept disciplined).2 other member).1
    have fresh := collects.cell_eq
    omega
  have outside : cell ∉ one.loops := fun member => free cell (around.loops member) rfl
  have onward := ((later.disciplined here).onward machine).kept
  rcases (around.step later).last disciplined with overran | kept
  · exact .inl overran
  · have sooner := onward.same cell made outside
    have grown := Nat.lt_of_lt_of_le made onward.grown
    have after := kept.same cell grown fun member => (List.mem_append.mp member).elim outside
      fun member => free cell member rfl
    exact .inr ⟨Nat.lt_of_lt_of_le grown kept.grown, after.trans sooner⟩

/-- **From its end on nothing changes the list of a loop.** A run is at a station before the loop makes
its list, in one of the rounds of the loop, or it finds in the list what the loop left there. -/
theorem settled (disciplined : start.Disciplined strict)
    (reaches : Relation.ReflTransGen Follows start one) (block : one.block = instruction :: rest)
    (collects : one.Collects instruction cell)
    (ran : (instruction.run one.environment one.refer one.frame).run (one.started instruction) =
      (.ok frame, machine))
    (reaches' : Relation.ReflTransGen Follows start other) :
    other.machine.lists.size ≤ cell ∨
      one.Executing cell other ∨ other.machine.lists.get cell = machine.lists.get cell := by
  have here := disciplined.visits reaches
  have fresh := collects.cell_eq
  rcases ordered disciplined reaches reaches' with on | back | earlier | earlier
  · rcases Relation.ReflTransGen.cases_head on with rfl | ⟨next, follows, more⟩
    · exact .inl (Nat.le_of_eq fresh.symm)
    cases follows with
    | later same ran' =>
      cases block.symm.trans same
      cases ran.symm.trans ran'
      have later := Follows.later block ran
      obtain ⟨running, around⟩ := Around.of_follows more
      have outside : cell ∉ one.loops := fun member =>
        absurd (here.held cell member) (by omega)
      have made := collects.follows block here later
      exact .inr (.inr ((around.kept (later.disciplined here)).1.same cell (fresh ▸ made) outside))
    | inside same opens =>
      cases block.symm.trans same
      exact .inr (.inl ⟨block, collects, opens, more⟩)
    | message same =>
      obtain ⟨target, stop, terminator, output, body, rfl⟩ := collects.isLoop
      cases block.symm.trans same
  · have grown := (disciplined.visits reaches').grown back
    exact .inl (by omega)
  · cases earlier with
    | @intro station first second reached follows follows' precedes before after =>
    have there := disciplined.visits reached
    have within := follows.disciplined there
    have stepped := there.grown (.single follows)
    have begun := within.grown before
    rcases last within before block collects ran with overran | ⟨inside, left⟩
    · exact absurd overran precedes.completes.not_overran
    have outside : cell ∉ first.loops ++ station.loops := by
      intro member
      rcases List.mem_append.mp member with member | member
      · exact absurd (within.held cell member) (by omega)
      · exact absurd (there.held cell member) (by omega)
    obtain ⟨running, around⟩ := Around.of_follows after
    have between := precedes.kept.same cell inside outside
    have beyond := (around.kept (follows'.disciplined there)).1.same cell
      (Nat.lt_of_lt_of_le inside precedes.kept.grown) fun member =>
        outside (precedes.around member)
    exact .inr (.inr (beyond.trans (between.trans left)))
  · have onward := ((disciplined.visits reaches').onward other.machine).kept.grown
    have grown : other.last.lists.size ≤ one.machine.lists.size := earlier.grown disciplined
    have ended : other.machine.lists.size ≤ other.last.lists.size := onward
    exact .inl (by omega)

end Settled

end Collects

/-! ### The loops that are executing -/

/-- **The lists around a station** are those of loops that are executing there. -/
theorem executing (outside : start.loops = [])
    (reaches : Relation.ReflTransGen Follows start station) : ∀ cell ∈ station.loops,
      ∃ loop, Relation.ReflTransGen Follows start loop ∧ loop.Executing cell station := by
  induction reaches with
  | refl =>
    intro cell member
    rw [outside] at member
    exact absurd member List.not_mem_nil
  | @tail station next reaches follows hypothesis =>
    intro cell member
    have inherited : cell ∈ station.loops →
        ∃ loop, Relation.ReflTransGen Follows start loop ∧ loop.Executing cell next := by
      intro member
      obtain ⟨loop, reached, block, collects, opens, more⟩ := hypothesis cell member
      exact ⟨loop, reached, block, collects, opens, more.tail follows⟩
    cases follows with
    | later block ran => exact inherited member
    | message block targeted required read entered depth environment machine starts =>
      obtain ⟨-, -, -, none, -, -⟩ := starts
      rw [none] at member
      exact absurd member List.not_mem_nil
    | @inside instruction rest entry block opens =>
      rcases List.mem_append.mp member with own | around
      · refine ⟨station, reaches, ?_⟩
        have isLoop : ∃ target stop terminator output body,
            instruction = .loop target stop terminator output body := by
          cases opens with
          | prelude => exact absurd own List.not_mem_nil
          | conditional => exact absurd own List.not_mem_nil
          | counted => exact ⟨_, _, _, _, _, rfl⟩
          | terminated => exact ⟨_, _, _, _, _, rfl⟩
          | throughout => exact ⟨_, _, _, _, _, rfl⟩
        obtain ⟨target, stop, terminator, output, body, rfl⟩ := isLoop
        rw [opens.loops_eq] at own
        obtain rfl := List.mem_singleton.mp own
        exact ⟨block, Collects.of_opens opens, opens, .refl⟩
      · exact inherited around

end Station

end WireProgram
