/-
**Decodes do not depend on those before them.**

A program that passes the checker changes the lists of its executing loops only, and these are new. So
it leaves all lists alone that were there before, those of constants and of arguments among them, and a
later decode finds them as they were: it has the outcome that it would have had alone, up to the cells
of the lists that it makes. The main definitions and statements:

* `Environment.StartsAt`, the station at which a whole run starts;
* `Station.Collecting`, what a run does to lists, and `Station.Disciplined.collecting`;
* `Lists.History`, the lists that decodes leave one after another, and `Lists.History.kept`;
* `Environment.decode_recalls`, one decode from a heap with a history;
* `decode_history`, whole runs.
-/

import WireProgram.Proofs.History.Heap
import WireProgram.Proofs.History.Order

namespace WireProgram

variable {environment : Environment} {source : RunSource} {values : List Value} {machine : Machine}

/-! ### The start and the end of a run -/

/-- Where a run of a program over a source starts. -/
def Environment.StartsAt (environment : Environment) (source : RunSource) (values : List Value)
    (machine : Machine) (start : Station) : Prop :=
  ∃ view, source.open? environment.mode = .ok view ∧ start.environment = environment ∧
    start.depth = environment.types.length + nestingLimit ∧ start.machine = machine ∧
    start.Starts view values

/-- A run ends on the machine on which its block ends, and fails if the block does. -/
theorem Environment.StartsAt.ends {start : Station}
    (starts : environment.StartsAt source values machine start) :
    ((decodeWith environment source values).run machine).2 = start.last ∧
      ∀ failure, start.Fails failure →
        ((decodeWith environment source values).run machine).1 = .error failure := by
  obtain ⟨view, opened, rfl, depth, rfl, frame, bound, same, -, index, block⟩ := starts
  have onward : start.onward = runBlock start.environment
      (decodeMessage start.environment.types start.environment.mode start.environment.config
        (start.environment.types.length + nestingLimit))
      start.environment.program.instructions 0 (frame.bindReader view) := by
    unfold Station.onward Station.refer
    rw [depth, same, index, block]
  have ran : (decodeWith start.environment source values).run start.machine =
      (start.onward >>= fun last => Step.ofExcept start.environment.program.outputRegister >>=
        fun output => Step.ofExcept (last.get output)).run start.machine := by
    unfold decodeWith Environment.decode
    rw [run_bind_ok (Step.run_ofExcept_ok bound _), run_bind_ok (Step.run_ofExcept_ok opened _),
      onward]
  rw [ran]
  unfold Station.last Station.Fails
  rcases ended : start.onward.run start.machine with ⟨fault | last, after⟩
  · rw [run_bind_error ended]
    refine ⟨rfl, ?_⟩
    rintro failure ⟨_, failed⟩
    cases failed
    rfl
  · rw [run_bind_ok ended]
    refine ⟨?_, ?_⟩
    · cases start.environment.program.outputRegister with
      | error fault => rfl
      | ok output => exact congrArg Prod.snd (Step.run_ofExcept (last.get output) after)
    · rintro failure ⟨_, failed⟩
      cases failed

/-! ### What a run does to lists -/

/-- What a run from a start does to lists. -/
structure Station.Collecting (start : Station) : Prop where
  /-- Wherever the run stands, the lists that were there at its start are as they were. -/
  kept : ∀ station, Relation.ReflTransGen Follows start station →
    Lists.Kept [] start.machine.lists station.machine.lists
  /-- An instruction, however it ends, changes no list that is there but those of the loops that are
  executing then. -/
  changes : ∀ station, Relation.ReflTransGen Follows start station →
    ∀ instruction rest, station.block = instruction :: rest →
      ∀ cell < station.machine.lists.size,
        ((instruction.run station.environment station.refer station.frame).run
          (station.started instruction)).2.lists.get cell ≠ station.machine.lists.get cell →
        ∃ loop, Relation.ReflTransGen Follows start loop ∧ loop.Executing cell station
  /-- A loop that completes leaves a list of its own in its register, and from then on nothing changes
  it: whoever comes to a station finds the list as the loop left it, or is there before the loop or in
  one of its rounds. So does who comes to the end, unless the run is cut off by a bound. -/
  settled : ∀ one, Relation.ReflTransGen Follows start one →
    ∀ target stop terminator output body rest,
      one.block = .loop target stop terminator output body :: rest → ∀ frame after,
        ((Instruction.loop target stop terminator output body).run one.environment one.refer
          one.frame).run (one.started (.loop target stop terminator output body)) =
            (.ok frame, after) →
        ∃ cell, one.Collects (.loop target stop terminator output body) cell ∧
          frame.get output = .ok (.list cell) ∧
          (∀ other, Relation.ReflTransGen Follows start other →
            other.machine.lists.size ≤ cell ∨ one.Executing cell other ∨
              other.machine.lists.get cell = after.lists.get cell) ∧
          (start.Overran ∨ start.last.lists.get cell = after.lists.get cell)
  /-- Of two stations of the run one is before the other. -/
  ordered : ∀ one other, Relation.ReflTransGen Follows start one →
    Relation.ReflTransGen Follows start other →
      one = other ∨ start.Before one other ∨ start.Before other one
  /-- Different executions of loops collect in different lists. -/
  distinct : ∀ one other, Relation.ReflTransGen Follows start one →
    Relation.ReflTransGen Follows start other → start.Before one other →
      ∀ instruction rest instruction' cell cell', one.block = instruction :: rest →
        one.Collects instruction cell → other.Collects instruction' cell' → cell ≠ cell'

/-- **A run of a program that passes the checker** keeps to the lists of its loops. -/
theorem Station.Disciplined.collecting {start : Station} {strict : Prop}
    (disciplined : start.Disciplined strict) (outside : start.loops = []) : start.Collecting where
  kept station reaches := by
    obtain ⟨running, around⟩ := Around.of_follows reaches
    exact outside ▸ (around.kept disciplined).1
  changes station reaches instruction rest block cell inside changed := by
    have kept := ((disciplined.visits reaches).run block).kept
    rw [started_lists] at kept
    by_cases around : cell ∈ station.loops
    · exact executing outside reaches cell around
    · exact absurd (kept.same cell inside around) changed
  settled one reaches target stop terminator output body rest block frame after ran := by
    obtain ⟨cell, collects, written⟩ := Collects.of_run.ok ran
    exact ⟨cell, collects, written, fun other reaches' =>
      Collects.settled disciplined reaches block collects ran reaches',
      (Collects.last disciplined reaches block collects ran).imp_right And.right⟩
  ordered one other reaches reaches' := before_total disciplined reaches reaches'
  distinct one other reaches reaches' before instruction rest instruction' cell cell' block collects
      collects' :=
    Nat.ne_of_lt (Collects.lt_of_before disciplined reaches block collects collects' before)

/-! ### Decodes one after another -/

/-- A decode of a program that passes the checker changes no list that was there before. -/
theorem Environment.decode_kept
    (valid : (Linked.mk environment.program environment.types).Throughout (Linked.Checked False))
    (source : RunSource) (values : List Value) (machine : Machine) :
    Lists.Kept [] machine.lists ((decodeWith environment source values).run machine).2.lists := by
  have sober := valid.here.sober fun message names =>
    decodeMessage_sound environment.mode environment.config
      (environment.types.length + nestingLimit) environment.types message (valid.message names)
  exact (environment.decode_sound valid.here.passes sober
    (source.open_calm environment.mode).harmless values machine).kept

/-- The lists after any number of decodes, each of a program that passes the checker and on a machine
with the lists that those before it left. -/
inductive Lists.History (first : Lists) : Lists → Prop
  | none : History first first
  | decode {between : Lists} (history : History first between) (environment : Environment)
    (valid : (Linked.mk environment.program environment.types).Throughout (Linked.Checked False))
    (source : RunSource) (values : List Value) (machine : Machine)
    (same : machine.lists = between) :
    History first ((decodeWith environment source values).run machine).2.lists

/-- **A history** changes no list that was there before it. -/
theorem Lists.History.kept {first last : Lists} (history : first.History last) :
    Lists.Kept [] first last := by
  induction history with
  | none => exact .refl _ _
  | decode history environment valid source values machine same hypothesis =>
    subst same
    exact hypothesis.trans (environment.decode_kept valid source values machine)

/-- A machine with other lists. -/
def Machine.holding (machine : Machine) (lists : Lists) : Machine :=
  { machine with lists := lists }

/-- A program whose constants are lists that are there. -/
def Linked.Anchored (lists : Lists) (linked : Linked) : Prop :=
  ∀ target expression, Instruction.eval target expression ∈ blockParts linked.program.instructions →
    ∀ cell ∈ expression.cells, cell < lists.size

theorem Linked.Anchored.suits {ι : Type} {lists : Lists} {linked : Linked}
    (anchored : linked.Anchored lists) (more : ι → Nat) (mode : String) :
    linked.Suits (.heaps lists.size more mode) := by
  intro part member
  cases part with
  | eval target expression =>
    exact fun way cell inside => Naming.beyond_old (anchored target expression member cell inside)
  | decodeReference => exact fun _ _ => trivial
  | _ => trivial

/-- The names of a heap to which nobody has added anything. -/
theorem Naming.beyond_zero_fixes (base : Nat) (cells : List Nat) (views : List View) :
    (beyond base 0).Fixes cells views := by
  refine ⟨fun cell _ => ?_, fun _ _ => rfl⟩
  show (if cell < base then cell else cell + 0) = cell
  split <;> rfl

/-- **A decode from a heap with a history** is the decode from the heap before it: it gives the same
value or failure, reads the same of its streams and makes the same lists in other cells. -/
theorem Environment.decode_recalls (environment : Environment) (source : RunSource)
    (values : List Value) (machine : Machine)
    (anchored : (Linked.mk environment.program environment.types).Throughout
      (Linked.Anchored machine.lists))
    (closed : machine.lists.Closed) (given : ∀ value ∈ values, machine.lists.Has value)
    {lists : Lists} (kept : Lists.Kept [] machine.lists lists) :
    let naming := Naming.beyond machine.lists.size (lists.size - machine.lists.size)
    let alone := (decodeWith environment source values).run machine
    let later := (decodeWith environment source values).run (machine.holding lists)
    later.1 = alone.1.map (Value.named naming) ∧ later.2.streams = alone.2.streams ∧
      later.2.trace = alone.2.trace ∧ later.2.warnings = alone.2.warnings ∧
      Lists.Named naming alone.2.lists later.2.lists := by
  intro naming alone later
  -- one way is the decode alone, the other one the decode with a history
  let ensemble : Ensemble Bool := .heaps machine.lists.size
    (fun way => if way then lists.size - machine.lists.size else 0) environment.mode
  let machines : Bool → Machine := fun way => if way then machine.holding lists else machine
  have together : ensemble.Machines machines := by
    refine ⟨⟨machine.streams, funext fun way => by cases way <;> rfl⟩,
      ⟨machine.lists, machine.lists.bears_any, fun way => ?_⟩,
      ⟨machine.trace, funext fun way => by cases way <;> rfl⟩,
      ⟨machine.warnings, funext fun way => by cases way <;> rfl⟩⟩
    cases way with
    | true => exact kept.named closed
    | false =>
      have same := (Lists.Kept.refl [] machine.lists).named closed
      rw [Nat.sub_self] at same
      exact same
  have suits : (Linked.mk environment.program environment.types).Throughout
      (Linked.Suits ensemble) := fun other reaches => (anchored other reaches).suits _ _
  have refers := suits.here.refers fun other names =>
    decodeMessage_duet environment.config (fun _ => environment.types.length + nestingLimit)
      environment.types other (suits.message names) (.inl ⟨_, fun _ => rfl⟩)
  have same : ∀ way, values.map (Value.named (ensemble.naming way)) = values := fun way =>
    Naming.beyond_map_eq given
  have opened : ∀ way, source.open? environment.mode =
      (source.open? environment.mode).map (ensemble.naming way).views := fun way => by
    cases source.open? environment.mode <;> rfl
  have held : ∀ value ∈ values, ensemble.Holds (streamsOf machines) value :=
    fun value _ => ⟨fun _ _ => trivial, value.bears_any⟩
  have duet := Environment.decode_duet environment.program environment.types environment.config
    refers together opened (fun _ _ => trivial) held
  simp only [same] at duet
  obtain ⟨after, ended, outcome⟩ := duet
  have final : ensemble.Machines after := ended.states
  have left : ∀ way, ((decodeWith environment source values).run (machines way)).2 = after way := by
    intro way
    rcases outcome with ⟨_, -, ran⟩ | ⟨_, -, ran⟩
    · exact congrArg Prod.snd (ran way)
    · exact congrArg Prod.snd (ran way)
  have aloneLeft : alone.2 = after false := left false
  have laterLeft : later.2 = after true := left true
  obtain ⟨streams, sameStreams⟩ := final.streams
  obtain ⟨trace, sameTrace⟩ := final.trace
  obtain ⟨warnings, sameWarnings⟩ := final.warnings
  obtain ⟨common, -, named⟩ := final.lists
  rw [aloneLeft, laterLeft]
  refine ⟨?_, (congrFun sameStreams true).trans (congrFun sameStreams false).symm,
    (congrFun sameTrace true).trans (congrFun sameTrace false).symm,
    (congrFun sameWarnings true).trans (congrFun sameWarnings false).symm,
    (named false).of_fixes (Naming.beyond_zero_fixes _) (named true)⟩
  rcases outcome with ⟨_, ⟨value, -, rfl⟩, ran⟩ | ⟨_, ⟨_, path, ⟨fault, rfl⟩, rfl⟩, ran⟩
  · have here : alone.1 = .ok (value.named (.beyond machine.lists.size 0)) :=
      congrArg Prod.fst (ran false)
    rw [value.named_eq_self (Naming.beyond_zero_fixes _ _ _)] at here
    rw [here]
    exact congrArg Prod.fst (ran true)
  · have here : alone.1 = .error ⟨fault, path⟩ := congrArg Prod.fst (ran false)
    rw [here]
    exact congrArg Prod.fst (ran true)

/-- **Decodes of programs that pass the checker are independent of history.** The program and all messages
that it comes to have no findings. Then a run changes no list that was there before it, and on the way
only those of the loops that are executing; a loop that has completed leaves its list for good, and
different executions of loops have different lists. So after any number of such decodes a decode has the
outcome that it would have had before them, up to the cells of the lists that it makes; its constants
and arguments may be lists that all of them share. -/
theorem decode_history (environment : Environment)
    (valid : (Linked.mk environment.program environment.types).Throughout (Linked.Checked False))
    (source : RunSource) (values : List Value) (machine : Machine) :
    let alone := (decodeWith environment source values).run machine
    Lists.Kept [] machine.lists alone.2.lists ∧
      (∀ start, environment.StartsAt source values machine start →
        start.Collecting ∧ alone.2 = start.last ∧
          (start.Overran → ∃ failure, alone.1 = .error failure ∧
            failure.fault = .misuse .boundExceeded)) ∧
      ∀ lists, machine.lists.History lists →
        (Linked.mk environment.program environment.types).Throughout
          (Linked.Anchored machine.lists) →
        machine.lists.Closed → (∀ value ∈ values, machine.lists.Has value) →
          let naming := Naming.beyond machine.lists.size (lists.size - machine.lists.size)
          let later := (decodeWith environment source values).run (machine.holding lists)
          later.1 = alone.1.map (Value.named naming) ∧ later.2.streams = alone.2.streams ∧
            later.2.trace = alone.2.trace ∧ later.2.warnings = alone.2.warnings ∧
            Lists.Named naming alone.2.lists later.2.lists := by
  refine ⟨environment.decode_kept valid source values machine, fun start starts => ?_,
    fun lists history anchored closed given =>
      environment.decode_recalls source values machine anchored closed given history.kept⟩
  obtain ⟨last, fails⟩ := starts.ends
  obtain ⟨view, -, rfl, -, -, starts⟩ := starts
  have outside : start.loops = [] := by
    obtain ⟨-, -, -, outside, -⟩ := starts
    exact outside
  refine ⟨(starts.disciplined valid).collecting outside, last, ?_⟩
  rintro ⟨failure, failed, bound⟩
  exact ⟨failure, fails failure failed, bound⟩

theorem Lists.closed_of_size_eq_zero {lists : Lists} (none : lists.size = 0) : lists.Closed := by
  intro cell item member
  rw [lists.get_of_size_le (none ▸ Nat.zero_le cell)] at member
  cases member

theorem countedBytes_anchored (lists : Lists) :
    (Linked.mk countedBytes.program countedBytes.types).Throughout (Linked.Anchored lists) := by
  refine .of_unlinked (fun target expression member => ?_) (Linked.not_names rfl)
  rw [countedBytes_parts] at member
  simp at member

/-- Two decodes of one program over the same bytes, one after the other: the second one makes a list of
its own, and is the first one but for the cell of this list. -/
theorem decode_history_of_countedBytes : ∃ first second,
    (decodeWith countedBytes ⟨.cursor 0, false⟩ []).run twoBytes = first ∧
      (decodeWith countedBytes ⟨.cursor 0, false⟩ []).run (twoBytes.holding first.2.lists) = second ∧
      second.1 = first.1.map (Value.named (.beyond 0 1)) ∧ second.2.streams = first.2.streams ∧
      (first.1.toOption.map Value.cells, second.1.toOption.map Value.cells) =
        (some [0], some [1]) := by
  have valid : (Linked.mk countedBytes.program countedBytes.types).Throughout
      (Linked.Checked False) := fun other reaches => (countedBytes_valid other reaches).checked False
  have one : ((decodeWith countedBytes ⟨.cursor 0, false⟩ []).run twoBytes).2.lists.size = 1 := by
    decide +kernel
  obtain ⟨value, streams, -⟩ :=
    (decode_history countedBytes valid ⟨.cursor 0, false⟩ [] twoBytes).2.2 _
      (.decode .none countedBytes valid ⟨.cursor 0, false⟩ [] twoBytes rfl)
      (countedBytes_anchored _) (Lists.closed_of_size_eq_zero rfl)
      fun _ member => absurd member List.not_mem_nil
  rw [one] at value
  exact ⟨_, _, rfl, rfl, value, streams, by decide +kernel⟩

end WireProgram
