/-
**Every decode of a finite input ends.**

A station has finitely many ones after it, since a loop runs no more rounds than its stream has bytes to
give. Every step goes to a shorter block or to a message from which references nest less deep, and so a
run comes to finitely many stations. The main statements:

* `Station.Opens.finite` and `Station.Follows.finite`, the steps from a station;
* `Station.Follows.decreases`, what every step uses up;
* `Station.Passing.finite`, the stations of a whole run;
* `decode_ends`, whole runs, and `rounds_exceed_content`, a loop with more rounds than its stream had to
  give when it began.
-/

import Mathlib.Data.Set.Finite.Lattice
import WireProgram.Examples
import WireProgram.Proofs.Ending.Visit

namespace WireProgram

namespace Station

variable {station next : Station} {instruction : Instruction} {rest : List Instruction}
  {entry : Entry} {loop : Loop} {layout : Layout false}

/-! ### Finitely many steps from a station -/

/-- The rounds of a loop are finitely many. -/
theorem Begins.finite (begins : station.Begins instruction loop) (passing : station.Passing layout)
    (block : station.block = instruction :: rest) :
    {entry | entry = loop.entry entry.machine ∧ ∃ count before, loop.after count = some before ∧
      loop.test.run before = (.ok true, entry.machine)}.Finite := by
  have each : ∀ count, {entry | entry = loop.entry entry.machine ∧ ∃ before,
      loop.after count = some before ∧ loop.test.run before = (.ok true, entry.machine)}.Finite := by
    intro count
    refine Set.Subsingleton.finite ?_
    rintro first ⟨same, before, lapped, held⟩ second ⟨same', before', lapped', held'⟩
    cases lapped.symm.trans lapped'
    have machines : first.machine = second.machine := congrArg Prod.snd (held.symm.trans held')
    rw [same, same', machines]
  refine ((Set.finite_le_nat loop.supply).biUnion fun count _ => each count).subset ?_
  rintro entry ⟨same, count, before, lapped, held⟩
  obtain ⟨-, within, enough⟩ := begins.paid passing block lapped
  have few : count ∈ {count | count ≤ loop.supply} := Nat.le_trans within enough
  exact Set.mem_biUnion few ⟨same, before, lapped, held⟩

/-- **An instruction opens its blocks** finitely many times. -/
theorem Opens.finite (passing : station.Passing layout)
    (block : station.block = instruction :: rest) :
    {entry | station.Opens instruction entry}.Finite := by
  rcases Set.eq_empty_or_nonempty {entry | station.Opens instruction entry} with none | ⟨first, opens⟩
  · rw [none]
    exact Set.finite_empty
  cases opens with
  | prelude target holds =>
    refine Set.Subsingleton.finite fun one opens other opens' => ?_
    cases opens with
    | prelude target holds =>
      cases opens' with
      | prelude target' holds' =>
        cases holds.symm.trans holds'
        rfl
  | conditional holds =>
    refine Set.Subsingleton.finite fun one opens other opens' => ?_
    cases opens with
    | conditional holds =>
      cases opens' with
      | conditional holds' =>
        cases holds.symm.trans holds'
        rfl
  | @counted target stop output body count cell frame before listed machine counts lists written
      done within ran =>
    have each : ∀ done, {entry : Entry | entry = ⟨[cell], body, frame.child none [], entry.machine⟩ ∧
        (repeatBody (station.round body (frame.child none [])) done).run listed =
          (.ok (), entry.machine)}.Finite := by
      intro done
      refine Set.Subsingleton.finite ?_
      rintro one ⟨same, ran⟩ other ⟨same', ran'⟩
      have machines : one.machine = other.machine := congrArg Prod.snd (ran.symm.trans ran')
      rw [same, same', machines]
    refine ((Set.finite_lt_nat count).biUnion fun done _ => each done).subset fun entry opens => ?_
    cases opens with
    | @counted _ _ _ _ count' cell' frame' before' listed' machine' counts' lists' written' done'
        within' ran' =>
      cases counts.symm.trans counts'
      cases lists.symm.trans lists'
      cases written.symm.trans written'
      have few : done' ∈ {done | done < count} := within'
      exact Set.mem_biUnion few ⟨rfl, ran'⟩
  | terminated targeted read ends lists written rounds =>
    obtain ⟨loop, begins, -⟩ := Opens.begun (.terminated targeted read ends lists written rounds)
    refine (begins.finite passing block).subset fun entry opens => ?_
    obtain ⟨other, begins', same, lapped⟩ := Opens.begun opens
    obtain rfl := begins.unique begins'
    exact ⟨same, lapped⟩
  | throughout targeted read opens lists written rounds =>
    obtain ⟨loop, begins, -⟩ := Opens.begun (.throughout targeted read opens lists written rounds)
    refine (begins.finite passing block).subset fun entry opens => ?_
    obtain ⟨other, begins', same, lapped⟩ := Opens.begun opens
    obtain rfl := begins.unique begins'
    exact ⟨same, lapped⟩

/-- **A station** has finitely many ones after it. -/
theorem Follows.finite (passing : station.Passing layout) : {next | station.Follows next}.Finite := by
  cases block : station.block with
  | nil =>
    refine Set.finite_empty.subset fun next follows => ?_
    cases follows with
    | later same => cases block.symm.trans same
    | inside same => cases block.symm.trans same
    | message same => cases block.symm.trans same
  | cons instruction rest =>
    have laters : {next : Station | ∃ frame machine, (instruction.run station.environment station.refer
        station.frame).run (station.started instruction) = (.ok frame, machine) ∧
          next = { station with block := rest, index := station.index + 1, frame := frame,
                                machine := machine }}.Subsingleton := by
      rintro one ⟨frame, machine, ran, same⟩ other ⟨frame', machine', ran', same'⟩
      cases ran.symm.trans ran'
      rw [same, same']
    have messages : {next : Station | station.Follows next ∧ next.index = 0 ∧
        ∃ target data name arguments, instruction =
          .decodeReference target data name arguments}.Subsingleton := by
      rintro one ⟨follows, start, target, data, name, arguments, rfl⟩ other ⟨again, start', -⟩
      exact Follows.message_unique block again follows start' start
    refine ((laters.finite.union ((Opens.finite passing block).image station.enter)).union
      messages.finite).subset fun next follows => ?_
    cases follows with
    | later same ran =>
      cases block.symm.trans same
      exact .inl (.inl ⟨_, _, ran, rfl⟩)
    | inside same opens =>
      cases block.symm.trans same
      exact .inl (.inr ⟨_, opens, rfl⟩)
    | message same targeted required read entered depth environment machine starts =>
      cases block.symm.trans same
      exact .inr ⟨.message block targeted required read entered depth environment machine starts,
        starts.choose_spec.2.2.2.1, _, _, _, _, rfl⟩

/-! ### Finitely many stations -/

/-- **A run comes to finitely many stations.** -/
theorem Passing.finite (passing : station.Passing layout) :
    {next | Relation.ReflTransGen Follows station next}.Finite := by
  induction station using ranked.induction generalizing layout with
  | _ station hypothesis =>
  have after : ∀ next ∈ {next | station.Follows next},
      {last | Relation.ReflTransGen Follows next last}.Finite := by
    intro next follows
    obtain ⟨layoutNext, -, passes⟩ := follows.under passing
    exact hypothesis next follows.decreases passes
  refine ((Set.finite_singleton station).union ((Follows.finite passing).biUnion after)).subset ?_
  intro last reached
  rcases Relation.ReflTransGen.cases_head reached with rfl | ⟨next, follows, more⟩
  · exact .inl rfl
  · exact .inr (Set.mem_biUnion follows more)

end Station

/-! ### Whole runs -/

/-- A view without codecs. -/
def View.Uncoded : View → Prop
  | .source _ _ | .cursor _ => True
  | .take _ parent => parent.Uncoded
  | .transformed _ _ => False

/-- What a view without codecs can still give is its content. -/
theorem View.Uncoded.budget {view : View} (uncoded : view.Uncoded) (streams : Streams Codec) :
    view.budget streams = (view.content streams).length := by
  induction view with
  | source own cell => exact (Source.length_rest _).symm
  | cursor cell => rfl
  | take cell parent hypothesis =>
    show min _ (parent.budget streams) = (List.take _ (parent.content streams)).length
    rw [hypothesis uncoded, List.length_take]
  | transformed cell parent => exact uncoded.elim

/-- A view in order is filled within its bounds. -/
theorem View.fillBuf_bounded {layout : Layout false} {streams : Streams Codec} {view : View}
    (fits : layout.Fits streams view) (want : Nat) :
    Bounded ((view.fillBuf want).run streams).1 := by
  have keeps := View.fillBuf_keeps fits want
  rcases ran : (view.fillBuf want).run streams with ⟨fault | bytes, after⟩
  · exact fun overruns => keeps.error ran overruns.exceeds
  · trivial

/-- **Every decode of a finite input ends.** A program with the built-in transforms and types, whose
references between messages come back to none, is run over streams in order. It ends with a value or
with a fault that is not that of a bound, after finitely many instructions, and so does every feed of
a codec on the way. A loop without a count refuses a round that consumes nothing of its stream. So it
runs no more rounds than its stream gives bytes while it runs; these are no more than the stream could
give when the loop began, which for a stream without codecs is its content, and for a loop to the end
of a stream the bytes that were read from it. -/
theorem decode_ends (environment : Environment)
    (admitted : (Linked.mk environment.program environment.types).Throughout
      (Linked.Admitted fun transform => Prelude.hasTransform transform = true))
    (acyclic : (Linked.mk environment.program environment.types).Acyclic) (layout : Layout false)
    (source : RunSource) (values : List Value) (machine : Machine)
    (fits : layout.Fits machine.streams source.view)
    (holds : ∀ value ∈ values, ∀ view, value = .stream view → layout.Fits machine.streams view) :
    (∀ failure after, (decodeWith environment source values).run machine =
        (.error failure, after) → ¬failure.fault.Overruns) ∧
      {station | environment.Visits source values machine station}.Finite ∧
      ∀ station, environment.Visits source values machine station →
        (∀ target view, station.frame.target target = .ok view → ∀ want,
          Bounded ((view.fillBuf want).run station.machine.streams).1) ∧
        ∀ instruction rest, station.block = instruction :: rest →
          ∀ loop, station.Begins instruction loop →
            (∀ before after, loop.round.run before = (.ok (), after) →
              loop.view.position after.streams = loop.view.position before.streams →
                loop.body.run before = (.error ⟨.decode .stalledLoop, []⟩, after)) ∧
            ∀ count after, loop.after count = some after →
              loop.view.position loop.start.streams + count ≤ loop.view.position after.streams ∧
              count ≤ loop.supply ∧
              (loop.view.Uncoded → count ≤ (loop.view.content loop.start.streams).length) := by
  have passing : ∀ (view : View) (start : Station), source.open? environment.mode = .ok view →
      start.environment = environment → start.depth = environment.types.length + nestingLimit →
        start.machine = machine → start.Starts view values → start.Passing layout := by
    intro view start opened same depth machines starts
    refine starts.passing ?_ ?_ ?_ ?_
    · rw [same]
      exact admitted
    · rw [same, depth]
      exact acyclic.within (Nat.le_add_right _ _)
    · rw [machines, source.eq_view_of_open opened]
      exact fits
    · rw [machines]
      exact holds
  refine ⟨fun failure after ran => decodeWith_bounded environment admitted acyclic fits holds ran,
    ?_, ?_⟩
  · rcases Set.eq_empty_or_nonempty {station | environment.Visits source values machine station} with
      none | ⟨-, view, start, opened, same, depth, machines, starts, -⟩
    · rw [none]
      exact Set.finite_empty
    · refine (passing view start opened same depth machines starts).finite.subset ?_
      rintro station ⟨view', start', opened', same', depth', machines', starts', follows⟩
      cases opened.symm.trans opened'
      rwa [starts.unique starts' (same'.trans same.symm) (depth'.trans depth.symm)
        (machines'.trans machines.symm)] at follows
  · rintro station ⟨view, start, opened, same, depth, machines, starts, follows⟩
    obtain ⟨after, passes⟩ := (passing view start opened same depth machines starts).follows follows
    refine ⟨fun target view targeted want => ?_, fun instruction rest block loop begins =>
      ⟨fun _ _ => loop.refused, fun count last lapped => ?_⟩⟩
    · exact View.fillBuf_bounded (passes.frames.target targeted) want
    · obtain ⟨advanced, within, supplied⟩ := begins.paid passes block lapped
      exact ⟨advanced, Nat.le_trans within supplied, fun uncoded =>
        uncoded.budget loop.start.streams ▸ within⟩

/-! ### A loop over groups that are skipped -/

/-- A loop that reads a byte of a text in groups, and then passes over so many bytes under it. -/
def skippingRounds : Instruction :=
  .loop (.stream (Examples.register 0)) none (some (Examples.register 1)) (Examples.register 4)
    [.decodePrimitive (.stream (Examples.register 0)) (Examples.register 2) "u8",
      .decodeForeign .direct (Examples.register 3) Examples.utf8 [Examples.register 2],
      .loopOutput (Examples.register 4) (Examples.register 2)]

/-- The loop over the text of a source. -/
def skipping : Environment where
  program := Examples.programOf 5
    [.wrapStream .direct (Examples.register 0) ⟨"base64", .base64⟩ [],
      .eval (Examples.register 1) (.constant (.bytes [255])), skippingRounds]
  types := []
  mode := "blocking"
  config := {}

/-- A text with padding in the middle, which the loop passes over. -/
def skippedGroups : Machine where
  streams := (Streams.openSource {} .blocking
    ⟨[.bytes [65, 103, 65, 65, 65, 65], .bytes [61, 61], .bytes [65, 67], .bytes [61, 61]], 0⟩).2

namespace Station

/-- Before the program. -/
def skippingStart : Station where
  environment := skipping
  depth := nestingLimit
  loops := []
  block := skipping.program.instructions
  index := 0
  frame := { scope := { reader := some (.source .blocking 0) } }
  machine := skippedGroups

/-- Before the loop. -/
def skippingLoop : Station where
  environment := skipping
  depth := nestingLimit
  loops := []
  block := [skippingRounds]
  index := 2
  frame :=
    { scope :=
        { reader := some (.source .blocking 0)
          slots := [(.index 1, .bytes [255]),
            (.index 0, .stream (.transformed 0 (.source .blocking 0)))] } }
  machine := { skippedGroups with
    streams := (skippedGroups.streams.openTransformed (.source .blocking 0) (.base64 [])).2 }

theorem skippingLoop_visited :
    skipping.Visits ⟨.source .blocking 0, true⟩ [] skippedGroups skippingLoop :=
  ⟨_, skippingStart, rfl, rfl, rfl, rfl, ⟨_, rfl, rfl, rfl, rfl, rfl⟩,
    .tail (.tail .refl (.later rfl rfl)) (.later rfl rfl)⟩

theorem skippingLoop_begins : ∃ loop, skippingLoop.Begins skippingRounds loop ∧
    (loop.view.readToEnd.run loop.start.streams).1.toOption = some [2, 0, 0, 0, 0] ∧
    (loop.after 6).isSome = true :=
  ⟨_, .terminated rfl rfl rfl (by decide) rfl rfl, by decide +kernel, by decide +kernel⟩

end Station

/-- **A loop with more rounds than its stream had to give** when it began: read to its end there, the
stream gives five bytes, and the loop runs six rounds, since its body passes over some of the text. -/
theorem rounds_exceed_content :
    ∃ station loop,
      skipping.Visits ⟨.source .blocking 0, true⟩ [] skippedGroups station ∧
      station.block = [skippingRounds] ∧ station.Begins skippingRounds loop ∧
      (loop.view.readToEnd.run loop.start.streams).1.toOption = some [2, 0, 0, 0, 0] ∧
      (loop.after 6).isSome = true := by
  obtain ⟨loop, begins, content, rounds⟩ := Station.skippingLoop_begins
  exact ⟨Station.skippingLoop, loop, Station.skippingLoop_visited, rfl, begins, content, rounds⟩

theorem skipping_parts : blockParts skipping.program.instructions =
    skipping.program.instructions ++
      [.decodePrimitive (.stream (Examples.register 0)) (Examples.register 2) "u8",
        .decodeForeign .direct (Examples.register 3) Examples.utf8 [Examples.register 2],
        .loopOutput (Examples.register 4) (Examples.register 2)] :=
  rfl

theorem skipping_unlinked :
    ∀ message, ¬(Linked.mk skipping.program skipping.types).Names message :=
  Linked.not_names rfl

theorem skipping_admitted :
    (Linked.mk skipping.program skipping.types).Throughout
      (Linked.Admitted fun transform => Prelude.hasTransform transform = true) := by
  refine .of_unlinked (fun part member => ?_) skipping_unlinked
  have among : part ∈ blockParts skipping.program.instructions := member
  rw [skipping_parts] at among
  simp only [skipping, Examples.programOf, List.cons_append, List.nil_append, List.mem_cons,
    List.not_mem_nil, or_false] at among
  rcases among with rfl | rfl | rfl | rfl | rfl | rfl <;> trivial

/-- Also this loop runs no more rounds than its stream gives bytes. -/
theorem decode_ends_of_skippedGroups :
    {station | skipping.Visits ⟨.source .blocking 0, true⟩ [] skippedGroups station}.Finite ∧
    ∃ loop after, Station.skippingLoop.Begins skippingRounds loop ∧ loop.after 6 = some after ∧
      loop.view.position loop.start.streams + 6 ≤ loop.view.position after.streams ∧
      6 ≤ loop.supply := by
  obtain ⟨-, finite, stations⟩ := decode_ends skipping skipping_admitted
    (show (Linked.mk skipping.program skipping.types).Within 0 from skipping_unlinked).acyclic
    ⟨fun _ => .blocking, View.cursor, View.cursor⟩ ⟨.source .blocking 0, true⟩ [] skippedGroups
    (openSource_fits .blocking _ rfl nofun) nofun
  obtain ⟨loop, begins, -, rounds⟩ := Station.skippingLoop_begins
  obtain ⟨after, lapped⟩ := Option.isSome_iff_exists.mp rounds
  obtain ⟨-, loops⟩ := stations _ Station.skippingLoop_visited
  obtain ⟨paid, enough, -⟩ := (loops _ _ rfl loop begins).2 6 after lapped
  exact ⟨finite, loop, after, begins, lapped, paid, enough⟩

end WireProgram
