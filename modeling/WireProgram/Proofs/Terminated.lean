/-
**Scalars up to a terminator.**

A loop that reads scalars up to a terminator looks for it where a scalar may start, and nowhere else. It
ends at the first place, a whole number of scalars from where it started, where the terminator stands or
where no byte follows. What it looks at are the bytes that the view offers, in whatever pieces they come;
what lies beyond a region does not count. If there is no such place, the last read falls short. The main
definitions and statements:

* `StopsAt` and `FirstStop`, the places where such a loop ends;
* `Collector`, a loop whose rounds add one scalar each to its list;
* `Collector.Stands.rounds_stop` and `Collector.Stands.rounds_short`, its rounds to the end;
* `Instruction.run_terminated`, the loop.
-/

import WireProgram.Examples
import WireProgram.Proofs.Collect

namespace WireProgram

/-! ### Where a loop stops -/

/-- A loop over pieces of a width may stop after so many bytes: it has read whole pieces, and the
terminator comes next or nothing does. -/
def StopsAt (width : Nat) (terminator content : Bytes) (count : Nat) : Prop :=
  width ∣ count ∧ (count = content.length ∨ terminator <+: content.drop count)

instance (width : Nat) (terminator content : Bytes) (count : Nat) :
    Decidable (StopsAt width terminator content count) :=
  inferInstanceAs (Decidable (_ ∧ _))

/-- It stops at the first such place. -/
structure FirstStop (width : Nat) (terminator content : Bytes) (count : Nat) : Prop where
  stops : StopsAt width terminator content count
  first : ∀ other, StopsAt width terminator content other → count ≤ other

/-- The number of bytes up to a place and with the terminator that may stand there. -/
def throughTerminator (terminator content : Bytes) (count : Nat) : Nat :=
  if count = content.length then count else count + terminator.length

section Stops

variable {width count : Nat} {terminator content : Bytes}

theorem View.Approach.of_eq_ahead :
    Approach.of terminator content = .ahead ↔ content ≠ [] ∧ ¬terminator <+: content := by
  rw [← List.isEmpty_eq_false_iff, List.prefix_iff_eq_take]
  unfold Approach.of
  cases content.isEmpty with
  | true => exact ⟨nofun, fun more => nomatch more.1⟩
  | false =>
    rw [if_neg Bool.false_ne_true]
    by_cases starts : content.take terminator.length = terminator
    · rw [if_pos starts]
      exact ⟨nofun, fun other => absurd starts.symm other.2⟩
    · rw [if_neg starts]
      exact ⟨fun _ => ⟨rfl, fun same => starts same.symm⟩, fun _ => rfl⟩

/-- A loop stops where it starts unless something else stands next. -/
theorem stopsAt_zero :
    StopsAt width terminator content 0 ↔ View.Approach.of terminator content ≠ .ahead := by
  unfold StopsAt
  rw [Ne, View.Approach.of_eq_ahead, not_and_not_right, List.drop_zero, eq_comm,
    List.length_eq_zero_iff, ne_eq, ← or_iff_not_imp_left]
  exact and_iff_right (Nat.dvd_zero _)

/-- After the first piece, a loop stops where it would stop on the others. -/
theorem stopsAt_add (within : width ≤ content.length) :
    StopsAt width terminator content (width + count) ↔
      StopsAt width terminator (content.drop width) count := by
  unfold StopsAt
  rw [Nat.dvd_add_right (Nat.dvd_refl _), List.drop_drop, List.length_drop]
  exact and_congr_right fun _ => or_congr_left (by omega)

/-- A loop does not stop beyond the end. -/
theorem StopsAt.le_length (stops : StopsAt width terminator content count) (filled : terminator ≠ []) :
    count ≤ content.length := by
  rcases stops.2 with ends | starts
  · exact Nat.le_of_eq ends
  · have some : content.drop count ≠ [] := fun none =>
      filled (List.prefix_nil.mp (none ▸ starts))
    exact Nat.le_of_not_le fun beyond => some (List.drop_eq_nil_of_le beyond)

namespace FirstStop

theorem eq_zero (first : FirstStop width terminator content count)
    (next : View.Approach.of terminator content ≠ .ahead) : count = 0 :=
  Nat.le_zero.mp (first.first 0 (stopsAt_zero.mpr next))

/-- If something else stands next, there is a piece before the place, and it is the first one on the
others. -/
theorem exists_add (first : FirstStop width terminator content count) (filled : terminator ≠ [])
    (ahead : View.Approach.of terminator content = .ahead) :
    ∃ fewer, count = width + fewer ∧ width ≤ content.length ∧
      FirstStop width terminator (content.drop width) fewer := by
  have positive : 0 < count := by
    refine Nat.pos_of_ne_zero fun none => ?_
    have stops := first.stops
    rw [none] at stops
    exact stopsAt_zero.mp stops ahead
  have whole : width ≤ count := Nat.le_of_dvd positive first.stops.1
  have within : width ≤ content.length := Nat.le_trans whole (first.stops.le_length filled)
  obtain ⟨fewer, rfl⟩ := Nat.exists_eq_add_of_le whole
  refine ⟨fewer, rfl, within, (stopsAt_add within).mp first.stops, fun other stops => ?_⟩
  exact Nat.le_of_add_le_add_left (first.first _ ((stopsAt_add within).mpr stops))

end FirstStop

theorem throughTerminator_add (within : width ≤ content.length) :
    throughTerminator terminator content (width + count) =
      width + throughTerminator terminator (content.drop width) count := by
  unfold throughTerminator
  rw [List.length_drop, apply_ite (width + ·), Nat.add_assoc]
  exact if_congr (by omega) rfl rfl

end Stops

/-! ### Loops that collect scalars -/

/-- A loop that collects scalars, where its rounds run. -/
structure Collector where
  environment : Environment
  refer : Referral
  /-- The frame with the list, around those of the rounds. -/
  frame : Frame
  target : Target
  /-- The register of one scalar. -/
  item : Register
  /-- The register of the list. -/
  output : Register
  primitive : Primitive
  view : View

namespace Collector

/-- What a round does: it reads a scalar and adds it to the list. -/
def body (collector : Collector) : List Instruction :=
  [.decodePrimitive collector.target collector.item collector.primitive.name,
    .loopOutput collector.output collector.item]

/-- One round. -/
def round (collector : Collector) : Step Unit :=
  discard (runBlock collector.environment collector.refer collector.body 0
    (collector.frame.child none []))

/-- The rounds up to a terminator. -/
def rounds (collector : Collector) (terminator : Bytes) (fuel : Nat) : Step Unit :=
  untilTerminator collector.view terminator collector.round fuel

/-- The failure of a round that finds so many bytes, which are too few. -/
def shortage (collector : Collector) (count : Nat) : Failure :=
  ⟨.decode (.shortRead collector.primitive.width count),
    [⟨0, (Instruction.decodePrimitive collector.target collector.item
      collector.primitive.name).label⟩]⟩

/-- The frame of the loop reads the view and holds the list, and the register of a scalar is free. -/
structure Stands (collector : Collector) (cell : Nat) : Prop where
  reads : collector.frame.target collector.target = .ok collector.view
  list : collector.frame.get collector.output = .ok (.list cell)
  free : ∃ slot, collector.item.slot? = some slot ∧ collector.frame.find? slot = none

variable {collector : Collector} {lists : Lists} {cell count fuel : Nat} {terminator content : Bytes}
  {machine : Machine}

/-- **A round** collects a scalar. -/
theorem Stands.collects (stands : collector.Stands cell) :
    collector.round.Collects collector.view collector.primitive cell (collector.shortage 0).path :=
  collects_round collector.environment collector.refer collector.primitive
    ((collector.frame.target_inner _).trans stands.reads)
    ((collector.frame.get_inner _).trans stands.list)
    (stands.free.imp fun slot free =>
      ⟨free.1, (collector.frame.find?_child none [] slot).trans free.2⟩)

/-! ### Rounds to the end -/

/-- The end of the rounds. -/
theorem rounds_end (fuel : Nat) (offers : collector.view.Offers content machine.streams)
    (filled : terminator ≠ []) (next : View.Approach.of terminator content ≠ .ahead) :
    ∃ after, (collector.rounds terminator (fuel + 1)).run machine = (.ok (), after) ∧
      after.lists = machine.lists ∧
      collector.view.Gave (throughTerminator terminator content 0) machine.streams
        after.streams := by
  obtain ⟨streams, looked, gave⟩ := offers.approach filled
  refine ⟨{ machine with streams := streams }, ?_, rfl, ?_⟩
  · unfold rounds
    rw [untilTerminator_succ, run_bind, Step.run_onStreams, looked]
    cases found : View.Approach.of terminator content with
    | ended => rfl
    | reached => rfl
    | ahead => exact absurd found next
  · unfold throughTerminator
    cases found : View.Approach.of terminator content with
    | ended =>
      rw [found, if_neg nofun] at gave
      rwa [View.Approach.eq_nil_of_ended found, List.length_nil, if_pos rfl]
    | reached =>
      have longer := View.Approach.length_le_of_reached found
      have positive : 0 < terminator.length := List.length_pos_iff.mpr filled
      rw [found, if_pos rfl] at gave
      rwa [if_neg (by omega), Nat.zero_add]
    | ahead => exact absurd found next

/-- If something else stands next, a round follows the peek, which takes nothing. -/
theorem rounds_ahead (offers : collector.view.Offers content machine.streams)
    (filled : terminator ≠ []) (ahead : View.Approach.of terminator content = .ahead)
    (fuel : Nat) :
    ∃ streams, (collector.rounds terminator (fuel + 1)).run machine =
        (withProgress collector.view collector.round >>= fun _ =>
          collector.rounds terminator fuel).run { machine with streams := streams } ∧
      collector.view.Gave 0 machine.streams streams := by
  obtain ⟨streams, looked, still⟩ := offers.approach filled
  have nothing : View.Approach.ahead ≠ .reached := by decide
  rw [ahead, if_neg nothing] at still
  refine ⟨streams, ?_, still⟩
  unfold rounds
  rw [untilTerminator_succ, run_bind, Step.run_onStreams, looked, ahead]
  rfl

/-- A round before the end. -/
theorem Stands.rounds_succ (stands : collector.Stands cell)
    (offers : collector.view.Offers content machine.streams) (filled : terminator ≠ [])
    (ahead : View.Approach.of terminator content = .ahead)
    (within : collector.primitive.width ≤ content.length) (fuel : Nat) :
    ∃ after, (collector.rounds terminator (fuel + 1)).run machine =
        (collector.rounds terminator fuel).run after ∧
      after.lists = machine.lists.modify cell (· ++
        [(collector.primitive.decode (content.take collector.primitive.width)).toValue]) ∧
      collector.view.Gave collector.primitive.width machine.streams after.streams := by
  obtain ⟨streams, enters, still⟩ := rounds_ahead offers filled ahead fuel
  obtain ⟨after, ran, added, gave, -⟩ := stands.collects.adds { machine with streams := streams } _
    (still.offers offers) within
  have moved : collector.view.position after.streams ≠ collector.view.position streams := by
    rw [gave.position]
    exact Nat.ne_of_gt (Nat.lt_add_of_pos_right collector.primitive.width_pos)
  have both := still.trans gave
  rw [Nat.zero_add] at both
  exact ⟨after, enters.trans (run_bind_ok (run_withProgress ran moved)), added, both⟩

/-- A round that falls short. -/
theorem Stands.rounds_error (stands : collector.Stands cell)
    (offers : collector.view.Offers content machine.streams) (filled : terminator ≠ [])
    (ahead : View.Approach.of terminator content = .ahead)
    (short : content.length < collector.primitive.width) (fuel : Nat) :
    ∃ after, (collector.rounds terminator (fuel + 1)).run machine =
      (.error (collector.shortage content.length), after) := by
  obtain ⟨streams, enters, still⟩ := rounds_ahead offers filled ahead fuel
  obtain ⟨after, ran⟩ := stands.collects.short { machine with streams := streams } _
    (still.offers offers) short
  exact ⟨after, enters.trans (run_bind_error (run_withProgress_error ran))⟩

/-- **Rounds to the first stop.** The list grows by the scalars before it. -/
theorem Stands.rounds_stop (stands : collector.Stands lists.size) (filled : terminator ≠ [])
    {items : List Value} (enough : content.length < fuel) (machine : Machine)
    (offers : collector.view.Offers content machine.streams)
    (listed : machine.lists = lists.push items)
    (first : FirstStop collector.primitive.width terminator content count) :
    ∃ after, (collector.rounds terminator fuel).run machine = (.ok (), after) ∧
      after.lists = lists.push
        (items ++ (collector.primitive.decodeAll (content.take count)).map Scalar.toValue) ∧
      collector.view.Gave (throughTerminator terminator content count) machine.streams
        after.streams := by
  -- The bytes that are left are always fewer than the rounds that are left, and the list holds `items`.
  induction fuel generalizing content machine items count with
  | zero => cases enough
  | succ fuel hypothesis =>
    by_cases ahead : View.Approach.of terminator content = .ahead
    · obtain ⟨fewer, rfl, within, others⟩ := first.exists_add filled ahead
      obtain ⟨middle, ran, added, gave⟩ := stands.rounds_succ offers filled ahead within fuel
      rw [listed, Table.modify_push] at added
      have positive := collector.primitive.width_pos
      obtain ⟨after, ran', listed', gave'⟩ := hypothesis (by rw [List.length_drop]; omega)
        middle (gave.offers offers) added others
      refine ⟨after, ran.trans ran', ?_, ?_⟩
      · rw [listed', Primitive.decodeAll_take_add (first.stops.le_length filled), List.map_cons,
          List.append_assoc]
        rfl
      · rw [throughTerminator_add within]
        exact gave.trans gave'
    · obtain rfl := first.eq_zero ahead
      obtain ⟨after, ran, kept, gave⟩ := rounds_end fuel offers filled ahead
      refine ⟨after, ran, ?_, gave⟩
      rw [kept, listed, List.take_zero, Primitive.decodeAll_nil, List.map_nil, List.append_nil]

/-- **Rounds without a stop.** The last one finds what is left of the bytes. -/
theorem Stands.rounds_short (stands : collector.Stands cell) (filled : terminator ≠ [])
    (enough : content.length < fuel) (machine : Machine)
    (offers : collector.view.Offers content machine.streams)
    (never : ∀ count, ¬StopsAt collector.primitive.width terminator content count) :
    ∃ after, (collector.rounds terminator fuel).run machine =
      (.error (collector.shortage (content.length % collector.primitive.width)), after) := by
  induction fuel generalizing content machine with
  | zero => cases enough
  | succ fuel hypothesis =>
    have ahead : View.Approach.of terminator content = .ahead :=
      not_not.mp fun next => never 0 (stopsAt_zero.mpr next)
    by_cases within : collector.primitive.width ≤ content.length
    · obtain ⟨middle, ran, -, gave⟩ := stands.rounds_succ offers filled ahead within fuel
      have positive := collector.primitive.width_pos
      obtain ⟨after, ran'⟩ := hypothesis (by rw [List.length_drop]; omega) middle
        (gave.offers offers) fun count stops => never _ ((stopsAt_add within).mpr stops)
      rw [List.length_drop, ← Nat.mod_eq_sub_mod within] at ran'
      exact ⟨after, ran.trans ran'⟩
    · have short := Nat.lt_of_not_le within
      rw [Nat.mod_eq_of_lt short]
      exact stands.rounds_error offers filled ahead short fuel

end Collector

/-! ### The loop -/

section Terminated

variable {frame : Frame} {machine : Machine} {target : Target} {mark item output : Register}
  {itemSlot outputSlot : Slot} {view : View} {terminator content : Bytes}

/-- A loop up to a terminator is its rounds, after its list was made. -/
theorem run_loop_terminated (environment : Environment) (refer : Referral) {outer : Frame}
    (body : List Instruction) (reads : frame.target target = .ok view)
    (marked : frame.get mark = .ok (.bytes terminator)) (filled : terminator ≠ [])
    (written : frame.set output (.list machine.lists.size) = .ok outer) :
    ((Instruction.loop target none (some mark) output body).run environment refer frame).run
        machine =
      (untilTerminator view terminator
          (discard (runBlock environment refer body 0 (outer.child none [])))
          (view.weight machine.streams + 1) >>= fun _ => pure outer).run
        { machine with lists := machine.lists.push [] } := by
  have ending : (Value.bytes terminator).toBytes machine.lists (view.weight machine.streams + 1) =
      .ok terminator := rfl
  unfold Instruction.run
  rw [run_bind_ok (Step.run_ofExcept_ok reads _), run_bind_ok (Step.run_ofExcept_ok marked _),
    run_bind_ok (Step.run_look _ _), run_bind_ok (Step.run_look _ _),
    run_bind_ok (Step.run_ofExcept_ok ending _), if_neg (mt List.isEmpty_iff.mp filled)]
  exact (run_bind_ok (run_newList machine)).trans (run_bind_ok (Step.run_ofExcept_ok written _))

/-- **Scalars up to a terminator.** A loop that reads scalars from a view and adds them to a list, up to a
terminator, stops at the first place where it may: it has then read the scalars of all bytes before that
place, and the terminator too if one stands there. If there is no such place, the bytes that are left at
the end are too few for a scalar. Only a codec has a state that must be `Sane`; a source, a cursor and a
region have none. -/
theorem Instruction.run_terminated (environment : Environment) (refer : Referral)
    (primitive : Primitive) (reads : frame.target target = .ok view)
    (marked : frame.get mark = .ok (.bytes terminator)) (filled : terminator ≠ [])
    (outputAt : output.slot? = some outputSlot) (itemAt : item.slot? = some itemSlot)
    (apart : itemSlot ≠ outputSlot) (outputFree : frame.find? outputSlot = none)
    (itemFree : frame.find? itemSlot = none) (ready : view.Ready machine.streams)
    (sane : ∀ cell ∈ view.stages, (machine.streams.transforms.get cell).Sane)
    (gives : (view.readToEnd.run machine.streams).1 = .ok content) :
    ∃ result after,
      ((Instruction.loop target none (some mark) output
        [.decodePrimitive target item primitive.name, .loopOutput output item]).run environment refer
          frame).run machine = (result, after) ∧
      (∀ count, FirstStop primitive.width terminator content count →
        ∃ next, result = .ok next ∧ next.get output = .ok (.list machine.lists.size) ∧
          after.lists = machine.lists.push
            ((primitive.decodeAll (content.take count)).map Scalar.toValue) ∧
          view.position after.streams =
            view.position machine.streams + throughTerminator terminator content count ∧
          (view.readToEnd.run after.streams).1 =
            .ok (content.drop (throughTerminator terminator content count))) ∧
      ((∀ count, ¬StopsAt primitive.width terminator content count) →
        ∃ cause path, result = .error ⟨.decode cause, path⟩ ∧ cause.family = .io ∧
          cause = .shortRead primitive.width (content.length % primitive.width)) := by
  obtain ⟨outer, written⟩ : ∃ outer, frame.set output (.list machine.lists.size) = .ok outer :=
    ⟨_, Frame.set_eq_ok.mpr ⟨outputSlot, outputAt, outputFree, rfl⟩⟩
  have free : outer.find? itemSlot = none := by
    obtain ⟨slot, addressed, -, rfl⟩ := Frame.set_eq_ok.mp written
    obtain rfl : slot = outputSlot := Option.some.inj (addressed.symm.trans outputAt)
    rw [Frame.find?_write, if_neg apart, itemFree]
  let collector : Collector :=
    ⟨environment, refer, outer, target, item, output, primitive, view⟩
  have stands : collector.Stands machine.lists.size :=
    ⟨Frame.target_of_set written reads, Frame.get_set written, itemSlot, itemAt, free⟩
  have offers : view.Offers content machine.streams := View.offers_of_gives ready gives
  have enough : content.length < view.weight machine.streams + 1 :=
    Nat.lt_succ_of_le (offers.bytes ▸ View.length_course_le_weight sane)
  obtain ⟨result, after, ran⟩ : ∃ result after,
      (collector.rounds terminator (view.weight machine.streams + 1) >>= fun _ => pure outer).run
        { machine with lists := machine.lists.push [] } = (result, after) := ⟨_, _, rfl⟩
  refine ⟨result, after,
    (run_loop_terminated environment refer _ reads marked filled written).trans ran,
    fun count first => ?_, fun never => ?_⟩
  · obtain ⟨ended, rounds, listed, gave⟩ := stands.rounds_stop filled enough
      { machine with lists := machine.lists.push [] } offers rfl first
    rw [run_bind_ok rounds] at ran
    cases ran
    exact ⟨outer, rfl, Frame.get_set written, listed, gave.position, (gave.offers offers).gives⟩
  · obtain ⟨ended, rounds⟩ := stands.rounds_short filled enough
      { machine with lists := machine.lists.push [] } offers never
    rw [run_bind_error rounds] at ran
    cases ran
    exact ⟨_, _, rfl, rfl, rfl⟩

end Terminated

/-- Numbers of two bytes that come in pieces, among them a mark: first between two numbers and across two
pieces, then at the end of a region of five bytes and beyond it. -/
def markedPairs : Machine where
  streams := (Streams.openSource {} .blocking
    ⟨[.bytes [0, 170], .bytes [187, 1, 170], .bytes [187, 5]], 0⟩).2.openTake
      (.source .blocking 0) 5 |>.2

/-- The loop that reads numbers up to the mark. -/
def pairsLoop : Instruction :=
  .loop .direct none (some (Examples.register 0)) (Examples.register 2)
    [.decodePrimitive .direct (Examples.register 1) Primitive.u16.name,
      .loopOutput (Examples.register 2) (Examples.register 1)]

/-- The frame of the loop, which reads a view. -/
def pairsFrame (view : View) : Frame :=
  ⟨⟨some view, [(.index 0, .bytes [170, 187])]⟩, []⟩

/-- The loop as it runs over a view. -/
def pairsRun (view : View) : Except Failure Frame × Machine :=
  (pairsLoop.run ⟨Examples.programOf 3 [pairsLoop], [], "blocking", {}⟩
    (decodeMessage [] "blocking" {} 0) (pairsFrame view)).run markedPairs

/-- In the whole input the mark is found after two numbers. In the region it is not found, and a byte is
left. -/
theorem Instruction.run_terminated_of_markedPairs :
    (∃ next after, pairsRun (.source .blocking 0) = (.ok next, after) ∧
      after.lists.get 0 = [.int 170, .int 47873] ∧
      (View.source .blocking 0).position after.streams = 6) ∧
    ∃ failure after, pairsRun (.take 0 (.source .blocking 0)) = (.error failure, after) ∧
      failure.fault = .decode (.shortRead 2 1) := by
  have reads : ∀ view, (pairsFrame view).target .direct = .ok view := fun _ => rfl
  have marked : ∀ view, (pairsFrame view).get (Examples.register 0) = .ok (.bytes [170, 187]) :=
    fun _ => rfl
  have filled : ([170, 187] : Bytes) ≠ [] := List.cons_ne_nil _ _
  have outputAt : (Examples.register 2).slot? = some (.index 2) := rfl
  have itemAt : (Examples.register 1).slot? = some (.index 1) := rfl
  have apart : Slot.index 1 ≠ .index 2 := by decide
  constructor
  · have ready : (View.source .blocking 0).Ready markedPairs.streams := trivial
    have gives : ((View.source .blocking 0).readToEnd.run markedPairs.streams).1 =
        .ok [0, 170, 187, 1, 170, 187, 5] := View.Offers.gives ⟨ready, rfl, rfl⟩
    obtain ⟨result, after, ran, stops, -⟩ := Instruction.run_terminated
      ⟨Examples.programOf 3 [pairsLoop], [], "blocking", {}⟩ (decodeMessage [] "blocking" {} 0) .u16
      (reads _) (marked _) filled outputAt itemAt apart rfl rfl ready nofun gives
    have fewer : ∀ other < 4, ¬StopsAt 2 [170, 187] [0, 170, 187, 1, 170, 187, 5] other := by decide
    obtain ⟨next, rfl, -, listed, moved, -⟩ := stops 4 ⟨by decide, fun other stops =>
      Nat.le_of_not_lt fun less => fewer other less stops⟩
    exact ⟨next, after, ran, by rw [listed]; rfl, by rw [moved]; rfl⟩
  · have ready : (View.take 0 (.source .blocking 0)).Ready markedPairs.streams := ⟨nofun, trivial⟩
    have gives : ((View.take 0 (.source .blocking 0)).readToEnd.run markedPairs.streams).1 =
        .ok [0, 170, 187, 1, 170] := View.Offers.gives ⟨ready, rfl, rfl⟩
    obtain ⟨result, after, ran, -, never⟩ := Instruction.run_terminated
      ⟨Examples.programOf 3 [pairsLoop], [], "blocking", {}⟩ (decodeMessage [] "blocking" {} 0) .u16
      (reads _) (marked _) filled outputAt itemAt apart rfl rfl ready nofun gives
    have none : ∀ count < 6, ¬StopsAt 2 [170, 187] [0, 170, 187, 1, 170] count := by decide
    obtain ⟨cause, path, rfl, -, rfl⟩ := never fun count stops =>
      none count (Nat.lt_succ_of_le (stops.le_length filled)) stops
    exact ⟨_, after, ran, rfl⟩

end WireProgram
