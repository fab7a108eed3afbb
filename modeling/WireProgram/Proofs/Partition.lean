/-
**Loops to the end of a stream.**

A loop without a count and without a terminator reads all that its stream has to give, and its rounds
share it: each one finds in the stream what the rounds before it left, takes a piece off its front, and
adds its items to the list of the loop. Whatever the body does, with whatever streams, no byte is passed
over, read twice, or taken from the stream around. A round that takes nothing is refused. The main
definitions and statements:

* `Share` and `Shared`, what the rounds of a loop take and add;
* `shared_of_round` and `shared_of_run`, one round and a whole loop;
* `Station.Divides`, a loop to the end of its stream that is over;
* `decode_partitions`, for all such loops of a run.
-/

import WireProgram.Examples
import WireProgram.Proofs.Run.Lasting
import WireProgram.Proofs.Stream.Region

namespace WireProgram

/-! ### What the rounds take -/

/-- What a round of a loop takes off the front of a stream, and what it adds to a list. -/
structure Share where
  taken : Bytes
  added : List Value

/-- Rounds that share what a cursor holds. A round starts with all that is left, and leaves what the
rounds after it take. -/
inductive Shared (round : Step Unit) (cursor : View) (cell : Nat) :
    Machine → List Share → Machine → Prop
  | done {machine : Machine} (spent : cursor.content machine.streams = []) :
    Shared round cursor cell machine [] machine
  | next {before middle after : Machine} {share : Share} {shares : List Share}
    (filled : share.taken ≠ [])
    (holds : cursor.content before.streams = (share :: shares).flatMap Share.taken)
    (ran : round.run before = (.ok (), middle))
    (leaves : cursor.content middle.streams = shares.flatMap Share.taken)
    (adds : middle.lists.get cell = before.lists.get cell ++ share.added)
    (others : Shared round cursor cell middle shares after) :
    Shared round cursor cell before (share :: shares) after

section Rounds

variable {round : Step Unit} {cursor : View} {cell slot : Nat} {start after : Machine}
  {shares : List Share} {state : Machine × Layout false}

/-- All that a cursor holds is shared. -/
theorem Shared.content (shared : Shared round cursor cell start shares after) :
    cursor.content start.streams = shares.flatMap Share.taken := by
  cases shared with
  | done spent => exact spent
  | next filled holds ran leaves adds others => exact holds

/-- All items are added, those of the first round first. -/
theorem Shared.lists (shared : Shared round cursor cell start shares after) :
    after.lists.get cell = start.lists.get cell ++ shares.flatMap Share.added := by
  induction shared with
  | done spent => exact (List.append_nil _).symm
  | next filled holds ran leaves adds others hypothesis =>
    rw [hypothesis, adds, List.flatMap_cons, List.append_assoc]

/-- **One round** takes a piece off the front of its cursor, and adds to the list. -/
theorem shared_of_round (stands : Upkeep.Stands state (.cursor slot))
    (inside : cell < state.1.lists.size) (keeps : Keeps .upkeep (fun _ _ => True) round state)
    (ran : (withProgress (.cursor slot) round).run state.1 = (.ok (), after)) :
    ∃ (share : Share) (layout : Layout false), Contract.upkeep.later state (after, layout) ∧
      share.taken ≠ [] ∧ round.run state.1 = (.ok (), after) ∧
      (View.cursor slot).content state.1.streams =
        share.taken ++ (View.cursor slot).content after.streams ∧
      after.lists.get cell = state.1.lists.get cell ++ share.added := by
  obtain ⟨layout, later, moved⟩ :=
    (@Keeps.withProgress _ _ .appending _ round (.cursor slot) trivial keeps).ok ran
  obtain ⟨count, within, same⟩ := (later.1.1 _ stands).2
  obtain ⟨items, adds⟩ := later.2.front cell inside
  let content := (View.cursor slot).content state.1.streams
  have within : count ≤ content.length := within
  have left : (View.cursor slot).content after.streams = content.drop count :=
    congrArg Buffer.content same
  refine ⟨⟨content.take count, items⟩, layout, later, fun empty => moved ?_, withProgress_ok ran, ?_,
    adds.symm⟩
  · -- A cursor that lost no bytes stands where it stood.
    have none : count = 0 := by
      have length : (content.take count).length = 0 := congrArg List.length empty
      rw [List.length_take_of_le within] at length
      exact length
    have position := congrArg Buffer.position same
    rw [none] at position
    exact position
  · rw [left]
    exact (List.take_append_drop count content).symm

/-- **The rounds of a whole loop** share what its cursor holds. -/
theorem shared_of_run (stands : Upkeep.Stands state (.cursor slot))
    (inside : cell < state.1.lists.size)
    (rounds : ∀ inner, Contract.upkeep.later state inner →
      Keeps .upkeep (fun _ _ => True) round inner) {fuel : Nat}
    (ran : (repeatWhile (View.cursor slot).hasMore (withProgress (.cursor slot) round) fuel).run
      state.1 = (.ok (), after)) :
    ∃ shares layout, Contract.upkeep.later state (after, layout) ∧
      Shared round (.cursor slot) cell state.1 shares after := by
  induction fuel generalizing state with
  | zero => cases ran
  | succ fuel hypothesis =>
    obtain ⟨more, tested, tests, ran⟩ := run_bind_eq_ok ran
    obtain ⟨same, rfl⟩ := Prod.mk.inj ((Step.run_look _ _).symm.trans tests)
    obtain rfl := Except.ok.inj same
    cases atEnd : (View.cursor slot).atEnd state.1.streams with
    | true =>
      rw [atEnd] at ran
      cases ran
      exact ⟨[], state.2, Contract.upkeep.refl state, .done (Buffer.atEnd_iff.mp atEnd).2⟩
    | false =>
      rw [atEnd] at ran
      obtain ⟨⟨⟩, middle, turned, ran⟩ := run_bind_eq_ok ran
      obtain ⟨share, layout, toMiddle, filled, turn, holds, adds⟩ :=
        shared_of_round stands inside (rounds state (Contract.upkeep.refl state)) turned
      obtain ⟨shares, last, toAfter, others⟩ := hypothesis (Upkeep.Stands.later stands toMiddle)
        (Nat.lt_of_lt_of_le inside toMiddle.2.grown)
        (fun inner later => rounds inner (Contract.upkeep.trans toMiddle later)) ran
      refine ⟨share :: shares, last, Contract.upkeep.trans toMiddle toAfter,
        .next filled ?_ turn others.content adds others⟩
      rw [holds, others.content]
      rfl

end Rounds

/-! ### Loops of a run -/

/-- A loop to the end of its stream that is over: what the stream had to give, and how the rounds
shared it. -/
structure Station.Divides (station : Station) (target : Target) (output : Register)
    (body : List Instruction) (next : Frame) (after : Machine) (view : View) (content : Bytes)
    (shares : List Share) : Prop where
  /-- The stream of the loop, and all that it had to give when the loop began. -/
  targeted : station.frame.target target = .ok view
  read : ∃ drained,
    view.readToEnd.run (station.started (.loop target none none output body)).streams =
      (.ok content, drained)
  parts : content = shares.flatMap Share.taken
  /-- The rounds run over a stream of their own under the same target, and add to a new list. -/
  rounds : ∃ loop cell, station.Begins (.loop target none none output body) loop ∧
    loop.round = station.round body (cursorFrame next target loop.view) ∧
    (cursorFrame next target loop.view).target target = .ok loop.view ∧
    loop.start.lists.get cell = [] ∧ Shared loop.round loop.view cell loop.start shares after ∧
    next.get output = .ok (.list cell) ∧ after.lists.get cell = shares.flatMap Share.added
  /-- The stream around gave all of it, and stands under the target again. -/
  spent : view.position after.streams =
    view.position (station.started (.loop target none none output body)).streams + content.length
  ended : view.atEnd after.streams = true
  restored : next.target target = .ok view

namespace Station

variable {station : Station} {target : Target} {output : Register} {body : List Instruction}
  {layout : Layout false} {next : Frame} {after : Machine}

/-- The parts of a loop to the end of its stream: the stream is read, a cursor and a list are made, and the
rounds are run. -/
theorem run_throughout_eq_ok (ran : ((Instruction.loop target none none output body).run
      station.environment station.refer station.frame).run
        (station.started (.loop target none none output body)) = (.ok next, after)) :
    ∃ view content drained cursor opened cell listed, station.frame.target target = .ok view ∧
      (Step.onStreams view.readToEnd).run (station.started (.loop target none none output body)) =
        (.ok content, drained) ∧
      (Step.onStreams (openedBy fun streams => streams.openCursor content)).run drained =
        (.ok cursor, opened) ∧
      newList.run opened = (.ok (.list cell), listed) ∧
      station.frame.set output (.list cell) = .ok next ∧
      (repeatWhile cursor.hasMore
        (withProgress cursor (station.round body (cursorFrame next target cursor)))
        (content.length + 1)).run listed = (.ok (), after) := by
  unfold Instruction.run at ran
  obtain ⟨view, _, found, ran⟩ := run_bind_eq_ok ran
  obtain ⟨targeted, rfl⟩ := Step.run_ofExcept_eq_ok found
  obtain ⟨content, drained, read, ran⟩ := run_bind_eq_ok ran
  obtain ⟨cursor, opened, opens, ran⟩ := run_bind_eq_ok ran
  obtain ⟨list, listed, lists, ran⟩ := run_bind_eq_ok ran
  obtain ⟨frame, _, writes, goes⟩ := run_bind_eq_ok ran
  obtain ⟨written, rfl⟩ := Step.run_ofExcept_eq_ok writes
  rw [throughCursor_eq] at goes
  obtain ⟨_, last, looped, ends⟩ := run_bind_eq_ok goes
  cases ends
  obtain ⟨cell, rfl⟩ : ∃ cell, list = .list cell := by
    cases lists
    exact ⟨_, rfl⟩
  exact ⟨view, content, drained, cursor, opened, cell, _, targeted, read, opens, lists, written, looped⟩

/-- **A loop to the end of its stream,** in a frame of streams that stand. -/
theorem Lasting.divides (lasting : station.Lasting layout)
    (ran : ((Instruction.loop target none none output body).run station.environment station.refer
      station.frame).run (station.started (.loop target none none output body)) = (.ok next, after)) :
    ∃ view content shares, station.Divides target output body next after view content shares := by
  obtain ⟨view, content, drained, cursor, opened, cell, listed, targeted, read, opens, lists, written,
    looped⟩ := run_throughout_eq_ok ran
  obtain ⟨middle, layoutListed, toListed, stands, standsCursor, frames⟩ :=
    lasting.opens_cursor targeted read opens lists written
  obtain ⟨slot, rfl, holds, inside, empty⟩ := opened_cursor opens lists
  obtain ⟨shares, layoutAfter, toAfter, shared⟩ := shared_of_run standsCursor inside
    (fun inner later => station.round_upkeep body
      ((frames.later later).cursorFrame target (Upkeep.Stands.later standsCursor later))) looped
  have outer := Frame.target_of_set written targeted
  have drains : view.readToEnd.run (station.started (.loop target none none output body)).streams =
      (.ok content, drained.streams) := Step.run_onStreams_eq_ok read
  obtain ⟨reached, atEnd⟩ := View.readToEnd_reaches
    ((lasting.started (.loop target none none output body)).target targeted) drains
  obtain ⟨ended, still⟩ :=
    Contract.persisting.ended (Contract.upkeep.trans toListed toAfter).1.1 stands atEnd
  exact ⟨view, content, shares,
    { targeted := targeted
      read := ⟨_, drains⟩
      parts := holds.symm.trans shared.content
      rounds := ⟨_, cell, .throughout targeted read opens lists written, rfl,
        target_cursorFrame _ outer, empty, shared, Frame.get_set written,
        by rw [shared.lists, empty, List.nil_append]⟩
      spent := still.trans reached
      ended := ended
      restored := outer }⟩

end Station

section Visits

variable {environment : Environment} {source : RunSource} {values : List Value} {machine : Machine}
  {station : Station} {target : Target} {output : Register} {body rest : List Instruction}

/-- **Loops to the end of a stream share it among their rounds.** Wherever a run comes to such a loop, in
whatever loops and messages: if the loop ends, then its rounds took, one after another, all that its
stream had to give, no round took nothing, its list has the items of its rounds in their order, the stream
around gave as much as the rounds took, and the target stands for that stream again. If a round takes
nothing, then the decode fails at the loop. -/
theorem decode_partitions (layout : Layout false)
    (stands : layout.Stands machine.streams source.view)
    (holds : ∀ value ∈ values, ∀ view, value = .stream view → layout.Stands machine.streams view)
    (visits : environment.Visits source values machine station)
    (block : station.block = .loop target none none output body :: rest) :
    (∀ next after, ((Instruction.loop target none none output body).run station.environment station.refer
        station.frame).run (station.started (.loop target none none output body)) = (.ok next, after) →
      ∃ view content shares, station.Divides target output body next after view content shares) ∧
    (station.Stalls (.loop target none none output body) →
      ∃ failure last, (decodeWith environment source values).run machine = (.error failure, last) ∧
        failure.fault = .decode .stalledLoop ∧
        failure.fault.message = "loop body consumed no input; refusing to spin" ∧
        failure.path.getLast? =
          some ⟨station.index, (Instruction.loop target none none output body).label⟩) := by
  obtain ⟨after, lasting⟩ := visits.lasting stands holds
  refine ⟨fun next ended ran => lasting.divides ran, fun stalls => ?_⟩
  obtain ⟨failure, failed, either⟩ := stalls.fails block
  obtain rfl := either.resolve_left fun spent => lasting.not_overspends _ spent.1
  obtain ⟨path, last, ran, front, same⟩ := visits.fails stands holds failed
  refine ⟨_, last, ran, rfl, rfl, ?_⟩
  rw [← same, List.getLast?_append]
  rfl

end Visits

/-! ### A loop over two bytes -/

/-- A loop through all of a stream. -/
def throughout (body : List Instruction) : Environment where
  program := Examples.programOf 3 [.loop .direct none none (Examples.register 2) body]
  types := []
  mode := "blocking"
  config := {}

/-- Two bytes, in two pieces. -/
def pairedBytes : Machine where
  streams := (Streams.openSource {} .blocking ⟨[.bytes [5], .bytes [6]], 0⟩).2

/-- Before the loop. -/
def Station.beforeBytes (body : List Instruction) : Station where
  environment := throughout body
  depth := nestingLimit
  loops := []
  block := (throughout body).program.instructions
  index := 0
  frame := { scope := { reader := some (.source .blocking 0) } }
  machine := pairedBytes

theorem Station.beforeBytes_visited (body : List Instruction) :
    (throughout body).Visits ⟨.source .blocking 0, true⟩ [] pairedBytes (beforeBytes body) :=
  ⟨_, _, rfl, rfl, rfl, rfl, ⟨_, rfl, rfl, rfl, rfl, rfl⟩, .refl⟩

/-- A body that only reckons. -/
def reckoning : List Instruction :=
  [.eval (Examples.register 1) (.constant (.int 0))]

theorem reckoning_stalls : (Station.beforeBytes reckoning).Stalls
    (.loop .direct none none (Examples.register 2) reckoning) :=
  ⟨_, 0, _, _, _, .throughout rfl rfl rfl rfl rfl, rfl, rfl, rfl, rfl⟩

theorem collectByte_ends : ∃ next after,
    ((Instruction.loop .direct none none (Examples.register 2) Examples.collectByte).run
      (throughout Examples.collectByte) (Station.beforeBytes Examples.collectByte).refer
      (Station.beforeBytes Examples.collectByte).frame).run
        ((Station.beforeBytes Examples.collectByte).started
          (.loop .direct none none (Examples.register 2) Examples.collectByte)) = (.ok next, after) :=
  exists_eq_ok_of_isSome (by decide +kernel)

theorem decode_partitions_of_pairedBytes :
    (∃ next after shares, (Station.beforeBytes Examples.collectByte).Divides .direct (Examples.register 2)
      Examples.collectByte next after (.source .blocking 0) [5, 6] shares) ∧
    ∃ failure last, (decodeWith (throughout reckoning) ⟨.source .blocking 0, true⟩ []).run pairedBytes =
      (.error failure, last) ∧ failure.fault = .decode .stalledLoop := by
  let layout : Layout false := ⟨fun _ => .blocking, View.cursor, View.cursor⟩
  have fits : layout.Fits pairedBytes.streams (.source .blocking 0) :=
    openSource_fits .blocking _ rfl nofun
  have unfed : ∀ value ∈ ([] : List Value), ∀ view, value = .stream view →
      layout.Stands pairedBytes.streams view := nofun
  constructor
  · obtain ⟨whole, -⟩ :=
      decode_partitions layout fits.stands unfed (Station.beforeBytes_visited Examples.collectByte) rfl
    obtain ⟨next, after, ran⟩ := collectByte_ends
    obtain ⟨view, content, shares, divides⟩ := whole next after ran
    cases divides.targeted
    have bytes : ((View.source .blocking 0).readToEnd.run ((Station.beforeBytes
        Examples.collectByte).started (.loop .direct none none (Examples.register 2)
          Examples.collectByte)).streams).1.toOption = some [5, 6] := by decide +kernel
    obtain ⟨drained, read⟩ := divides.read
    rw [read] at bytes
    obtain rfl := Option.some.inj bytes
    exact ⟨next, after, shares, divides⟩
  · obtain ⟨-, refuses⟩ := decode_partitions layout fits.stands unfed
      (Station.beforeBytes_visited reckoning) rfl
    obtain ⟨failure, last, ran, same, -, -⟩ := refuses reckoning_stalls
    exact ⟨failure, last, ran, same⟩

end WireProgram
