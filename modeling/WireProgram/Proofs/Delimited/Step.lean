/-
**Steps that know where they end.**

A step that succeeds may be run again over an input that starts with the same bytes. If no more was
spent than the bytes in common, the second run does the same; if more was spent and there is nothing
beyond these bytes, the second run ends in a read that falls short. The main definitions and
statements:

* `Pursuit` and `Delimited`, a step that a second run repeats or cannot finish;
* `Source.Shares` and `Machine.Shares`, the states of the two runs;
* `View.readExact_delimited`, the one operation in which the second run can end;
* `Delimited.ofExcept`, `Delimited.guarded` and their like, one rule for each operation on the machine.
-/

import WireProgram.Proofs.Chunking

namespace WireProgram

/-! ### Two runs -/

section Generic

variable {ε σ α β : Type}

/-- What a run has to do with a second one, which may end early. -/
structure Pursuit (ε σ : Type) where
  /-- How the states are alike while so much is still in common. -/
  alike : Nat → σ → σ → Prop
  /-- How a state of the first run comes later, so much having been spent. -/
  spends : Nat → σ → σ → Prop
  /-- Whether the second run has no more than what is in common. -/
  cut : Prop
  /-- The faults in which it may end. -/
  short : ε → Prop
  zero : ∀ state, spends 0 state state
  add : ∀ {first second before middle after}, spends first before middle →
    spends second middle after → spends (first + second) before after

/--
A step whose success depends on what it spends. Every second run gives the same, if no more was spent
than what was in common; if more was spent and there is no more, it fails.
-/
def Delimited (both : Pursuit ε σ) (good : α → σ → Prop) (step : ExceptT ε (StateM σ) α)
    (before : σ) : Prop :=
  ∀ value after, step.run before = (.ok value, after) → ∃ count, both.spends count before after ∧
    good value after ∧ ∀ shared before', both.alike shared before before' →
      (count ≤ shared → ∃ after', step.run before' = (.ok value, after') ∧
        both.alike (shared - count) after after') ∧
      (shared < count → both.cut → ∃ fault after', step.run before' = (.error fault, after') ∧
        both.short fault)

namespace Delimited

variable {both : Pursuit ε σ} {good : α → σ → Prop} {step : ExceptT ε (StateM σ) α} {before : σ}

/-- A step that fails has nothing to repeat. -/
theorem of_error {fault : ε} {after : σ} (ran : step.run before = (.error fault, after)) :
    Delimited both good step before := by
  intro value after' same
  rw [ran] at same
  cases same

/-- A step that spends nothing and gives the same wherever the states are alike. -/
theorem of_ok {value : α} {after : σ} (ran : step.run before = (.ok value, after))
    (spends : both.spends 0 before after) (holds : good value after)
    (again : ∀ shared before', both.alike shared before before' →
      ∃ after', step.run before' = (.ok value, after') ∧ both.alike shared after after') :
    Delimited both good step before := by
  intro found reached same
  rw [ran] at same
  cases same
  refine ⟨0, spends, holds, fun shared before' alike => ⟨fun _ => ?_, nofun⟩⟩
  exact again shared before' alike

theorem pure {value : α} (holds : good value before) :
    Delimited both good (Pure.pure value : ExceptT ε (StateM σ) α) before :=
  of_ok rfl (both.zero before) holds fun _ before' alike => ⟨before', rfl, alike⟩

theorem throw {fault : ε} :
    Delimited both good (MonadExcept.throw fault : ExceptT ε (StateM σ) α) before :=
  of_error (run_throw fault before)

/-- **Sequencing.** What the second step may spend is what the first one left of the bytes in
common. -/
theorem bind {next : α → ExceptT ε (StateM σ) β} {better : β → σ → Prop}
    (first : Delimited both good step before)
    (second : ∀ value count after, both.spends count before after → good value after →
      Delimited both better (next value) after) :
    Delimited both better (step >>= next) before := by
  intro found final ran
  rw [run_bind] at ran
  rcases same : step.run before with ⟨fault | value, middle⟩
  · rw [same] at ran
    cases ran
  rw [same] at ran
  obtain ⟨count, spends, holds, again⟩ := first value middle same
  obtain ⟨more, spendsMore, holdsMore, againMore⟩ :=
    second value count middle spends holds found final ran
  refine ⟨count + more, both.add spends spendsMore, holdsMore, fun shared before' alike => ?_⟩
  obtain ⟨within, beyond⟩ := again shared before' alike
  rcases Nat.lt_or_ge shared count with less | enough
  · refine ⟨fun most => ?_, fun _ cut => ?_⟩
    · omega
    · obtain ⟨fault, after', ran', short⟩ := beyond less cut
      exact ⟨fault, after', by rw [run_bind, ran'], short⟩
  · obtain ⟨middle', ran', alike'⟩ := within enough
    obtain ⟨withinMore, beyondMore⟩ := againMore (shared - count) middle' alike'
    refine ⟨fun most => ?_, fun less cut => ?_⟩
    · obtain ⟨after', ranMore, alikeMore⟩ := withinMore (by omega)
      rw [Nat.sub_sub] at alikeMore
      exact ⟨after', by rw [run_bind, ran']; exact ranMore, alikeMore⟩
    · obtain ⟨fault, after', ranMore, short⟩ := beyondMore (by omega) cut
      exact ⟨fault, after', by rw [run_bind, ran']; exact ranMore, short⟩

theorem discard (delimited : Delimited both good step before) :
    Delimited both (fun _ _ => True) (Functor.discard step : ExceptT ε (StateM σ) Unit) before := by
  intro nothing after ran
  rw [run_discard] at ran
  rcases same : step.run before with ⟨fault | value, middle⟩
  · rw [same] at ran
    cases ran
  rw [same] at ran
  cases ran
  obtain ⟨count, spends, -, again⟩ := delimited value after same
  refine ⟨count, spends, trivial, fun shared before' alike => ?_⟩
  obtain ⟨within, beyond⟩ := again shared before' alike
  refine ⟨fun most => ?_, fun less cut => ?_⟩
  · obtain ⟨after', ran', alike'⟩ := within most
    exact ⟨after', by rw [run_discard, ran'], alike'⟩
  · obtain ⟨fault, after', ran', short⟩ := beyond less cut
    exact ⟨fault, after', by rw [run_discard, ran'], short⟩

end Delimited

end Generic

/-! ### Sources that start with the same bytes -/

/-- Two fair sources with so many bytes in common; if it is cut, the second one has no more. -/
structure Source.Shares (cut : Prop) (shared : Nat) (left right : Source) : Prop where
  fair : left.Fair ∧ right.Fair
  rest : right.rest.take shared = left.rest.take shared
  short : cut → right.rest.length ≤ shared
  position : right.buffer.position = left.buffer.position

/-- Two sources of which the same number of bytes was spent have the others in common. -/
theorem Source.Shares.spent {cut : Prop} {shared count : Nat} {left right left' right' : Source}
    (shares : Source.Shares cut shared left right) (spent : Source.Spent count left left')
    (spent' : Source.Spent count right right') :
    Source.Shares cut (shared - count) left' right' := by
  refine ⟨⟨spent.fair shares.fair.1, spent'.fair shares.fair.2⟩, ?_, fun cut => ?_, ?_⟩
  · rw [spent.rest, spent'.rest, ← List.drop_take, ← List.drop_take, shares.rest]
  · have short := shares.short cut
    rw [spent'.rest, List.length_drop]
    omega
  · rw [spent.position, spent'.position, shares.position]

/-- The streams of two runs over inputs that start with the same bytes. -/
def Streams.pursuit (κ : Type) (root : Nat) (cut : Prop) : Pursuit Fault (Streams κ) where
  alike shared := Streams.Differ root (Source.Shares cut shared)
  spends count before after := (Streams.chunking κ root).later before after ∧
    Source.Gives count (before.sources.get root) (after.sources.get root)
  cut := cut
  short fault := ∃ cause : DecodeFault, fault = .decode cause ∧ cause.family = .io
  zero streams := ⟨(Streams.chunking κ root).refl streams, .refl _⟩
  add one two := ⟨(Streams.chunking κ root).trans one.1 two.1, one.2.trans two.2⟩

/-! ### Reading -/

namespace View

variable {κ : Type} [ChunkCodec κ] {root shared : Nat} {cut : Prop} {left right : Streams κ}
  {view : View}

omit [ChunkCodec κ] in
/-- An operation that does not reach the root is repeated whatever the root has to give. -/
theorem Together.delimited {α : Type} {step : StreamStep κ α} (together : Together root step) :
    Delimited (Streams.pursuit κ root cut) (fun _ _ => True) step left := by
  intro value left' ran
  obtain ⟨same, later⟩ := together.kept left
  rw [ran] at same later
  refine ⟨0, ⟨later, ?_⟩, trivial, fun shared right differ => ⟨fun _ => ?_, nofun⟩⟩
  · rw [show left'.sources.get root = left.sources.get root from same]
    exact .refl _
  · have both := together _ left right differ
    have result := both.result
    have alike := both.alike
    rw [ran] at result alike
    exact ⟨(step.run right).2, Prod.ext result rfl, alike⟩

omit [ChunkCodec κ] in
/-- What a view over the root has to give starts with the same bytes, too. -/
theorem Over.shares (based : view.Over root left)
    (differ : Streams.Differ root (Source.Shares cut shared) left right) :
    (view.content right).take shared = (view.content left).take shared ∧
      (cut → (view.content right).length ≤ shared) := by
  induction view with
  | source own cell =>
    obtain ⟨-, rfl⟩ := based
    exact ⟨differ.source.rest, differ.source.short⟩
  | cursor cell => exact based.elim
  | take cell parent hypothesis =>
    obtain ⟨rest, short⟩ := hypothesis based.2.2
    have cutAt : ∀ streams : Streams κ, (View.take cell parent).content streams =
        (parent.content streams).take (streams.bounds.get cell).left.toNat := fun _ => rfl
    rw [cutAt, cutAt, differ.bounds]
    refine ⟨?_, fun cut => Nat.le_trans (List.length_take_le' _ _) (short cut)⟩
    rw [List.take_take, List.take_take, Nat.min_comm, ← List.take_take, ← List.take_take, rest]
  | transformed cell parent => exact based.elim

/-- A read of bytes in common gives the same in both. -/
theorem exactly_shared {count : Nat} {content content' : Bytes}
    (same : content'.take shared = content.take shared) (within : count ≤ content.length)
    (enough : count ≤ shared) :
    exactly count content' = .ok (content.take count) ∧ spentBy count content' = count := by
  have front : content'.take count = content.take count := by
    have cut := congrArg (List.take count) same
    rwa [List.take_take, List.take_take, Nat.min_eq_left enough] at cut
  have within' : count ≤ content'.length := by
    have length := congrArg List.length front
    rw [List.length_take, List.length_take] at length
    omega
  unfold exactly spentBy
  rw [if_pos within', if_pos within', front]
  exact ⟨rfl, rfl⟩

/-- **Reading exactly so many bytes** from a view over the root. If the second run has not as many,
the read falls short. -/
theorem Over.readExact_delimited (based : view.Over root left)
    (fair : (left.sources.get root).Fair) (count : Nat) :
    Delimited (Streams.pursuit κ root cut) (fun _ _ => True) (view.readExact count) left := by
  intro value left' ran
  obtain ⟨after, same, spends⟩ := readExact_plain (based.plain fair) count
  rw [same] at ran
  obtain ⟨result, rfl⟩ := Prod.mk.inj ran
  have within : count ≤ (view.content left).length := by
    by_contra short
    rw [exactly, if_neg short] at result
    cases result
  rw [exactly, if_pos within] at result
  cases result
  rw [spentBy, if_pos within] at spends
  obtain ⟨spent, -, -⟩ := based.roots spends.roots
  refine ⟨count, ⟨⟨spends.driver, Nat.le_of_eq spends.size.symm⟩,
    ⟨spent, Nat.le_trans within based.length_content_le⟩⟩, trivial, fun shared right differ => ?_⟩
  have based' : view.Over root right :=
    based.later ⟨differ.driver, Nat.le_of_eq (by rw [differ.bounds])⟩
  obtain ⟨right', same', spends'⟩ := readExact_plain (based'.plain differ.source.fair.2) count
  obtain ⟨rest, short⟩ := based.shares differ
  refine ⟨fun enough => ?_, fun less cut => ?_⟩
  · obtain ⟨read, spentAll⟩ := exactly_shared rest within enough
    rw [read] at same'
    rw [spentAll] at spends'
    exact ⟨right', same', based.differ differ spends spends' differ.source.spent⟩
  · have fewer := short cut
    rw [exactly, if_neg (by omega)] at same'
    exact ⟨_, right', same', _, rfl, rfl⟩

/-- **Reading exactly so many bytes** knows where it ends. -/
theorem readExact_delimited (steady : view.Steady root left)
    (fair : (left.sources.get root).Fair) (count : Nat) :
    Delimited (Streams.pursuit κ root cut) (fun _ _ => True) (view.readExact count) left := by
  rcases steady with apart | based
  · exact (apart.readExact count).delimited
  · exact based.readExact_delimited fair count

end View

/-! ### The operations on the machine -/

/-- The machines of two runs over inputs that start with the same bytes. -/
structure Machine.Shares (root : Nat) (cut : Prop) (shared : Nat) (left right : Machine) : Prop where
  streams : Streams.Differ root (Source.Shares cut shared) left.streams right.streams
  lists : right.lists = left.lists
  trace : right.trace = left.trace
  warnings : right.warnings = left.warnings

/-- The pursuit of a run of a program. -/
def Machine.pursuit (root : Nat) (cut : Prop) : Pursuit Failure Machine where
  alike := Machine.Shares root cut
  spends count before after :=
    (Streams.pursuit Codec root cut).spends count before.streams after.streams
  cut := cut
  short failure := (Streams.pursuit Codec root cut).short failure.fault
  zero machine := (Streams.pursuit Codec root cut).zero machine.streams
  add := (Streams.pursuit Codec root cut).add

namespace Delimited

variable {α β : Type} {root : Nat} {cut : Prop} {machine : Machine} {good : α → Machine → Prop}
  {better : β → Machine → Prop}

/-- An operation on the streams. -/
theorem onStreams {step : StreamStep Codec α} {holds : α → Streams Codec → Prop}
    (delimited : Delimited (Streams.pursuit Codec root cut) holds step machine.streams) :
    Delimited (Machine.pursuit root cut) (fun value after => holds value after.streams)
      (Step.onStreams step) machine := by
  intro value after ran
  rw [Step.run_onStreams] at ran
  rcases same : step.run machine.streams with ⟨fault | found, streams⟩
  · rw [same] at ran
    cases ran
  rw [same] at ran
  cases ran
  obtain ⟨count, spends, good, again⟩ := delimited value streams same
  refine ⟨count, spends, good, fun shared right alike => ?_⟩
  obtain ⟨within, beyond⟩ := again shared right.streams alike.streams
  refine ⟨fun enough => ?_, fun less cut => ?_⟩
  · obtain ⟨streams', ran', differ⟩ := within enough
    refine ⟨{ right with streams := streams' }, ?_, differ, alike.lists, alike.trace, alike.warnings⟩
    rw [Step.run_onStreams, ran']
    rfl
  · obtain ⟨fault, streams', ran', short⟩ := beyond less cut
    refine ⟨⟨fault, []⟩, { right with streams := streams' }, ?_, short⟩
    rw [Step.run_onStreams, ran']
    rfl

/-- A computation that does not touch the machine. -/
theorem ofExcept {result : Except Fault α} (holds : ∀ value, result = .ok value → good value machine) :
    Delimited (Machine.pursuit root cut) good (Step.ofExcept result) machine := by
  cases result with
  | ok value =>
    exact of_ok rfl (Pursuit.zero _ machine) (holds value rfl) fun _ right alike => ⟨right, rfl, alike⟩
  | error fault => exact of_error (Step.run_ofExcept (.error fault) machine)

/-- A computation that does not touch the machine, before the rest. -/
theorem ofExcept_bind {result : Except Fault α} {next : α → Step β}
    (rest : ∀ value, result = .ok value →
      Delimited (Machine.pursuit root cut) better (next value) machine) :
    Delimited (Machine.pursuit root cut) better (Step.ofExcept result >>= next) machine := by
  cases result with
  | ok value =>
    have ran : ∀ machine : Machine, (Step.ofExcept (.ok value) >>= next).run machine =
        (next value).run machine := by
      intro machine
      rw [run_bind]
      rfl
    unfold Delimited
    simp only [ran]
    exact rest value rfl
  | error fault =>
    have ran : (Step.ofExcept (.error fault) >>= next).run machine =
        (.error ⟨fault, []⟩, machine) := by
      rw [run_bind]
      rfl
    exact of_error ran

/-- A look that shows the same in every second run, before the rest. -/
theorem look_bind {question : Machine → α} {next : α → Step β}
    (same : ∀ shared right, Machine.Shares root cut shared machine right →
      question right = question machine)
    (rest : Delimited (Machine.pursuit root cut) better (next (question machine)) machine) :
    Delimited (Machine.pursuit root cut) better (Step.look question >>= next) machine := by
  have looked : Delimited (Machine.pursuit root cut)
      (fun value after => value = question machine ∧ after = machine) (Step.look question) machine := by
    refine of_ok (Step.run_look question machine) (Pursuit.zero _ machine) ⟨rfl, rfl⟩ ?_
    intro shared right alike
    exact ⟨right, by rw [Step.run_look, same shared right alike], alike⟩
  refine looked.bind ?_
  rintro _ _ _ - ⟨rfl, rfl⟩
  exact rest

/-- An operation on the lists. -/
theorem onLists {act : Lists → Except Fault (α × Lists)}
    (holds : ∀ result, act machine.lists = .ok result →
      good result.1 { machine with lists := result.2 }) :
    Delimited (Machine.pursuit root cut) good (Step.onLists act) machine := by
  cases same : act machine.lists with
  | ok result =>
    have ran : ∀ other : Machine, other.lists = machine.lists → (Step.onLists act).run other =
        (.ok result.1, { other with lists := result.2 }) := by
      intro other lists
      rw [Step.run_onLists, lists, same]
    refine of_ok (ran machine rfl) ((Streams.pursuit Codec root cut).zero machine.streams)
      (holds result same) ?_
    intro shared right alike
    exact ⟨_, ran right alike.lists, alike.streams, rfl, alike.trace, alike.warnings⟩
  | error fault =>
    have ran : (Step.onLists act).run machine = (.error ⟨fault, []⟩, machine) := by
      rw [Step.run_onLists, same]
    exact of_error ran

/-- A recorded event. -/
theorem record (config : Config) (event : String) (depth : Nat) (label detail : String) :
    Delimited (Machine.pursuit root cut) (fun _ _ => True)
      (Step.record config event depth label detail) machine := by
  have ran : ∀ machine : Machine, (Step.record config event depth label detail).run machine =
      (.ok (), if config.trace then
        { machine with trace := machine.trace.record event depth label detail } else machine) :=
    Step.run_change _
  refine of_ok (ran machine) ?_ trivial fun shared right alike => ⟨_, ran right, ?_⟩
  · have zero := (Machine.pursuit root cut).zero machine
    split
    · exact zero
    · exact zero
  · split
    · exact ⟨alike.streams, alike.lists, by rw [alike.trace], alike.warnings⟩
    · exact alike

/-- An instruction at its place. The place on the path of a fault does not change its cause. -/
theorem guarded {step : Step α} (config : Config) (depth : Nat) (site : Site)
    (delimited : Delimited (Machine.pursuit root cut) good step machine) :
    Delimited (Machine.pursuit root cut) good (Step.guarded config depth site step) machine := by
  intro value after ran
  rw [Step.run_guarded] at ran
  rcases same : step.run machine with ⟨failure | found, middle⟩
  · rw [same] at ran
    cases ran
  rw [same] at ran
  cases ran
  obtain ⟨count, spends, holds, again⟩ := delimited value after same
  refine ⟨count, spends, holds, fun shared right alike => ?_⟩
  obtain ⟨within, beyond⟩ := again shared right alike
  refine ⟨fun enough => ?_, fun less cut => ?_⟩
  · obtain ⟨after', ran', alike'⟩ := within enough
    exact ⟨after', by rw [Step.run_guarded, ran'], alike'⟩
  · obtain ⟨failure, after', ran', cause, decode, io⟩ := beyond less cut
    refine ⟨failure.within site, _, by rw [Step.run_guarded, ran'], cause, ?_, io⟩
    unfold Failure.within
    split
    · exact decode
    · exact decode

end Delimited

end WireProgram
