/-
**A setting that rescues partial elements, and nothing else.**

An array that runs to the end of its stream may find there bytes that end inside an element. Then the
run fails, unless it may drop these. So a run that may drop them is compared with one that may not, over
the same source and with all other settings equal. They do the same until the second one fails for a
partial element. There the first one goes on with the whole elements. The main definitions and
statements:

* `Environment.tailed`, an environment with this setting, and `Station.tailed` and `Moment.tailed`;
* `Station.Cutoff`, an array that is cut off, and `Moment.resumed`, where a run goes on from it;
* `Parting`, the moments of two runs that part at such an array;
* `Step.Together`, two steps that agree or part, and `Step.Twins`, steps that end alike;
* `Station.prepare_twins`, loops before their first round, and `Moment.together_instruction`;
* `Moment.together_cutoff`, where the runs part, and `Moment.together`, what is left of a block;
* `decode_rescued`, **two whole runs**.
-/

import WireProgram.Proofs.Collect
import WireProgram.Proofs.History.Cells
import WireProgram.Proofs.Moment.Record
import WireProgram.Proofs.Run.Whole

namespace WireProgram

/-! ### The setting -/

/-- An environment that allows arrays to drop a partial element, or does not. -/
def Environment.tailed (environment : Environment) (allows : Bool) : Environment :=
  { environment with config := { environment.config with allowPartialTail := allows } }

/-- A station in such an environment. -/
def Station.tailed (station : Station) (allows : Bool) : Station :=
  { station with environment := station.environment.tailed allows }

/-- A moment in such an environment. -/
def Moment.tailed (moment : Moment) (allows : Bool) : Moment :=
  ⟨moment.station.tailed allows, moment.waiting⟩

/-- The start of an instruction does not depend on the setting. -/
theorem Moment.started_tailed (moment : Moment) (allows : Bool) (instruction : Instruction) :
    (moment.tailed allows).station.started instruction = moment.station.started instruction :=
  rfl

/-! ### Arrays that are cut off -/

/-- **An array that is cut off:** it runs to the end of a view, whose bytes end inside an element. -/
structure Station.Cutoff (station : Station) where
  target : Target
  data : Register
  name : Json
  /-- What comes after the array in its block. -/
  rest : List Instruction
  view : View
  primitive : Primitive
  bytes : Bytes
  /-- The machine after all bytes are read. -/
  drained : Machine
  block : station.block = .decodeArray target data name none :: rest
  targeted : station.frame.target target = .ok view
  named : requirePrimitive name = .ok primitive
  read : (Step.onStreams view.readToEnd).run
    (station.started (.decodeArray target data name none)) = (.ok bytes, drained)
  part : bytes.length % primitive.width ≠ 0

namespace Station.Cutoff

variable {station : Station} (cutoff : station.Cutoff)

def array : Instruction :=
  .decodeArray cutoff.target cutoff.data cutoff.name none

/-- The number of elements that are whole. -/
def count : Nat :=
  cutoff.bytes.length / cutoff.primitive.width

/-- The number of bytes after these. -/
def tail : Nat :=
  cutoff.bytes.length % cutoff.primitive.width

/-- The elements that are whole. -/
def elements : List Scalar :=
  cutoff.primitive.decodeAll (cutoff.bytes.take (cutoff.bytes.length - cutoff.tail))

/-- The frame in which these are written. -/
def written : Except Fault Frame :=
  station.frame.set cutoff.data (.array cutoff.primitive cutoff.elements)

/-- The machine after the warning about the bytes that are dropped. -/
def warned : Machine :=
  { cutoff.drained with warnings :=
      partialTailWarning cutoff.tail cutoff.count cutoff.primitive :: cutoff.drained.warnings }

theorem length_whole :
    (cutoff.bytes.take (cutoff.bytes.length - cutoff.tail)).length =
      cutoff.primitive.width * cutoff.count := by
  have parts := Nat.div_add_mod cutoff.bytes.length cutoff.primitive.width
  rw [List.length_take_of_le (Nat.sub_le _ _)]
  exact Nat.sub_eq_of_eq_add parts.symm

theorem length_elements : cutoff.elements.length = cutoff.count := by
  unfold elements
  rw [Primitive.length_decodeAll, cutoff.length_whole]
  exact Nat.mul_div_cancel_left _ cutoff.primitive.width_pos

/-- An array that runs to the end of its stream, after all bytes are read. -/
theorem run_array (environment : Environment) (refer : Referral) :
    (cutoff.array.run environment refer station.frame).run (station.started cutoff.array) =
      ((if cutoff.tail ≠ 0 ∧ environment.config.allowPartialTail then do
          Step.warn (partialTailWarning cutoff.tail cutoff.count cutoff.primitive)
          Step.ofExcept (arrayOfBytes cutoff.primitive
            (cutoff.bytes.take (cutoff.bytes.length - cutoff.tail)))
        else Step.ofExcept (arrayOfBytes cutoff.primitive cutoff.bytes)) >>= fun value =>
          Step.ofExcept (station.frame.set cutoff.data value)).run cutoff.drained := by
  unfold array Instruction.run readArray
  rw [run_bind_ok (Step.run_ofExcept_ok cutoff.targeted _), bind_assoc,
    run_bind_ok (Step.run_ofExcept_ok cutoff.named _), bind_assoc]
  exact run_bind_ok cutoff.read

/-- **Without the setting** the array fails for a partial element. -/
theorem run_strict (strict : station.environment.config.allowPartialTail = false) :
    (cutoff.array.run station.environment station.refer station.frame).run
        (station.started cutoff.array) =
      (.error ⟨.decode (.partialElement cutoff.bytes.length cutoff.primitive), []⟩,
        cutoff.drained) := by
  rw [cutoff.run_array, if_neg fun both => Bool.false_ne_true (strict.symm.trans both.2),
    arrayOfBytes, if_neg cutoff.part]
  rfl

/-- **With the setting** it gives the elements that are whole. -/
theorem run_lenient :
    (cutoff.array.run (station.tailed true).environment (station.tailed true).refer
        station.frame).run (station.started cutoff.array) =
      (Step.ofExcept cutoff.written).run cutoff.warned := by
  have whole : (cutoff.bytes.take (cutoff.bytes.length - cutoff.tail)).length %
      cutoff.primitive.width = 0 := by
    rw [length_whole, Nat.mul_mod_right]
  rw [cutoff.run_array, if_pos ⟨cutoff.part, rfl⟩, arrayOfBytes_whole whole]
  rfl

end Station.Cutoff

/-- **An array that runs to the end of its stream** is cut off, or the setting does not matter. -/
theorem Station.agrees_or_cutoff {station : Station} {target : Target} {data : Register} {name : Json}
    {rest : List Instruction} (block : station.block = .decodeArray target data name none :: rest)
    (strict : station.environment.config.allowPartialTail = false) :
    let array : Instruction := .decodeArray target data name none
    (array.run station.environment station.refer station.frame).WholeFrom (station.started array) ∧
        (array.run (station.tailed true).environment (station.tailed true).refer station.frame).run
            (station.started array) =
          (array.run station.environment station.refer station.frame).run (station.started array) ∨
      Nonempty station.Cutoff := by
  intro array
  cases targeted : station.frame.target target with
  | error fault =>
    have failed : ∀ environment refer, (array.run environment refer station.frame).run
        (station.started array) = (.error ⟨fault, []⟩, station.started array) := by
      intro environment refer
      unfold array Instruction.run
      rw [targeted]
      rfl
    have other := Ends.framed_unbroken (station.frame.target_framed target)
    exact .inl ⟨Leads.of_error (failed _ _) (other.error targeted),
      (failed _ _).trans (failed _ _).symm⟩
  | ok view =>
    have onward : ∀ environment refer, (array.run environment refer station.frame).run
        (station.started array) =
          (readArray view name none environment.config.allowPartialTail >>= fun value =>
            Step.ofExcept (station.frame.set data value)).run (station.started array) := by
      intro environment refer
      unfold array Instruction.run
      exact run_bind_ok (Step.run_ofExcept_ok targeted _)
    rcases readArray_open view name (station.started array) with
      ⟨whole, same⟩ | ⟨primitive, bytes, drained, named, read, part⟩
    · refine .inl ⟨?_, ?_⟩
      · have wholes := whole.bind fun value => .framed (station.frame.set_framed data value)
        unfold Step.WholeFrom Leads at wholes ⊢
        rwa [onward, strict]
      · have lenient : (station.tailed true).environment.config.allowPartialTail = true := rfl
        rw [onward, onward, strict, lenient, run_bind, same, run_bind]
    · exact .inr ⟨⟨target, data, name, rest, view, primitive, bytes, drained, block, targeted, named,
        read, part⟩⟩

/-! ### Two runs -/

/-- Where a run goes on from an array that is cut off: before the next instruction, in the frame with
the elements that are whole. -/
def Moment.resumed (moment : Moment) (cutoff : moment.station.Cutoff) : List Moment :=
  cutoff.written.toOption.toList.map fun frame => ⟨{ moment.station.tailed true with
    block := cutoff.rest
    index := moment.station.index + 1
    frame := frame
    machine := cutoff.warned }, moment.waiting⟩

/-- **The moments of two runs that part** at an array that is cut off. The first one ends there, and the
path of its failure leads there. The second one comes there over the same moments, and goes on with the
elements that are whole. -/
structure Parting (count : Nat) (primitive : Primitive) (path : List Site)
    (executed executed' : List Moment) where
  /-- The moments inside of which the array stands, from the outside in. -/
  outer : List Moment
  /-- The moments before the array. -/
  before : List Moment
  moment : Moment
  cutoff : moment.station.Cutoff
  /-- The moments of the second run after the rest of the block of the array. -/
  beyond : List Moment
  length_bytes : cutoff.bytes.length = count
  primitive_eq : cutoff.primitive = primitive
  among : outer.Sublist before
  leads : (outer ++ [moment]).map (fun moment => moment.station.site) = path
  ends : executed = before ++ [moment]
  resumes : executed' = (before ++ [moment]).map (·.tailed true) ++
    ((moment.resumed cutoff).flatMap Moment.executed ++ beyond)

namespace Parting

variable {count : Nat} {primitive : Primitive} {path : List Site} {executed executed' : List Moment}

/-- Both runs have been over the same moments before, and the second one may go on. -/
def extend (parting : Parting count primitive path executed executed') (earlier later : List Moment) :
    Parting count primitive path (earlier ++ executed)
      (earlier.map (·.tailed true) ++ executed' ++ later) where
  outer := parting.outer
  before := earlier ++ parting.before
  moment := parting.moment
  cutoff := parting.cutoff
  beyond := parting.beyond ++ later
  length_bytes := parting.length_bytes
  primitive_eq := parting.primitive_eq
  among := parting.among.trans (List.sublist_append_right _ _)
  leads := parting.leads
  ends := (congrArg (earlier ++ ·) parting.ends).trans (List.append_assoc ..).symm
  resumes := by simp only [parting.resumes, List.map_append, List.append_assoc]

/-- The runs part inside of a moment. -/
def inside (parting : Parting count primitive path executed executed') (around : Moment) :
    Parting count primitive (around.station.site :: path) (around :: executed)
      (around.tailed true :: executed') where
  outer := around :: parting.outer
  before := around :: parting.before
  moment := parting.moment
  cutoff := parting.cutoff
  beyond := parting.beyond
  length_bytes := parting.length_bytes
  primitive_eq := parting.primitive_eq
  among := parting.among.cons_cons around
  leads := congrArg (around.station.site :: ·) parting.leads
  ends := congrArg (around :: ·) parting.ends
  resumes := congrArg (around.tailed true :: ·) parting.resumes

end Parting

/-- Two steps that end alike, with values that belong together or for the same reason, which is no
partial element. -/
def Step.Twins {α : Type} (belong : α → α → Prop) (step other : Step α) : Prop :=
  ∀ machine, (∃ failure after, ¬failure.fault.Partial ∧ step.run machine = (.error failure, after) ∧
      other.run machine = (.error failure, after)) ∨
    ∃ value value' after, belong value value' ∧ step.run machine = (.ok value, after) ∧
      other.run machine = (.ok value', after)

namespace Step.Twins

variable {α β : Type} {belong : β → β → Prop}

theorem pure {value value' : β} (belongs : belong value value') :
    Twins belong (Pure.pure value) (Pure.pure value') :=
  fun machine => .inr ⟨value, value', machine, belongs, rfl, rfl⟩

theorem throw {failure : Failure} (other : ¬failure.fault.Partial) :
    Twins belong (MonadExcept.throw failure) (MonadExcept.throw failure) :=
  fun machine => .inl ⟨failure, machine, other, rfl, rfl⟩

/-- A step beside itself. -/
theorem refl {step : Step β} (whole : step.Whole) : Twins Eq step step := by
  intro machine
  rcases ran : step.run machine with ⟨failure | value, after⟩
  · exact .inl ⟨failure, after, (whole machine).error ran, rfl, rfl⟩
  · exact .inr ⟨value, value, after, rfl, rfl, rfl⟩

theorem bind {first : Step α} {next next' : α → Step β} (whole : first.Whole)
    (twins : ∀ value, Twins belong (next value) (next' value)) :
    Twins belong (first >>= next) (first >>= next') := by
  intro machine
  rcases ran : first.run machine with ⟨failure | value, after⟩
  · exact .inl ⟨failure, after, (whole machine).error ran, run_bind_error ran, run_bind_error ran⟩
  · rw [run_bind_ok ran, run_bind_ok ran]
    exact twins value after

end Step.Twins

/-- **Two steps,** the second of which may drop partial elements, and the moments that they execute. They
agree and the first one does not fail for a partial element, or it does and they part. -/
inductive Step.Together {α : Type} (strict lenient : Step α) (before : Machine)
    (executed executed' : List Moment) : Prop
  | agree (whole : strict.WholeFrom before) (ran : lenient.run before = strict.run before)
    (visits : executed' = executed.map (·.tailed true)) :
    Together strict lenient before executed executed'
  | part {count : Nat} {primitive : Primitive} {path : List Site} {after : Machine}
    (failed : strict.run before = (.error ⟨.decode (.partialElement count primitive), path⟩, after))
    (parting : Parting count primitive path executed executed') :
    Together strict lenient before executed executed'

namespace Step.Together

variable {α β : Type} {step step' first first' : Step α} {next next' : α → Step β} {before : Machine}
  {executed executed' inside inside' beyond beyond' : List Moment}

theorem of_whole (whole : step.Whole) : step.Together step before [] [] :=
  .agree (whole before) rfl rfl

/-- **Sequencing:** the second steps come after first ones that agree. -/
theorem bind (one : first.Together first' before inside inside')
    (two : ∀ value after, first.run before = (.ok value, after) →
      first'.run before = (.ok value, after) →
        (next value).Together (next' value) after beyond beyond')
    (last : ∀ failure after, first.run before = (.error failure, after) → beyond = [])
    (last' : ∀ failure after, first'.run before = (.error failure, after) → beyond' = []) :
    (first >>= next).Together (first' >>= next') before (inside ++ beyond) (inside' ++ beyond') := by
  cases one with
  | agree whole same visits =>
    rcases ran : first.run before with ⟨failure | value, after⟩
    · have ran' := same.trans ran
      refine .agree (Leads.of_error (run_bind_error ran) (whole.error ran)) ?_ ?_
      · rw [run_bind_error ran, run_bind_error ran']
      · rw [last _ _ ran, last' _ _ ran', List.append_nil, List.append_nil, visits]
    · have ran' := same.trans ran
      cases two value after ran ran' with
      | agree whole' same' visits' =>
        refine .agree (Leads.bind_run whole fun _ _ ran'' => ?_) ?_ ?_
        · cases ran.symm.trans ran''
          exact whole'
        · rw [run_bind_ok ran, run_bind_ok ran', same']
        · rw [visits, visits', List.map_append]
      | part failed parting =>
        refine .part ((run_bind_ok ran).trans failed) ?_
        have extended := parting.extend inside []
        rwa [List.append_nil, ← visits] at extended
  | part failed parting =>
    rw [last _ _ failed, List.append_nil]
    exact .part (run_bind_error failed) (parting.extend [] beyond')

/-- Steps that go on with steps that agree or part. -/
theorem of_run {machine : Machine} (together : step.Together step' machine executed executed')
    (ran : first.run before = step.run machine) (ran' : first'.run before = step'.run machine) :
    first.Together first' before executed executed' := by
  cases together with
  | agree whole same visits =>
    refine .agree ?_ (by rw [ran, ran', same]) visits
    unfold WholeFrom Leads at whole ⊢
    rwa [ran]
  | part failed parting => exact .part (ran.trans failed) parting

/-- Steps that end alike come first. -/
theorem twins_bind {belong : α → α → Prop} (twins : Twins belong first first')
    (two : ∀ value value' after, belong value value' → first.run before = (.ok value, after) →
      first'.run before = (.ok value', after) →
        (next value).Together (next' value') after executed executed')
    (last : ∀ failure after, first.run before = (.error failure, after) → executed = [])
    (last' : ∀ failure after, first'.run before = (.error failure, after) → executed' = []) :
    (first >>= next).Together (first' >>= next') before executed executed' := by
  rcases twins before with ⟨failure, after, other, ran, ran'⟩ |
    ⟨value, value', after, belongs, ran, ran'⟩
  · refine .agree (Leads.of_error (run_bind_error ran) other) ?_ ?_
    · rw [run_bind_error ran, run_bind_error ran']
    · rw [last _ _ ran, last' _ _ ran', List.map_nil]
  · exact (two value value' after belongs ran ran').of_run (run_bind_ok ran) (run_bind_ok ran')

/-- A step that is the same in both runs comes first. -/
theorem whole_bind (whole : first.Whole)
    (two : ∀ value after, first.run before = (.ok value, after) →
      (next value).Together (next' value) after executed executed')
    (last : ∀ failure after, first.run before = (.error failure, after) → executed = [])
    (last' : ∀ failure after, first.run before = (.error failure, after) → executed' = []) :
    (first >>= next).Together (first >>= next') before executed executed' :=
  twins_bind (.refl whole) (fun value _ after same ran _ => same ▸ two value after ran) last
    last'

/-- A step that is the same in both runs comes last. -/
theorem bind_whole (one : first.Together first' before executed executed')
    (two : ∀ value, (next value).Whole) :
    (first >>= next).Together (first' >>= next) before executed executed' := by
  have both : (first >>= next).Together (first' >>= next) before (executed ++ [])
      (executed' ++ []) :=
    one.bind (fun value _ _ _ => of_whole (two value)) (fun _ _ _ => rfl) fun _ _ _ => rfl
  rwa [List.append_nil, List.append_nil] at both

/-- A computation without the machine comes first. -/
theorem computed_bind {result : Except Fault α} (unbroken : Unbroken result)
    (two : ∀ value, result = .ok value →
      (next value).Together (next' value) before executed executed')
    (last : ∀ fault, result = .error fault → executed = [] ∧ executed' = []) :
    (Step.ofExcept result >>= next).Together (Step.ofExcept result >>= next') before executed
      executed' := by
  cases result with
  | ok value => exact two value rfl
  | error fault =>
    obtain ⟨rfl, rfl⟩ := last fault rfl
    exact of_whole (.throw unbroken)

theorem discard (together : step.Together step' before executed executed') :
    (Functor.discard step : Step Unit).Together (Functor.discard step') before executed
      executed' := by
  cases together with
  | agree whole same visits =>
    refine .agree ?_ (by rw [run_discard, run_discard, same]) visits
    rcases ran : step.run before with ⟨failure | value, after⟩
    · exact Leads.of_error (by rw [run_discard, ran]) (whole.error ran)
    · exact Leads.of_ok (by rw [run_discard, ran]) trivial
  | part failed parting => exact .part (by rw [run_discard, failed]) parting

/-- **At its place** a step parts as the moment there. -/
theorem guarded (together : step.Together step' before executed executed') (config : Config)
    (depth : Nat) (moment : Moment) :
    (Step.guarded config depth moment.station.site step).Together
      (Step.guarded { config with allowPartialTail := true } depth moment.station.site step') before
      (moment :: executed) (moment.tailed true :: executed') := by
  have run := run_guarded config depth moment.station.site step before
  have run' := run_guarded { config with allowPartialTail := true } depth moment.station.site step'
    before
  cases together with
  | agree whole same visits =>
    have visits' := congrArg (moment.tailed true :: ·) visits
    rw [same] at run'
    rcases ran : step.run before with ⟨failure | value, after⟩
    · rw [ran] at run run'
      refine .agree (Leads.of_error run ?_) (run'.trans run.symm) visits'
      rw [Failure.fault_within]
      exact whole.error ran
    · rw [ran] at run run'
      exact .agree (Leads.of_ok run trivial) (run'.trans run.symm) visits'
  | part failed parting =>
    rw [failed] at run
    exact .part run (parting.inside moment)

theorem withProgress {body body' : Step Unit} (view : View)
    (together : body.Together body' before executed executed') :
    (WireProgram.withProgress view body).Together (WireProgram.withProgress view body') before
      executed executed' := by
  refine whole_bind (.look _) (fun position after ran => ?_) (fun failure after ran => ?_)
    fun failure after ran => ?_
  · cases ran
    refine together.bind_whole fun _ => (Whole.look _).bind fun last => ?_
    split
    · exact .throw id
    · exact .pure _
  · cases ran
  · cases ran

/-- **Loops** agree, or part in one of their rounds. -/
theorem takeTurns {test : Step Bool} {round round' spent : Step Unit} {bound : Nat}
    {each each' : Machine → List Moment} (tests : test.Whole) (spends : spent.Whole)
    (rounds : ∀ machine ∈ turns test round bound before,
      round.Together round' machine (each machine) (each' machine)) :
    (WireProgram.takeTurns test round spent bound).Together
      (WireProgram.takeTurns test round' spent bound) before
      ((turns test round bound before).flatMap each)
      ((turns test round' bound before).flatMap each') := by
  induction bound generalizing before with
  | zero => exact of_whole spends
  | succ bound hypothesis =>
    rw [WireProgram.takeTurns, WireProgram.takeTurns]
    rw [turns] at rounds ⊢
    rw [turns]
    refine whole_bind tests (fun goesOn tested held => ?_) (fun failure after ran => ?_)
      fun failure after ran => ?_
    · rw [held] at rounds ⊢
      cases goesOn with
      | false => exact of_whole (.pure ())
      | true =>
        obtain ⟨here, others⟩ := List.forall_mem_cons.mp rounds
        rw [if_pos rfl, if_pos rfl, List.flatMap_cons, List.flatMap_cons]
        refine here.bind (fun _ after ran ran' => ?_) (fun failure after ran => ?_)
          fun failure after ran => ?_
        · rw [ran] at others ⊢
          rw [ran']
          exact hypothesis others
        · rw [ran]
          rfl
        · rw [ran]
          rfl
    · rw [ran]
      rfl
    · rw [ran]
      rfl

end Step.Together

/-! ### Loops -/

/-- Two loops that differ in their rounds only. -/
inductive Cycle.Twin (round round' : Frame → Step Unit) : Cycle → Cycle → Prop
  | plain {cell bound : Nat} {frame inner : Frame} {test : Step Bool} {spent : Step Unit}
    (tests : test.Whole) (spends : spent.Whole) :
    Twin round round' ⟨cell, frame, inner, test, round inner, bound, spent⟩
      ⟨cell, frame, inner, test, round' inner, bound, spent⟩
  | progress {cell bound : Nat} {frame inner : Frame} {test : Step Bool} {spent : Step Unit}
    (tests : test.Whole) (spends : spent.Whole) (view : View) :
    Twin round round' ⟨cell, frame, inner, test, withProgress view (round inner), bound, spent⟩
      ⟨cell, frame, inner, test, withProgress view (round' inner), bound, spent⟩

/-- **Before its first round** a loop does not depend on what its rounds run. -/
theorem Station.prepare_twins (station other : Station) (same : other.frame = station.frame)
    (target : Target) (output : Register) (body : List Instruction)
    (stop terminator : Option Register) :
    Step.Twins (Cycle.Twin (station.round body) (other.round body))
      (station.prepare target output body stop terminator)
      (other.prepare target output body stop terminator) := by
  cases stop with
  | some stop =>
    cases terminator with
    | some terminator => exact .throw id
    | none =>
      unfold prepare
      rw [same]
      exact .bind (.countIn _ _ _) fun _ => .bind (.look _) fun _ => .bind .newList fun _ =>
        .bind (.framed (station.frame.set_framed _ _)) fun _ =>
          .pure (.plain (.pure _) (.pure _))
  | none =>
    cases terminator with
    | some terminator =>
      unfold prepare
      rw [same]
      refine .bind (.framed (station.frame.target_framed _)) fun _ =>
        .bind (.framed (station.frame.get_framed _)) fun value => .bind (.look _) fun _ =>
          .bind (.look _) fun _ => .bind (.computed (value.toBytes_computes _ _)) fun ending => ?_
      split
      · exact .throw id
      · exact .bind (.look _) fun _ => .bind .newList fun _ =>
          .bind (.framed (station.frame.set_framed _ _)) fun _ =>
            .pure (.progress (.goesOn _ _) (.throw id) _)
    | none =>
      unfold prepare
      rw [same]
      exact .bind (.framed (station.frame.target_framed _)) fun view =>
        .bind (.onStreams view.readToEnd_reads) fun _ => .bind (.onStreams (.openedBy _)) fun _ =>
          .bind (.look _) fun _ => .bind .newList fun _ =>
            .bind (.framed (station.frame.set_framed _ _)) fun _ =>
              .pure (.progress (.hasMore _) (.throw id) _)

/-- Other instructions without a block do not see the setting. -/
theorem Instruction.run_tailed (environment : Environment) (refer refer' : Referral)
    {instruction : Instruction} (immediate : instruction.isImmediate = true)
    (closed : instruction.isOpenArray = false) (frame : Frame) :
    instruction.run (environment.tailed true) refer' frame =
      instruction.run environment refer frame := by
  cases instruction with
  | decodeArray target data primitive length =>
    cases length with
    | none => cases closed
    | some length => rfl
  | conditionalWrapStream | decodeReference | loop | conditional => cases immediate
  | _ => rfl

/-! ### Instructions and blocks -/

namespace Moment

open Step (Together)

/-- The runs of what is left of a block, from the same moment on, agree or part. -/
def TogetherOnward (moment : Moment) : Prop :=
  moment.station.onward.Together (moment.tailed true).station.onward moment.station.machine
    moment.executed (moment.tailed true).executed

/-- The runs of an instruction, from the same moment on, agree or part. -/
def TogetherAt (moment : Moment) (instruction : Instruction) : Prop :=
  (instruction.run moment.station.environment moment.station.refer moment.station.frame).Together
    (instruction.run (moment.tailed true).station.environment (moment.tailed true).station.refer
      (moment.tailed true).station.frame)
    (moment.station.started instruction) ((moment.entered instruction).flatMap executed)
    (((moment.tailed true).entered instruction).flatMap executed)

variable {moment : Moment} {instruction : Instruction} {rest : List Instruction}

/-- **Loops** agree, or part in one of their rounds. -/
theorem together_loop {target : Target} {stop terminator : Option Register} {output : Register}
    {body : List Instruction}
    (inside : ∀ next ∈ moment.entered (.loop target stop terminator output body),
      next.TogetherOnward) :
    moment.TogetherAt (.loop target stop terminator output body) := by
  unfold TogetherAt
  rw [moment.station.run_loop, (moment.tailed true).station.run_loop]
  have twins := moment.station.prepare_twins (moment.tailed true).station rfl target output body stop
    terminator
  refine .twins_bind twins (fun cycle cycle' listed twin ran ran' => ?_) (fun failure after ran => ?_)
    fun failure after ran => ?_
  · rw [entered_loop ran] at inside ⊢
    rw [entered_loop ran', List.flatMap_map, List.flatMap_map]
    have rounds : ∀ machine ∈ turns cycle.test cycle.round cycle.bound listed, _ :=
      fun machine member => (inside _ (List.mem_map_of_mem member)).discard
    cases twin with
    | plain tests spends =>
      refine Together.bind_whole ?_ fun _ => .pure _
      exact .takeTurns tests spends rounds
    | progress tests spends view =>
      refine Together.bind_whole ?_ fun _ => .pure _
      exact .takeTurns tests spends fun machine member => (rounds machine member).withProgress view
  · rw [entered_loop_failed ran]
    rfl
  · rw [@entered_loop_failed (moment.tailed true) _ _ _ _ _ _ _ ran]
    rfl

/-- **Programs** agree, or part in their instructions. -/
theorem together_decode {environment : Environment} {depth : Nat} {opening : Except Fault View}
    {values : List Value} {before : Machine} {visited visited' : List Moment}
    (opens : Unbroken opening)
    (block : ∀ frame view, bindArguments environment.program values = .ok frame →
      opening = .ok view → (environment.start depth (frame.bindReader view) before).onward.Together
        ((environment.tailed true).start depth (frame.bindReader view) before).onward before visited
          visited')
    (unbound : ∀ fault, bindArguments environment.program values = .error fault →
      visited = [] ∧ visited' = [])
    (unopened : ∀ fault, opening = .error fault → visited = [] ∧ visited' = []) :
    (environment.decode (decodeMessage environment.types environment.mode environment.config depth)
      opening values).Together
        ((environment.tailed true).decode (decodeMessage environment.types environment.mode
          (environment.tailed true).config depth) opening values) before visited visited' := by
  refine .computed_bind (Ends.framed_unbroken (bindArguments_framed _ _)) (fun frame bound => ?_)
    unbound
  refine .computed_bind opens (fun view opened => ?_) unopened
  exact (block frame view bound opened).bind_whole fun inner =>
    .bind (.computed environment.program.outputRegister_computes) fun register =>
      .framed (inner.get_framed register)

/-- What a reference decodes is found, or not for another reason than a partial element. -/
theorem reference_unbroken (station : Station) (target : Target) (name : Json)
    (arguments : List Register) : Unbroken (station.reference target name arguments) := by
  have required :=
    station.environment.types.require_ends (fun _ => Fault.OfValues.not_partial) name id
  exact (Ends.framed_unbroken (station.frame.target_framed _)).bind fun _ _ =>
    required.bind fun entry _ => (Ends.framed_unbroken (station.frame.getMany_framed _)).bind
      fun _ _ => (Ends.computed_unbroken entry.inPlace_computes).bind fun _ _ => trivial

/-- **References** agree, or part in the message. -/
theorem together_reference {target : Target} {data : Register} {name : Json}
    {arguments : List Register}
    (inside : ∀ next ∈ moment.entered (.decodeReference target data name arguments),
      next.TogetherOnward) :
    moment.TogetherAt (.decodeReference target data name arguments) := by
  unfold TogetherAt
  rw [moment.station.run_reference, (moment.tailed true).station.run_reference]
  refine .computed_bind (reference_unbroken _ _ _ _) (fun referred found => ?_) fun fault failed => ?_
  · obtain ⟨view, message, values⟩ := referred
    refine Together.bind_whole ?_ fun _ => .framed (moment.station.frame.set_framed _ _)
    have found' : (moment.tailed true).station.reference target name arguments =
        .ok (view, message, values) := found
    unfold Station.refer
    cases deep : moment.station.depth with
    | zero =>
      have deep' : (moment.tailed true).station.depth = 0 := deep
      rw [deep', entered_reference_shallow deep, entered_reference_shallow deep']
      exact .of_whole (.throw id)
    | succ depth =>
      have deep' : (moment.tailed true).station.depth = depth + 1 := deep
      rw [deep']
      refine @together_decode (moment.station.calling message) depth (.ok view) values _ _ _ trivial
        (fun frame opened bound same => ?_) (fun fault failed => ?_) nofun
      · cases same
        rw [entered_reference found deep bound] at inside ⊢
        rw [entered_reference found' deep' bound, List.flatMap_singleton, List.flatMap_singleton]
        exact inside _ (List.mem_singleton_self _)
      · rw [entered_reference_unbound found deep failed,
          entered_reference_unbound found' deep' failed]
        exact ⟨rfl, rfl⟩
  · have failed' : (moment.tailed true).station.reference target name arguments = .error fault :=
      failed
    rw [entered_reference_unfound failed, entered_reference_unfound failed']
    exact ⟨rfl, rfl⟩

/-- **Conditional blocks** agree, or part. -/
theorem together_conditional {target interior condition : Register} {body : List Instruction}
    (inside : ∀ next ∈ moment.entered (.conditional target interior condition body),
      next.TogetherOnward) :
    moment.TogetherAt (.conditional target interior condition body) := by
  unfold TogetherAt Instruction.run
  refine .whole_bind (.conditionHolds _ _) (fun holds after ran => ?_) (fun failure after ran => ?_)
    fun failure after ran => ?_
  · rw [entered_conditional ran] at inside ⊢
    rw [@entered_conditional (moment.tailed true) _ _ _ _ _ _ ran]
    -- The branch is taken before the steps are compared: the bodies run with different settings.
    cases holds with
    | false =>
      simp only [Bool.false_eq_true, if_false, List.flatMap_nil]
      exact .of_whole (.framed (moment.station.frame.set_framed _ _))
    | true =>
      have block := inside _ (List.mem_singleton_self _)
      simp only [if_true, List.flatMap_singleton]
      exact block.bind_whole fun inner => .bind (.framed (inner.get_framed _)) fun _ =>
        .framed (moment.station.frame.set_framed _ _)
  · rw [entered_conditional_failed ran]
    rfl
  · rw [@entered_conditional_failed (moment.tailed true) _ _ _ _ _ _ ran]
    rfl

/-- **Conditional regions** agree, or part in what prepares them. -/
theorem together_prelude {condition newStream : Register} {prelude : List Instruction}
    {stream : Target} {transform : Transform} {arguments : List Register}
    (inside : ∀ next ∈ moment.entered
        (.conditionalWrapStream condition prelude stream newStream transform arguments),
      next.TogetherOnward) :
    moment.TogetherAt
      (.conditionalWrapStream condition prelude stream newStream transform arguments) := by
  unfold TogetherAt Instruction.run
  refine .computed_bind (Ends.framed_unbroken (moment.station.frame.target_framed _))
    (fun view targeted => ?_) fun fault failed => ?_
  · have targeted' : (moment.tailed true).station.frame.target stream = .ok view := targeted
    refine .whole_bind (.conditionHolds _ _) (fun holds after ran => ?_) (fun failure after ran => ?_)
      fun failure after ran => ?_
    · rw [entered_prelude targeted ran] at inside ⊢
      rw [entered_prelude targeted' ran]
      cases holds with
      | false =>
        simp only [Bool.false_eq_true, if_false, List.flatMap_nil]
        exact .of_whole (.framed (moment.station.frame.set_framed _ _))
      | true =>
        have block := inside _ (List.mem_singleton_self _)
        simp only [if_true, List.flatMap_singleton]
        exact block.bind_whole fun inner => .bind (.framed (inner.getMany_framed _)) fun _ =>
          .bind (.onStreams (transform.wrap_reads _ _)) fun _ =>
            .framed (moment.station.frame.set_framed _ _)
    · rw [entered_prelude_failed targeted ran]
      rfl
    · rw [entered_prelude_failed targeted' ran]
      rfl
  · have failed' : (moment.tailed true).station.frame.target stream = .error fault := failed
    rw [entered_prelude_untargeted failed, entered_prelude_untargeted failed']
    exact ⟨rfl, rfl⟩

/-- **Instructions** agree, or part in what they execute, unless they are arrays that run to the end of
their stream. -/
theorem together_instruction (instruction : Instruction) (closed : instruction.isOpenArray = false)
    (inside : ∀ next ∈ moment.entered instruction, next.TogetherOnward) :
    moment.TogetherAt instruction := by
  by_cases immediate : instruction.isImmediate = true
  · unfold TogetherAt
    rw [entered_immediate immediate, entered_immediate immediate]
    have same := instruction.run_tailed moment.station.environment moment.station.refer
      (moment.tailed true).station.refer immediate closed moment.station.frame
    exact (Together.of_whole (instruction.run_whole _ _ immediate closed _)).of_run rfl
      (congrArg (·.run (moment.station.started instruction)) same)
  cases instruction with
  | conditionalWrapStream => exact together_prelude inside
  | decodeReference => exact together_reference inside
  | loop => exact together_loop inside
  | conditional => exact together_conditional inside
  | _ => exact absurd rfl immediate

/-- **An instruction with its records** agrees, or parts, as the instruction does. -/
theorem together_tracedRun (block : moment.station.block = instruction :: rest)
    (together : moment.TogetherAt instruction) :
    (moment.tracedRun instruction).Together ((moment.tailed true).tracedRun instruction)
      moment.station.machine (moment :: (moment.entered instruction).flatMap executed)
      (moment.tailed true :: ((moment.tailed true).entered instruction).flatMap executed) := by
  have guarded := together.guarded moment.station.environment.config moment.station.frame.depth moment
  have run' := (moment.tailed true).run_tracedRun instruction
  rw [Station.site_eq block] at guarded
  rw [started_tailed] at run'
  exact guarded.of_run (moment.run_tracedRun instruction) run'

/-- A block agrees, or parts, if its first instruction does, and then what comes later. -/
theorem together_cons (block : moment.station.block = instruction :: rest)
    (here : moment.TogetherAt instruction)
    (later : ∀ next ∈ moment.later instruction rest, next.TogetherOnward) :
    moment.TogetherOnward := by
  have block' : (moment.tailed true).station.block = instruction :: rest := block
  unfold TogetherOnward
  rw [executed_cons block, executed_cons block', onward_eq block, onward_eq block',
    ← List.cons_append, ← List.cons_append]
  refine (together_tracedRun block here).bind (fun frame after ran ran' => ?_)
    (fun failure after ran => ?_) fun failure after ran => ?_
  · have goes := later_of_ok rest ran
    rw [goes, @later_of_ok (moment.tailed true) _ rest _ _ ran', List.flatMap_singleton,
      List.flatMap_singleton]
    exact later _ (goes ▸ List.mem_singleton_self _)
  · rw [later_of_error rest ran]
    rfl
  · rw [@later_of_error (moment.tailed true) _ rest _ _ ran]
    rfl

/-- With the setting, a run goes on from an array that is cut off. -/
theorem later_of_cutoff (cutoff : moment.station.Cutoff) :
    (moment.tailed true).later cutoff.array cutoff.rest = moment.resumed cutoff := by
  have ran := cutoff.run_lenient
  have started := moment.started_tailed true cutoff.array
  unfold later Station.next? resumed
  rw [started]
  cases written : cutoff.written with
  | error fault =>
    have ended : (cutoff.array.run (moment.tailed true).station.environment
        (moment.tailed true).station.refer (moment.tailed true).station.frame).run
        (moment.station.started cutoff.array) = (.error ⟨fault, []⟩, cutoff.warned) :=
      ran.trans (written ▸ rfl)
    simp only [ended]
    rfl
  | ok frame =>
    have ended : (cutoff.array.run (moment.tailed true).station.environment
        (moment.tailed true).station.refer (moment.tailed true).station.frame).run
        (moment.station.started cutoff.array) = (.ok frame, cutoff.warned) :=
      ran.trans (written ▸ rfl)
    simp only [ended]
    rfl

/-- **At an array that is cut off** the runs part. -/
theorem together_cutoff (cutoff : moment.station.Cutoff)
    (strict : moment.station.environment.config.allowPartialTail = false) :
    moment.TogetherOnward := by
  have block : moment.station.block = cutoff.array :: cutoff.rest := cutoff.block
  have block' : (moment.tailed true).station.block = cutoff.array :: cutoff.rest := cutoff.block
  have nothing : ∀ moment : Moment, moment.entered cutoff.array = [] :=
    fun _ => entered_immediate rfl
  have failed := moment.run_tracedRun cutoff.array
  rw [Step.run_guarded, cutoff.run_strict strict, ← Station.site_eq block] at failed
  unfold TogetherOnward
  rw [executed_cons block, executed_cons block', nothing, nothing, later_of_error _ failed,
    later_of_cutoff, onward_eq block]
  exact .part (run_bind_error failed) {
    outer := []
    before := []
    moment := moment
    cutoff := cutoff
    beyond := []
    length_bytes := rfl
    primitive_eq := rfl
    among := .slnil
    leads := rfl
    ends := rfl
    resumes := by rw [List.append_nil]; rfl }

/-- **What is left of a block** agrees, or parts. The induction is on what every step of a run uses up;
at an array that is cut off the runs part, and elsewhere they go on as the induction says. -/
theorem together (strict : moment.station.environment.config.allowPartialTail = false) :
    moment.TogetherOnward := by
  induction moment using executed.induct with
  | case1 moment empty =>
    have block := List.isEmpty_iff.mp empty
    have block' : (moment.tailed true).station.block = [] := block
    unfold TogetherOnward Station.onward
    rw [executed_nil block, executed_nil block', block, block', runBlock, runBlock]
    exact .of_whole (.pure _)
  | case2 moment filled hypothesis =>
    obtain ⟨instruction, rest, block⟩ := List.exists_cons_of_ne_nil fun empty =>
      filled (List.isEmpty_iff.mpr empty)
    have children : moment.children =
        moment.entered instruction ++ moment.later instruction rest := by
      unfold Moment.children
      rw [block]
    have child : ∀ next ∈ moment.children, next.TogetherOnward := fun next member =>
      hypothesis ⟨next, member⟩ ((follows_of_mem_children member).config ▸ strict)
    have later : ∀ next ∈ moment.later instruction rest, next.TogetherOnward :=
      fun next member => child next (children ▸ List.mem_append_right _ member)
    cases closed : instruction.isOpenArray with
    | false =>
      refine together_cons block (together_instruction instruction closed fun next member => ?_) later
      exact child next (children ▸ List.mem_append_left _ member)
    | true =>
      obtain ⟨target, data, name, rfl⟩ := instruction.eq_of_isOpenArray closed
      rcases Station.agrees_or_cutoff block strict with ⟨whole, same⟩ | cutoffs
      · exact together_cons block (.agree whole same rfl) later
      · exact cutoffs.elim fun cutoff => together_cutoff cutoff strict

end Moment

/-! ### Whole runs -/

theorem decodeWith_together (environment : Environment) (source : RunSource) (values : List Value)
    (machine : Machine) (strict : environment.config.allowPartialTail = false) :
    (decodeWith environment source values).Together
      (decodeWith (environment.tailed true) source values) machine
      (environment.executed source values machine)
      ((environment.tailed true).executed source values machine) := by
  have opens := Ends.computed_unbroken (source.open_computes environment.mode)
  refine Moment.together_decode opens (fun frame view bound opened => ?_) (fun fault failed => ?_)
    fun fault failed => ?_
  · rw [environment.executed_eq bound opened, (environment.tailed true).executed_eq bound opened]
    exact @Moment.together ⟨environment.start _ (frame.bindReader view) machine, []⟩ strict
  · exact ⟨environment.executed_unbound failed _, (environment.tailed true).executed_unbound failed _⟩
  · exact ⟨environment.executed_unopened failed _,
      (environment.tailed true).executed_unopened failed _⟩

/-- **The setting rescues partial elements, and nothing else.** Any program is run over any source, in any
mode and with any arguments, once without the setting and once with it. If the first run does not fail for
a partial element, the second one ends like it, with the same value or the same failure, and on the same
machine, and both execute the same. If it does, the last moment of the first run is an array that is cut
off, to which the path of the failure leads; the second run comes there over the same moments, writes the
elements that are whole, and goes on. -/
theorem decode_rescued (environment : Environment) (source : RunSource) (values : List Value)
    (machine : Machine) :
    let ran := (decodeWith (environment.tailed false) source values).run machine
    let visited := (environment.tailed false).executed source values machine
    let visited' := (environment.tailed true).executed source values machine
    ((∀ count primitive path, ran.1 ≠ .error ⟨.decode (.partialElement count primitive), path⟩) →
      (decodeWith (environment.tailed true) source values).run machine = ran ∧
        visited' = visited.map (·.tailed true)) ∧
    ∀ count primitive path, ran.1 = .error ⟨.decode (.partialElement count primitive), path⟩ →
      ∃ parting : Parting count primitive path visited visited',
        let station := (parting.moment.tailed true).station
        (parting.cutoff.array.run station.environment station.refer station.frame).run
            (station.started parting.cutoff.array) =
          (Step.ofExcept parting.cutoff.written).run parting.cutoff.warned ∧
        parting.cutoff.elements.length = count / primitive.width := by
  intro ran visited visited'
  have together := decodeWith_together (environment.tailed false) source values machine rfl
  cases together with
  | agree whole same visits =>
    refine ⟨fun _ => ⟨same, visits⟩, fun count primitive path failed => ?_⟩
    exact absurd trivial (whole.error (Prod.ext failed rfl : ran = (_, ran.2)))
  | part failed parting =>
    refine ⟨fun other => absurd (congrArg Prod.fst failed) (other _ _ _), ?_⟩
    intro count primitive path failed'
    cases (congrArg Prod.fst failed).symm.trans failed'
    refine ⟨parting, parting.cutoff.run_lenient, ?_⟩
    rw [parting.cutoff.length_elements, Station.Cutoff.count, parting.length_bytes,
      parting.primitive_eq]

/-- Records of two-byte numbers, each in a region whose length stands before it. -/
def samples : Environment where
  program := Examples.programOf 6
    [Examples.scalar 0 "u8",
      .loop .direct (some (Examples.register 0)) none (Examples.register 5)
        [Examples.scalar 1 "u8",
          .constrict .direct (Examples.register 2) (Examples.register 1),
          .decodeReference (.stream (Examples.register 2)) (Examples.register 3) "Samples" [],
          .loopOutput (Examples.register 5) (Examples.register 3)]]
  types := [("Samples", .message {
    name := "Samples"
    program := Examples.programOf 1 [.decodeArray .direct (Examples.register 0) "u16" none] })]
  mode := "blocking"
  config := {}

/-- Two records, of which the first one ends inside a number. -/
def oddSamples : Machine where
  streams := (Streams.openSource {} .blocking ⟨[.bytes [2, 3, 1, 2, 3, 2, 4, 5]], 0⟩).2

/-- The partial element that a run fails for, and the path of the failure. -/
def partialElement? {α : Type} : Except Failure α → Option (Nat × Primitive × List Site)
  | .error ⟨.decode (.partialElement count primitive), path⟩ => some (count, primitive, path)
  | _ => none

theorem eq_of_partialElement? {α : Type} {result : Except Failure α} {count : Nat}
    {primitive : Primitive} {path : List Site}
    (found : partialElement? result = some (count, primitive, path)) :
    result = .error ⟨.decode (.partialElement count primitive), path⟩ := by
  unfold partialElement? at found
  split at found
  · cases found
    rfl
  · cases found

/-- Without the setting the run ends in the first record. With it, the first record loses its last byte,
and the second one is read. -/
theorem decode_rescued_of_oddSamples :
    ∃ parting : Parting 3 .u16
        [⟨1, "Loop(r5)"⟩, ⟨2, "DecodeRef(r3)"⟩, ⟨0, "DecodePrimitiveArray(r0)"⟩]
        ((samples.tailed false).executed ⟨.source .blocking 0, true⟩ [] oddSamples)
        ((samples.tailed true).executed ⟨.source .blocking 0, true⟩ [] oddSamples),
      parting.cutoff.elements.length = 1 ∧
      let ran := (decodeWith (samples.tailed true) ⟨.source .blocking 0, true⟩ []).run oddSamples
      ran.1.toOption.isSome = true ∧
      ran.2.warnings = ["dropping 1 trailing byte(s) after 1 u16 elements"] := by
  have failed : partialElement?
      ((decodeWith (samples.tailed false) ⟨.source .blocking 0, true⟩ []).run oddSamples).1 =
        some (3, .u16, [⟨1, "Loop(r5)"⟩, ⟨2, "DecodeRef(r3)"⟩, ⟨0, "DecodePrimitiveArray(r0)"⟩]) := by
    decide +kernel
  obtain ⟨parting, -, length⟩ :=
    (decode_rescued samples ⟨.source .blocking 0, true⟩ [] oddSamples).2 3 .u16 _
      (eq_of_partialElement? failed)
  exact ⟨parting, length, by decide +kernel, by decide +kernel⟩

end WireProgram
