/-
**The steps of a run, one by one.**

What each operation on the machine does to it is said here once, and how the ends of a guarded
instruction come from those of the instruction:

* `Step.run_ofExcept` and its like, the operations on one part of the machine;
* `Step.run_guarded`, an instruction at its place;
* `Step.onStreams_bind`, a sequence of operations on the streams;
* `Step.Immediate`, a step that runs no instruction, and `Instruction.run_immediate`, the instructions
  that are such steps;
* `cursorFrame_cases` and `target_cursorFrame`, the frame of the body of a loop over a cursor;
* `Frame.Views.bindArguments` and its like, the streams that a frame holds;
* `untilTerminator_succ`, one round of a loop up to a terminator;
* `decodeInput`, a run over a new source.
-/

import WireProgram.Program.Discipline
import WireProgram.Proofs.Frame
import WireProgram.Proofs.Stream.Region
import WireProgram.Run

namespace WireProgram

namespace Step

variable {α β : Type}

theorem run_ofExcept (result : Except Fault α) (machine : Machine) :
    (ofExcept result).run machine = (result.mapError fun fault => ⟨fault, []⟩, machine) := rfl

theorem run_ofExcept_ok {result : Except Fault α} {value : α} (same : result = .ok value)
    (machine : Machine) : (ofExcept result).run machine = (.ok value, machine) := by
  rw [same]
  rfl

theorem run_ofExcept_eq_ok {result : Except Fault α} {value : α} {before after : Machine}
    (ran : (ofExcept result).run before = (.ok value, after)) : result = .ok value ∧ after = before := by
  cases result with
  | error fault => cases ran
  | ok found =>
    cases ran
    exact ⟨rfl, rfl⟩

theorem run_onStreams (step : StreamStep Codec α) (machine : Machine) :
    (onStreams step).run machine =
      ((step.run machine.streams).1.mapError fun fault => ⟨fault, []⟩,
        { machine with streams := (step.run machine.streams).2 }) := rfl

theorem run_onStreams_eq_ok {step : StreamStep Codec α} {value : α} {before after : Machine}
    (ran : (onStreams step).run before = (.ok value, after)) :
    step.run before.streams = (.ok value, after.streams) := by
  rw [run_onStreams] at ran
  rcases same : step.run before.streams with ⟨fault | found, streams⟩
  · rw [same] at ran
    cases ran
  · rw [same] at ran
    cases ran
    rfl

theorem lists_of_onStreams {step : StreamStep Codec α} {before after : Machine}
    {result : Except Failure α} (ran : (onStreams step).run before = (result, after)) :
    after.lists = before.lists := by
  rw [run_onStreams] at ran
  rw [← (Prod.mk.inj ran).2]

theorem run_look (question : Machine → α) (machine : Machine) :
    (look question).run machine = (.ok (question machine), machine) := rfl

theorem run_change (act : Machine → Machine) (machine : Machine) :
    (change act).run machine = (.ok (), act machine) := rfl

theorem run_onLists (act : Lists → Except Fault (α × Lists)) (machine : Machine) :
    (onLists act).run machine =
      match act machine.lists with
      | .ok (value, lists) => (.ok value, { machine with lists := lists })
      | .error fault => (.error ⟨fault, []⟩, machine) := by
  show (match act machine.lists with
    | .ok (value, lists) => (Except.ok value, { machine with lists := lists })
    | .error fault => (Except.error ⟨fault, []⟩, machine) : Except Failure α × Machine) = _
  rcases act machine.lists with _ | ⟨value, lists⟩ <;> rfl

/-- The machine after a failure was recorded. -/
def recorded (config : Config) (depth : Nat) (site : Site) (failure : Failure)
    (machine : Machine) : Machine :=
  if failure.fault.isDecode ∧ config.trace then
    { machine with
      trace := machine.trace.record "fail" depth site.label failure.fault.message }
  else machine

/-- A failure is recorded in the trace only. -/
theorem recorded_streams (config : Config) (depth : Nat) (site : Site) (failure : Failure)
    (machine : Machine) : (recorded config depth site failure machine).streams = machine.streams := by
  unfold recorded
  split <;> rfl

theorem run_guarded (config : Config) (depth : Nat) (site : Site) (step : Step α)
    (machine : Machine) :
    (guarded config depth site step).run machine =
      match step.run machine with
      | (.ok value, after) => (.ok value, after)
      | (.error failure, after) =>
        (.error (failure.within site), recorded config depth site failure after) := by
  rw [guarded, run_tryCatch]
  rcases step.run machine with ⟨failure | value, after⟩
  · unfold recorded
    cases decode : failure.fault.isDecode with
    | false => simp [decode, run_throw]
    | true =>
      cases trace : config.trace with
      | false => simp [decode, trace, record, run_bind, run_change, run_throw]
      | true => simp [decode, trace, record, run_bind, run_change, run_throw]
  · rfl

/-- A computation that does not touch the machine, after a step. -/
theorem run_bind_ofExcept (first : Step α) (next : α → Except Fault β) (machine : Machine) :
    (first >>= fun value => ofExcept (next value)).run machine =
      ((first.run machine).1.bind fun value => (next value).mapError fun fault => ⟨fault, []⟩,
        (first.run machine).2) := by
  rw [run_bind]
  rcases first.run machine with ⟨failure | value, after⟩ <;> rfl

/-- Of the machine, an instruction at its place may change the trace. -/
theorem run_guarded_eq (config : Config) (depth : Nat) (site : Site) (step : Step α)
    (machine : Machine) : ∃ trace, (guarded config depth site step).run machine =
      ((step.run machine).1.mapError fun failure => failure.within site,
        { (step.run machine).2 with trace := trace }) := by
  rw [run_guarded]
  rcases step.run machine with ⟨failure | value, after⟩
  · dsimp only
    unfold recorded
    split
    · exact ⟨_, rfl⟩
    · exact ⟨after.trace, rfl⟩
  · exact ⟨after.trace, rfl⟩

/-- Operations on the streams, one after the other. -/
theorem onStreams_bind (first : StreamStep Codec α) (next : α → StreamStep Codec β) :
    onStreams (first >>= next) = onStreams first >>= fun value => onStreams (next value) := by
  funext machine
  show (onStreams (first >>= next)).run machine = (onStreams first >>= _).run machine
  rw [run_onStreams, run_bind, run_bind, run_onStreams]
  rcases first.run machine.streams with ⟨fault | value, after⟩ <;> rfl

end Step

/-- A new list, in the first free cell. -/
theorem run_newList (machine : Machine) : newList.run machine =
    (.ok (.list machine.lists.size), { machine with lists := machine.lists.push [] }) := rfl

theorem run_addOutput {frame : Frame} {machine : Machine} {output item : Register} {cell : Nat}
    {value : Value} (list : frame.get output = .ok (.list cell)) (read : frame.get item = .ok value) :
    (addOutput frame output item).run machine = (.ok (),
      { machine with lists := machine.lists.modify cell fun items => items ++ [value] }) := by
  unfold addOutput
  rw [list, read]
  rfl

/-! ### Steps that run no instruction -/

/-- A step that runs no instruction: it is put together from computations and from operations on the
streams and the lists. It does not look at the trace. -/
inductive Step.Immediate : {α : Type} → Step α → Prop where
  | pure {α : Type} (value : α) : Immediate (Pure.pure value : Step α)
  | throw {α : Type} (fault : Fault) : Immediate (MonadExcept.throw ⟨fault, []⟩ : Step α)
  | bind {α β : Type} {first : Step α} {next : α → Step β} (one : Immediate first)
      (two : ∀ value, Immediate (next value)) : Immediate (first >>= next)
  | ofExcept {α : Type} (result : Except Fault α) : Immediate (Step.ofExcept result)
  | onStreams {α : Type} (step : StreamStep Codec α) : Immediate (Step.onStreams step)
  | onLists {α : Type} (act : Lists → Except Fault (α × Lists)) : Immediate (Step.onLists act)
  | look {α : Type} {question : Machine → α} (blind : ∀ machine trace,
      question { machine with trace := trace } = question machine) : Immediate (Step.look question)
  | warn (text : String) : Immediate (Step.warn text)

namespace Step.Immediate

theorem newList : WireProgram.newList.Immediate :=
  .onLists _

theorem countIn (frame : Frame) (what : String) (register : Register) :
    (WireProgram.countIn frame what register).Immediate :=
  .bind (.ofExcept _) fun _ => .ofExcept _

theorem conditionHolds (frame : Frame) (condition : Register) :
    (WireProgram.conditionHolds frame condition).Immediate :=
  .bind (.ofExcept _) fun _ => .bind (.look fun _ _ => rfl) fun _ => .ofExcept _

theorem addOutput (frame : Frame) (output item : Register) :
    (WireProgram.addOutput frame output item).Immediate := by
  refine .bind (.ofExcept _) fun value => ?_
  split
  · exact .bind (.ofExcept _) fun _ => .onLists _
  · exact .throw _

theorem readScalar (view : View) (name : Json) : (WireProgram.readScalar view name).Immediate :=
  .bind (.ofExcept _) fun _ => .bind (.onStreams _) fun _ => .ofExcept _

theorem readArray (view : View) (name : Json) (count : Option Nat) (allowPartialTail : Bool) :
    (WireProgram.readArray view name count allowPartialTail).Immediate := by
  refine .bind (.ofExcept _) fun primitive => ?_
  cases count with
  | some count => exact .bind (.onStreams _) fun _ => .ofExcept _
  | none =>
    refine .bind (.onStreams _) fun bytes => ?_
    dsimp only
    split
    · exact .bind (.warn _) fun _ => .ofExcept _
    · exact .ofExcept _

theorem readMember (view : View) (entry : TypeEntry) (backing : Json) :
    (WireProgram.readMember view entry backing).Immediate := by
  refine .bind (.ofExcept _) fun primitive => ?_
  split
  · exact .bind (.onStreams _) fun _ => .ofExcept _
  · split
    · exact .throw _
    · exact .throw _

end Step.Immediate

/-- The instruction has no block of its own, and refers to no message. -/
def Instruction.isImmediate : Instruction → Bool
  | .conditionalWrapStream .. | .decodeReference .. | .loop .. | .conditional .. => false
  | _ => true

/-- **An instruction without a block or a message runs no other instruction.** -/
theorem Instruction.run_immediate (environment : Environment) (refer : Referral)
    {instruction : Instruction} (immediate : instruction.isImmediate = true) (frame : Frame) :
    (instruction.run environment refer frame).Immediate := by
  cases instruction with
  | eval target expression => exact .bind (.onLists _) fun _ => .ofExcept _
  | construct target constructable => exact .bind (.ofExcept _) fun _ => .ofExcept _
  | constrict stream newStream length =>
    exact .bind (.ofExcept _) fun _ => .bind (.countIn _ _ _) fun _ =>
      .bind (.onStreams _) fun _ => .ofExcept _
  | wrapStream stream newStream transform arguments =>
    exact .bind (.ofExcept _) fun _ => .bind (.ofExcept _) fun _ =>
      .bind (.onStreams _) fun _ => .ofExcept _
  | decodeForeign target data foreign arguments =>
    exact .bind (.ofExcept _) fun _ => .bind (.ofExcept _) fun _ =>
      .bind (.onStreams _) fun _ => .ofExcept _
  | decodeEnumeration enumeration backing data target =>
    exact .bind (.ofExcept _) fun _ => .bind (.ofExcept _) fun _ =>
      .bind (.readMember _ _ _) fun _ => .ofExcept _
  | decodePrimitive target data primitive =>
    exact .bind (.ofExcept _) fun _ => .bind (.readScalar _ _) fun _ => .ofExcept _
  | decodeArray target data primitive length =>
    cases length with
    | none => exact .bind (.ofExcept _) fun _ => .bind (.readArray _ _ _ _) fun _ => .ofExcept _
    | some length =>
      exact .bind (.ofExcept _) fun _ => .bind (.countIn _ _ _) fun _ =>
        .bind (.readArray _ _ _ _) fun _ => .ofExcept _
  | loopOutput output item => exact .bind (.addOutput _ _ _) fun _ => .pure _
  | conditionalWrapStream | decodeReference | loop | conditional => cases immediate

/-! ### Frames of loops -/

/-- The frame of the body of a loop over a cursor brings a reader, binds a register or brings
nothing. -/
theorem cursorFrame_cases (frame : Frame) (target : Target) (cursor : View) :
    cursorFrame frame target cursor = frame.child (some cursor) [] ∨
      cursorFrame frame target cursor = frame.child none [] ∨
      ∃ register slot, (target = .stream register ∨ target = .buffer register) ∧
        register.slot? = some slot ∧
        cursorFrame frame target cursor = frame.child none [(slot, .stream cursor)] := by
  cases target with
  | direct => exact Or.inl rfl
  | stream register =>
    refine Or.inr ?_
    simp only [cursorFrame]
    cases addressed : register.slot? with
    | none => exact Or.inl rfl
    | some slot => exact Or.inr ⟨register, slot, Or.inl rfl, addressed, rfl⟩
  | buffer register =>
    refine Or.inr ?_
    simp only [cursorFrame]
    cases addressed : register.slot? with
    | none => exact Or.inl rfl
    | some slot => exact Or.inr ⟨register, slot, Or.inr rfl, addressed, rfl⟩

section Cursor

variable {frame : Frame} {target : Target} (cursor : View)

/-- **Where a loop runs through a cursor,** its stream is the cursor. -/
theorem target_cursorFrame {view : View} (found : frame.target target = .ok view) :
    (cursorFrame frame target cursor).target target = .ok cursor := by
  have bound : ∀ register, frame.streamIn register = .ok view → ∃ slot, register.slot? = some slot ∧
      (frame.child none [(slot, .stream cursor)]).streamIn register = .ok cursor := by
    intro register found
    obtain ⟨slot, addressed, -⟩ := Frame.get_eq_ok.mp (Frame.streamIn_eq_ok.mp found)
    refine ⟨slot, addressed, Frame.streamIn_eq_ok.mpr (Frame.get_eq_ok.mpr ⟨slot, addressed, ?_⟩)⟩
    rw [Frame.find?_child, List.lookup_cons, beq_self_eq_true]
    rfl
  cases target with
  | direct => rfl
  | stream register =>
    obtain ⟨slot, addressed, reads⟩ := bound register found
    simp only [cursorFrame, addressed]
    exact reads
  | buffer register =>
    obtain ⟨slot, addressed, reads⟩ := bound register found
    simp only [cursorFrame, addressed]
    exact reads

/-- Other registers are as they were. -/
theorem find?_cursorFrame {slot : Slot} (apart : ∀ own ∈ target.reads, own.slot? ≠ some slot) :
    (cursorFrame frame target cursor).find? slot = frame.find? slot := by
  rcases cursorFrame_cases frame target cursor with same | same | ⟨own, bound, reads, addressed, same⟩
  · rw [same, Frame.find?_child]
    rfl
  · rw [same, Frame.find?_child]
    rfl
  · have other : slot ≠ bound := by
      rintro rfl
      rcases reads with rfl | rfl <;> exact apart own (List.mem_singleton_self own) addressed
    rw [same, Frame.find?_child, List.lookup_cons, beq_eq_false_iff_ne.mpr other]
    rfl

/-- A slot without the stream of the loop is as it was. -/
theorem find?_cursorFrame_of_ne {view : View} {slot : Slot} (found : frame.target target = .ok view)
    (other : frame.find? slot ≠ some (.stream view)) :
    (cursorFrame frame target cursor).find? slot = frame.find? slot := by
  refine find?_cursorFrame cursor fun own member same => other ?_
  have read : frame.streamIn own = .ok view := by
    cases target with
    | direct => cases member
    | stream register => exact List.mem_singleton.mp member ▸ found
    | buffer register => exact List.mem_singleton.mp member ▸ found
  obtain ⟨held, addressed, holds⟩ := Frame.get_eq_ok.mp (Frame.streamIn_eq_ok.mp read)
  rwa [Option.some.inj (same.symm.trans addressed)]

end Cursor

/-! ### The streams of a frame -/

section Views

variable {good : View → Prop} {frame : Frame}

/-- Reading a field is reading its register. -/
theorem Program.fieldValue_eq_ok {program : Program} {name : Json} {value : Value}
    (same : program.fieldValue frame name = .ok value) :
    ∃ register, program.field name = .ok register ∧ frame.get register = .ok value := by
  unfold Program.fieldValue at same
  cases found : program.field name with
  | error fault =>
    rw [found] at same
    cases same
  | ok register =>
    rw [found] at same
    exact ⟨register, rfl, same⟩

/-- The streams in registers that are read together. -/
theorem Frame.Views.getMany (views : frame.Views good) {registers : List Register}
    {values : List Value} (same : frame.getMany registers = .ok values) :
    ∀ value ∈ values, ∀ view, value = .stream view → good view := by
  have each : Ends (frame.getMany registers) (fun values => values.length = registers.length ∧
      ∀ value ∈ values, ∀ view, value = .stream view → good view) fun _ => True :=
    .mapM fun register _ => .of_ok fun value found view isStream => views.get (isStream ▸ found)
  exact (each.ok same).2

/-- The frame of the body of a loop over a cursor. -/
theorem Frame.Views.cursorFrame (views : frame.Views good) (target : Target) {cursor : View}
    (holds : good cursor) : (WireProgram.cursorFrame frame target cursor).Views good := by
  rcases cursorFrame_cases frame target cursor with same | same | ⟨-, slot, -, -, same⟩
  · rw [same]
    exact views.child (fun view bound => Option.some.inj bound ▸ holds) nofun
  · rw [same]
    exact views.inner
  · rw [same]
    refine views.child nofun fun other view found => ?_
    rw [List.lookup_cons] at found
    split at found
    · cases found
      exact holds
    · cases found

/-- What the writing of each argument keeps holds of the frame in which a program starts. -/
theorem bindArguments_keeps {program : Program} {values : List Value} {good : Frame → Prop}
    (start : good {}) (step : ∀ frame next register, ∀ value ∈ values, good frame →
      frame.set register value = .ok next → good next)
    (same : bindArguments program values = .ok frame) : good frame := by
  have written : ∀ (entries : List (Register × Value)) (start : Frame),
      (∀ entry ∈ entries, entry.2 ∈ values) → good start →
        Ends (entries.foldlM (fun frame entry => frame.set entry.1 entry.2) start) good
          fun _ => True := by
    intro entries
    induction entries with
    | nil => exact fun start _ holds => holds
    | cons entry entries hypothesis =>
      intro start all holds
      rw [List.foldlM_cons]
      refine Ends.bind (.of_ok fun next written => ?_) fun next holds' =>
        hypothesis next (fun other member => all other (List.mem_cons_of_mem _ member)) holds'
      exact step start next entry.1 entry.2 (all entry (List.mem_cons_self ..)) holds written
  unfold bindArguments at same
  split at same
  · exact (written _ {} (fun entry member => (List.of_mem_zip member).2) start).ok same
  · cases same

/-- The frame in which a program starts holds the streams among its arguments. -/
theorem Frame.Views.bindArguments {program : Program} {values : List Value}
    (holds : ∀ value ∈ values, ∀ view, value = .stream view → good view)
    (same : WireProgram.bindArguments program values = .ok frame) : frame.Views good :=
  bindArguments_keeps ⟨nofun, nofun⟩
    (fun _ _ _ value member views written => views.set written (holds value member)) same

end Views

/-! ### Loops -/

/-- One round of a loop up to a terminator. -/
theorem untilTerminator_succ (view : View) (terminator : Bytes) (body : Step Unit) (fuel : Nat) :
    untilTerminator view terminator body (fuel + 1) =
      Step.onStreams (view.approach terminator) >>= fun
        | .ended | .reached => pure ()
        | .ahead => withProgress view body >>= fun _ =>
          untilTerminator view terminator body fuel := by
  rw [untilTerminator, View.approach, Step.onStreams_bind, bind_assoc]
  refine congrArg _ (funext fun peeked => ?_)
  unfold View.Approach.of
  by_cases ended : peeked.isEmpty = true
  · rw [if_pos ended, if_pos ended]
    rfl
  · rw [if_neg ended, if_neg ended]
    by_cases starts : peeked.take terminator.length = terminator
    · rw [if_pos starts, if_pos starts]
      show Step.onStreams (view.consume terminator.length) = Step.onStreams (_ >>= _) >>= _
      funext machine
      show (Step.onStreams _).run machine = (Step.onStreams (_ >>= _) >>= _).run machine
      rw [run_bind, Step.run_onStreams, Step.run_onStreams, run_bind]
      rcases (view.consume terminator.length).run machine.streams with ⟨_ | _, after⟩ <;> rfl
    · rw [if_neg starts, if_neg starts]
      rfl

/-! ### Runs -/

/-- A run of a program over a new source. -/
def decodeInput (environment : Environment) (execution : Execution) (input : Input)
    (values : List Value) (machine : Machine) : Except Failure Value × Machine :=
  let opened := machine.streams.openSource execution input
  (decodeWith environment ⟨opened.1, true⟩ values).run { machine with streams := opened.2 }

end WireProgram
