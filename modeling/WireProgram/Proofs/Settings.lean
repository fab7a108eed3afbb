/-
**Settings come from the root, and a record is only a record.**

A message that is referred to runs with the settings of whoever refers to it, so that its own
settings do not show in the run. Of the settings of the root, the one that asks for a record changes
the trace and nothing else. The main definitions and statements:

* `Types.configured` gives the registered messages other settings, `Types.stripped` takes them away;
* `Instruction.run_stripped` and `runBlock_stripped`, a run does not see these settings;
* `Unrecorded`, a step beside one that leaves the trace alone;
* `Instruction.run_unrecorded` and `runBlock_unrecorded`, a run without its record;
* `decode_settings`, whole runs.
-/

import WireProgram.Proofs.Reach
import WireProgram.Proofs.Step

namespace WireProgram

/-! ### The settings of registered messages -/

/-- A message without settings of its own. -/
def MessageType.stripped (message : MessageType) : MessageType :=
  { message with config := {} }

/-- A registered type without settings of its own. -/
def TypeEntry.stripped : TypeEntry → TypeEntry
  | .message named => .message named.stripped
  | entry => entry

/-- Registered types without settings of their own. -/
def Types.stripped (types : Types) : Types :=
  types.map fun entry => (entry.1, entry.2.stripped)

/-- A registered type with other settings, if it is a message. -/
def TypeEntry.configured (settings : MessageType → Config) : TypeEntry → TypeEntry
  | .message named => .message { named with config := settings named }
  | entry => entry

/-- Registered types whose messages have other settings, by the name and what stands there. -/
def Types.configured (settings : String → MessageType → Config) (types : Types) : Types :=
  types.map fun entry => (entry.1, entry.2.configured (settings entry.1))

/-- An environment whose registered messages have no settings of their own. -/
def Environment.stripped (environment : Environment) : Environment :=
  { environment with types := environment.types.stripped }

namespace TypeEntry

theorem stripped_configured (settings : MessageType → Config) (entry : TypeEntry) :
    (entry.configured settings).stripped = entry.stripped := by
  cases entry <;> rfl

theorem exposes_stripped (entry : TypeEntry) (point : EntryPoint) :
    entry.stripped.exposes point = entry.exposes point := by
  cases entry <;> rfl

theorem isEnumeration_stripped (entry : TypeEntry) :
    entry.stripped.isEnumeration = entry.isEnumeration := by
  cases entry <;> rfl

theorem construct_stripped (entry : TypeEntry) (items : List Value) :
    entry.stripped.construct items = entry.construct items := by
  cases entry <;> rfl

theorem constructNamed_stripped (entry : TypeEntry) (fields : List (String × Value)) :
    entry.stripped.constructNamed fields = entry.constructNamed fields := by
  cases entry <;> rfl

theorem inPlace_stripped (entry : TypeEntry) :
    entry.stripped.inPlace = entry.inPlace.map MessageType.stripped := by
  cases entry with
  | message named =>
    show (if named.exposes .inPlace then _ else _) =
      (if named.exposes .inPlace then _ else _ : Except Fault MessageType).map _
    split <;> rfl
  | enumeration named => rfl
  | objectClass named => rfl

theorem readMember_stripped (view : View) (entry : TypeEntry) (backing : Json) :
    readMember view entry.stripped backing = readMember view entry backing := by
  cases entry <;> rfl

end TypeEntry

namespace Types

theorem stripped_configured (settings : String → MessageType → Config) (types : Types) :
    (types.configured settings).stripped = types.stripped := by
  unfold stripped configured
  rw [List.map_map]
  exact List.map_congr_left fun entry _ =>
    congrArg (Prod.mk entry.1) (entry.2.stripped_configured _)

theorem lookup_stripped (types : Types) (name : String) :
    types.stripped.lookup name = (types.lookup name).map TypeEntry.stripped := by
  induction types with
  | nil => rfl
  | cons entry types hypothesis =>
    show List.lookup name ((entry.1, entry.2.stripped) :: Types.stripped types) = _
    rw [List.lookup_cons, List.lookup_cons]
    split
    · rfl
    · exact hypothesis

theorem findNamed_stripped (types : Types) (name : Json) :
    findNamed (types.stripped.lookup ·) name =
      (findNamed (types.lookup ·) name).map (Option.map TypeEntry.stripped) := by
  unfold findNamed
  cases name.name? with
  | error fault => rfl
  | ok found =>
    cases found with
    | none => rfl
    | some text => exact congrArg Except.ok (Types.lookup_stripped types text)

theorem require_stripped (types : Types) (name : Json) :
    types.stripped.require name = (types.require name).map TypeEntry.stripped := by
  unfold require
  rw [findNamed_stripped]
  rcases findNamed (types.lookup ·) name with fault | _ | entry <;> rfl

end Types

theorem Constructable.build_stripped (types : Types) (frame : Frame)
    (constructable : Constructable) :
    constructable.build types.stripped frame = constructable.build types frame := by
  cases constructable with
  | tuple items => rfl
  | tagged name items =>
    unfold build
    simp only [types.findNamed_stripped]
    refine congrArg (frame.getMany items >>= ·) (funext fun values => ?_)
    rcases findNamed (types.lookup ·) name with fault | _ | entry
    · rfl
    · rfl
    · exact entry.construct_stripped values
  | struct name fields =>
    unfold build
    simp only [types.findNamed_stripped]
    refine congrArg (_ >>= ·) (funext fun values => ?_)
    rcases findNamed (types.lookup ·) name with fault | _ | entry
    · rfl
    · rfl
    · simp only [Except.map, Option.map, bind_of_ok rfl, entry.constructNamed_stripped]

/-- A computation whose value is changed, before the rest. -/
theorem Step.ofExcept_map_bind {α β γ : Type} (result : Except Fault α) (act : α → β)
    (next : β → Step γ) :
    (Step.ofExcept (result.map act) >>= next) =
      Step.ofExcept result >>= fun value => next (act value) := by
  cases result <;> rfl

/-! ### Checks -/

mutual

theorem Instruction.check_stripped (types : Types) (execution : Execution) :
    ∀ instruction : Instruction,
      instruction.check types.stripped execution = instruction.check types execution
  | .eval .. | .construct .. | .constrict .. | .wrapStream .. | .decodeForeign ..
  | .decodePrimitive .. | .decodeArray .. | .loopOutput .. => rfl
  | .decodeReference _ _ name _ => by
    simp only [Instruction.check, types.require_stripped]
    cases types.require name with
    | error fault => rfl
    | ok entry =>
      simp only [Except.map, bind_of_ok rfl, entry.exposes_stripped]
  | .decodeEnumeration name _ _ _ => by
    simp only [Instruction.check, types.require_stripped]
    cases types.require name with
    | error fault => rfl
    | ok entry =>
      simp only [Except.map, bind_of_ok rfl, entry.isEnumeration_stripped]
  | .conditionalWrapStream _ prelude _ _ _ _ => checkBlock_stripped types execution prelude
  | .loop _ _ _ _ body => checkBlock_stripped types execution body
  | .conditional _ _ _ body => checkBlock_stripped types execution body

theorem checkBlock_stripped (types : Types) (execution : Execution) :
    ∀ block : List Instruction,
      checkBlock types.stripped execution block = checkBlock types execution block
  | [] => rfl
  | instruction :: rest => by
    simp only [checkBlock, instruction.check_stripped types execution,
      checkBlock_stripped types execution rest]

end

/-- The checks of a program do not see the settings of messages. -/
theorem compile_stripped (program : Program) (types : Types) (mode : String) :
    compile program types.stripped mode = compile program types mode := by
  unfold compile
  simp only [checkBlock_stripped]

/-! ### Runs -/

/-- Two ways of decoding messages that are referred to, the second of which is given them without
their settings. -/
def Referral.Stripped (refer refer' : Referral) : Prop :=
  ∀ message view values, refer' message.stripped view values = refer message view values

section Stripped

variable {environment : Environment} {refer refer' : Referral}

mutual

/-- **One instruction** does not see the settings of messages. -/
theorem Instruction.run_stripped (same : refer.Stripped refer') :
    ∀ (instruction : Instruction) (frame : Frame),
      instruction.run environment.stripped refer' frame = instruction.run environment refer frame
  | .eval .., _ | .constrict .., _ | .wrapStream .., _ | .decodeForeign .., _
  | .decodePrimitive .., _ | .decodeArray _ _ _ none, _ | .decodeArray _ _ _ (some _), _
  | .loopOutput .., _ | .loop _ (some _) (some _) _ _, _ => rfl
  | .construct _ constructable, frame => by
    simp only [Instruction.run]
    rw [show environment.stripped.types = environment.types.stripped from rfl,
      constructable.build_stripped]
  | .decodeReference target _ name arguments, frame => by
    simp only [Instruction.run]
    rw [show environment.stripped.types = environment.types.stripped from rfl,
      environment.types.require_stripped]
    simp only [Step.ofExcept_map_bind, TypeEntry.inPlace_stripped, same _ _ _]
  | .decodeEnumeration name _ _ target, frame => by
    simp only [Instruction.run]
    rw [show environment.stripped.types = environment.types.stripped from rfl,
      environment.types.require_stripped]
    simp only [Step.ofExcept_map_bind, TypeEntry.readMember_stripped]
  | .conditionalWrapStream _ prelude _ _ _ _, frame => by
    simp only [Instruction.run, runBlock_stripped same prelude]
  | .loop _ (some _) none _ body, frame => by
    simp only [Instruction.run, runBlock_stripped same body]
  | .loop _ none (some _) _ body, frame => by
    simp only [Instruction.run, runBlock_stripped same body]
  | .loop _ none none _ body, frame => by
    simp only [Instruction.run, runBlock_stripped same body]
  | .conditional _ _ _ body, frame => by
    simp only [Instruction.run, runBlock_stripped same body]

/-- **A block** does not see the settings of messages. -/
theorem runBlock_stripped (same : refer.Stripped refer') :
    ∀ (block : List Instruction) (index : Nat) (frame : Frame),
      runBlock environment.stripped refer' block index frame =
        runBlock environment refer block index frame
  | [], _, _ => rfl
  | instruction :: rest, index, frame => by
    simp only [runBlock, Instruction.run_stripped same instruction, runBlock_stripped same rest]
    rfl

end

theorem Environment.decode_stripped (environment : Environment) (same : refer.Stripped refer')
    (opening : Except Fault View) (values : List Value) :
    environment.stripped.decode refer' opening values =
      environment.decode refer opening values := by
  unfold decode
  simp only [runBlock_stripped same]
  rfl

end Stripped

theorem MessageType.visible_stripped (message : MessageType) (types : Types) :
    message.stripped.visible types.stripped = (message.visible types).stripped := by
  unfold visible stripped
  split <;> rfl

/-- **A message** that is referred to does not see its own settings, nor those of others. -/
theorem decodeMessage_stripped (mode : String) (config : Config) (depth : Nat) (types : Types) :
    (decodeMessage types mode config depth).Stripped
      (decodeMessage types.stripped mode config depth) := by
  induction depth generalizing types with
  | zero => exact fun _ _ _ => rfl
  | succ depth hypothesis =>
    intro message view values
    show Environment.decode
      ⟨message.program, message.stripped.visible types.stripped, mode, config⟩
      (decodeMessage (message.stripped.visible types.stripped) mode config depth) (.ok view)
      values = Environment.decode ⟨message.program, message.visible types, mode, config⟩
        (decodeMessage (message.visible types) mode config depth) (.ok view) values
    rw [message.visible_stripped]
    exact Environment.decode_stripped ⟨message.program, message.visible types, mode, config⟩
      (hypothesis _) (.ok view) values

theorem decodeWith_stripped (environment : Environment) (source : RunSource)
    (values : List Value) :
    decodeWith environment.stripped source values = decodeWith environment source values := by
  unfold decodeWith
  have length : environment.stripped.types.length = environment.types.length :=
    List.length_map ..
  rw [length]
  exact environment.decode_stripped (decodeMessage_stripped _ _ _ _) _ values

/-- The run of a message on its own does not see the settings of other messages. -/
theorem MessageType.decode_configured (message : MessageType) (types : Types)
    (settings : String → MessageType → Config) (execution : Execution) (source : RunSource)
    (values : List Value) :
    message.decode (types.configured settings) execution source values =
      message.decode types execution source values := by
  have bare : ∀ types : Types, message.decode types.stripped execution source values =
      message.decode types execution source values := by
    intro types
    unfold decode
    rw [compile_stripped]
    exact congrArg _ (funext fun _ =>
      decodeWith_stripped ⟨message.program, types, execution.name, message.config⟩ source values)
  rw [← bare (types.configured settings), types.stripped_configured settings, bare types]

/-! ### Steps without their record -/

/-- A machine with another trace. -/
def Machine.retraced (machine : Machine) (trace : Trace) : Machine :=
  { machine with trace := trace }

/-- A step beside one that leaves the trace alone: over any trace the second one gives what the
first one gives, and does to the rest of the machine what the first one does. -/
def Unrecorded {α : Type} (step silent : Step α) : Prop :=
  ∀ machine trace, silent.run (machine.retraced trace) =
    ((step.run machine).1, (step.run machine).2.retraced trace)

namespace Unrecorded

variable {α β : Type} {step silent : Step α}

theorem pure (value : α) : Unrecorded (Pure.pure value : Step α) (Pure.pure value) :=
  fun _ _ => rfl

theorem throw (failure : Failure) :
    Unrecorded (MonadExcept.throw failure : Step α) (MonadExcept.throw failure) :=
  fun _ _ => rfl

theorem ofExcept (result : Except Fault α) :
    Unrecorded (Step.ofExcept result) (Step.ofExcept result) :=
  fun _ _ => rfl

theorem onStreams (act : StreamStep Codec α) :
    Unrecorded (Step.onStreams act) (Step.onStreams act) :=
  fun _ _ => rfl

theorem onLists (act : Lists → Except Fault (α × Lists)) :
    Unrecorded (Step.onLists act) (Step.onLists act) := by
  intro machine trace
  rw [Step.run_onLists, Step.run_onLists, show (machine.retraced trace).lists = machine.lists from rfl]
  rcases act machine.lists with fault | ⟨value, lists⟩ <;> rfl

/-- A look at anything but the trace. -/
theorem look {question : Machine → α}
    (blind : ∀ machine trace, question (machine.retraced trace) = question machine) :
    Unrecorded (Step.look question) (Step.look question) := by
  intro machine trace
  rw [Step.run_look, Step.run_look, blind]

theorem warn (text : String) : Unrecorded (Step.warn text) (Step.warn text) :=
  fun _ _ => rfl

/-- **Sequencing.** -/
theorem bind {next silentNext : α → Step β} (first : Unrecorded step silent)
    (second : ∀ value, Unrecorded (next value) (silentNext value)) :
    Unrecorded (step >>= next) (silent >>= silentNext) := by
  intro machine trace
  rw [run_bind, run_bind, first machine trace]
  rcases step.run machine with ⟨fault | value, after⟩
  · rfl
  · exact second value after trace

/-- A step that runs no instruction has nothing to record. -/
theorem of_immediate (immediate : step.Immediate) : Unrecorded step step := by
  induction immediate with
  | pure value => exact pure value
  | throw fault => exact throw ⟨fault, []⟩
  | bind _ _ one two => exact one.bind two
  | ofExcept result => exact ofExcept result
  | onStreams act => exact onStreams act
  | onLists act => exact onLists act
  | look blind => exact look blind
  | warn text => exact warn text

theorem discard (unrecorded : Unrecorded step silent) :
    Unrecorded (Functor.discard step : Step Unit) (Functor.discard silent) := by
  intro machine trace
  rw [run_discard, run_discard, unrecorded machine trace]
  rcases step.run machine with ⟨fault | value, after⟩ <;> rfl

variable {config silentConfig : Config}

/-- An event that only the first one records. -/
theorem record (quiet : silentConfig.trace = false) (event : String) (depth : Nat)
    (label detail : String) :
    Unrecorded (Step.record config event depth label detail)
      (Step.record silentConfig event depth label detail) := by
  intro machine trace
  unfold Step.record
  rw [Step.run_change, Step.run_change, quiet]
  cases config.trace <;> rfl

/-- An instruction at its place, whose failure only the first one records. -/
theorem guarded (quiet : silentConfig.trace = false) (depth : Nat) (site : Site)
    (unrecorded : Unrecorded step silent) :
    Unrecorded (Step.guarded config depth site step)
      (Step.guarded silentConfig depth site silent) := by
  intro machine trace
  rw [Step.run_guarded, Step.run_guarded, unrecorded machine trace]
  rcases step.run machine with ⟨failure | value, after⟩
  · have kept : Step.recorded silentConfig depth site failure (after.retraced trace) =
        (Step.recorded config depth site failure after).retraced trace := by
      unfold Step.recorded
      rw [if_neg fun holds => Bool.false_ne_true (quiet.symm.trans holds.2)]
      split <;> rfl
    exact congrArg (Prod.mk _) kept
  · rfl

/-! ### Loops -/

variable {body silentBody : Step Unit}

theorem repeatBody (each : Unrecorded body silentBody) (count : Nat) :
    Unrecorded (repeatBody body count) (repeatBody silentBody count) := by
  induction count with
  | zero => exact pure ()
  | succ count hypothesis => exact each.bind fun _ => hypothesis

theorem withProgress (each : Unrecorded body silentBody) (view : View) :
    Unrecorded (withProgress view body) (withProgress view silentBody) := by
  refine (look fun _ _ => rfl).bind fun before => each.bind fun _ =>
    (look fun _ _ => rfl).bind fun after => ?_
  split
  · exact throw _
  · exact pure ()

theorem untilTerminator (each : Unrecorded body silentBody) (view : View) (terminator : Bytes)
    (fuel : Nat) :
    Unrecorded (untilTerminator view terminator body fuel)
      (untilTerminator view terminator silentBody fuel) := by
  induction fuel with
  | zero => exact throw _
  | succ fuel hypothesis =>
    refine (onStreams _).bind fun peeked => ?_
    split
    · exact pure ()
    · split
      · exact onStreams _
      · exact (each.withProgress view).bind fun _ => hypothesis

theorem throughCursor (each : Unrecorded body silentBody) (cursor : View) (fuel : Nat) :
    Unrecorded (throughCursor cursor body fuel) (throughCursor cursor silentBody fuel) := by
  induction fuel with
  | zero => exact throw _
  | succ fuel hypothesis =>
    refine (look fun _ _ => rfl).bind fun ended => ?_
    split
    · exact pure ()
    · exact (each.withProgress cursor).bind fun _ => hypothesis

end Unrecorded

/-! ### Instructions and blocks -/

/-- An environment whose settings ask for a record or for none. -/
def Environment.traced (environment : Environment) (flag : Bool) : Environment :=
  { environment with config := { environment.config with trace := flag } }

/-- Two ways of decoding messages that are referred to, the second without its record. -/
def Referral.Unrecorded (refer silent : Referral) : Prop :=
  ∀ message view values,
    WireProgram.Unrecorded (refer message view values) (silent message view values)

section Blocks

variable {environment : Environment} {refer silent : Referral}

mutual

/-- **One instruction** without its record. -/
theorem Instruction.run_unrecorded (referred : refer.Unrecorded silent) :
    ∀ (instruction : Instruction) (frame : Frame),
      Unrecorded (instruction.run environment refer frame)
        (instruction.run (environment.traced false) silent frame)
  | .eval target expression, frame =>
    .of_immediate (.bind (.onLists _) fun _ => .ofExcept _)
  | .construct target constructable, frame =>
    .of_immediate (.bind (.ofExcept _) fun _ => .ofExcept _)
  | .constrict stream newStream length, frame =>
    .of_immediate (.bind (.ofExcept _) fun _ => .bind (.countIn frame _ length) fun _ =>
      .bind (.onStreams _) fun _ => .ofExcept _)
  | .wrapStream stream newStream transform arguments, frame =>
    .of_immediate (.bind (.ofExcept _) fun _ => .bind (.ofExcept _) fun _ =>
      .bind (.onStreams _) fun _ => .ofExcept _)
  | .conditionalWrapStream condition prelude stream newStream transform arguments, frame => by
    refine (Unrecorded.ofExcept _).bind fun view =>
      (Unrecorded.of_immediate (.conditionHolds frame condition)).bind fun holds => ?_
    split
    · exact (runBlock_unrecorded referred prelude 0 (frame.child none [])).bind fun inner =>
        (Unrecorded.ofExcept _).bind fun _ => (Unrecorded.onStreams _).bind fun _ => .ofExcept _
    · exact .ofExcept _
  | .decodeForeign target data foreign arguments, frame =>
    .of_immediate (.bind (.ofExcept _) fun _ => .bind (.ofExcept _) fun _ =>
      .bind (.onStreams _) fun _ => .ofExcept _)
  | .decodeReference target data name arguments, frame =>
    (Unrecorded.ofExcept _).bind fun view => (Unrecorded.ofExcept _).bind fun entry =>
      (Unrecorded.ofExcept _).bind fun values => (Unrecorded.ofExcept _).bind fun message =>
        (referred message view values).bind fun _ => .ofExcept _
  | .decodeEnumeration enumeration backing data target, frame =>
    .of_immediate (.bind (.ofExcept _) fun view => .bind (.ofExcept _) fun entry =>
      .bind (.readMember view entry backing) fun _ => .ofExcept _)
  | .decodePrimitive target data primitive, frame =>
    .of_immediate (.bind (.ofExcept _) fun view => .bind (.readScalar view primitive) fun _ =>
      .ofExcept _)
  | .decodeArray target data primitive none, frame =>
    .of_immediate (.bind (.ofExcept _) fun view => .bind (.readArray view primitive none _) fun _ =>
      .ofExcept _)
  | .decodeArray target data primitive (some length), frame =>
    .of_immediate (.bind (.ofExcept _) fun view => .bind (.countIn frame _ length) fun count =>
      .bind (.readArray view primitive (some count) _) fun _ => .ofExcept _)
  | .loop _ (some _) (some _) _ _, _ => .throw _
  | .loop _ (some stop) none output body, frame =>
    (Unrecorded.of_immediate (.countIn frame _ stop)).bind fun count =>
      (Unrecorded.onLists _).bind fun list => (Unrecorded.ofExcept _).bind fun outer =>
        (runBlock_unrecorded referred body 0 (outer.child none [])).discard.repeatBody count
          |>.bind fun _ => .pure outer
  | .loop target none (some terminator) output body, frame => by
    refine (Unrecorded.ofExcept _).bind fun view => (Unrecorded.ofExcept _).bind fun value =>
      (Unrecorded.look fun _ _ => rfl).bind fun lists =>
        (Unrecorded.look fun _ _ => rfl).bind fun bound =>
          (Unrecorded.ofExcept _).bind fun ending => ?_
    split
    · exact .throw _
    · exact (Unrecorded.onLists _).bind fun list => (Unrecorded.ofExcept _).bind fun outer =>
        (runBlock_unrecorded referred body 0 (outer.child none [])).discard.untilTerminator
          view ending (bound + 1) |>.bind fun _ => .pure outer
  | .loop target none none output body, frame =>
    (Unrecorded.ofExcept _).bind fun view => (Unrecorded.onStreams _).bind fun content =>
      (Unrecorded.onStreams _).bind fun cursor => (Unrecorded.onLists _).bind fun list =>
        (Unrecorded.ofExcept _).bind fun outer =>
          (runBlock_unrecorded referred body 0 (cursorFrame outer target cursor)).discard
            |>.throughCursor cursor (content.length + 1) |>.bind fun _ => .pure outer
  | .loopOutput output item, frame =>
    .of_immediate (.bind (.addOutput frame output item) fun _ => .pure frame)
  | .conditional target interior condition body, frame => by
    refine (Unrecorded.of_immediate (.conditionHolds frame condition)).bind fun holds => ?_
    split
    · exact (runBlock_unrecorded referred body 0 (frame.child none [])).bind fun inner =>
        (Unrecorded.ofExcept _).bind fun _ => .ofExcept _
    · exact .ofExcept _

/-- **A block** without its record. -/
theorem runBlock_unrecorded (referred : refer.Unrecorded silent) :
    ∀ (block : List Instruction) (index : Nat) (frame : Frame),
      Unrecorded (runBlock environment refer block index frame)
        (runBlock (environment.traced false) silent block index frame)
  | [], _, frame => .pure frame
  | instruction :: rest, index, frame =>
    (Unrecorded.record rfl _ _ _ _).bind fun _ =>
      ((instruction.run_unrecorded referred frame).guarded rfl _ _).bind fun next =>
        runBlock_unrecorded referred rest (index + 1) next

end

theorem Environment.decode_unrecorded (environment : Environment)
    (referred : refer.Unrecorded silent) (opening : Except Fault View) (values : List Value) :
    Unrecorded (environment.decode refer opening values)
      ((environment.traced false).decode silent opening values) :=
  (Unrecorded.ofExcept _).bind fun _ => (Unrecorded.ofExcept _).bind fun _ =>
    (runBlock_unrecorded referred _ 0 _).bind fun _ => (Unrecorded.ofExcept _).bind fun _ =>
      .ofExcept _

end Blocks

/-- **A message** that is referred to, without its record. -/
theorem decodeMessage_unrecorded (mode : String) (config : Config) (depth : Nat) (types : Types) :
    (decodeMessage types mode config depth).Unrecorded
      (decodeMessage types mode { config with trace := false } depth) := by
  induction depth generalizing types with
  | zero => exact fun _ _ _ => .throw _
  | succ depth hypothesis =>
    exact fun message view values => Environment.decode_unrecorded
      ⟨message.program, message.visible types, mode, config⟩ (hypothesis _) (.ok view) values

theorem decodeWith_unrecorded (environment : Environment) (source : RunSource)
    (values : List Value) :
    Unrecorded (decodeWith environment source values)
      (decodeWith (environment.traced false) source values) :=
  environment.decode_unrecorded (decodeMessage_unrecorded _ _ _ _) _ values

/-! ### Whole runs -/

/-- A message whose settings ask for a record or for none. -/
def MessageType.traced (message : MessageType) (flag : Bool) : MessageType :=
  { message with config := { message.config with trace := flag } }

/-- **Settings come from the root, and a record is only a record.** A message is checked and run on
its own. Giving the registered messages other settings does not change the run at all. The run
without a record gives the value, or the fault with its path, that the run with a record gives, and
leaves the machine as that one does, the streams with their chunks included, only that its trace is
what it was before. -/
theorem decode_settings (root : MessageType) (types : Types) (execution : Execution)
    (source : RunSource) (values : List Value) (settings : String → MessageType → Config)
    (before : Machine) :
    root.decode (types.configured settings) execution source values =
        root.decode types execution source values ∧
      let loud := ((root.traced true).decode types execution source values).run before
      ((root.traced false).decode types execution source values).run before =
        (loud.1, { loud.2 with trace := before.trace }) := by
  refine ⟨root.decode_configured types settings execution source values, ?_⟩
  have unrecorded : Unrecorded ((root.traced true).decode types execution source values)
      ((root.traced false).decode types execution source values) :=
    (Unrecorded.ofExcept _).bind fun _ => decodeWith_unrecorded
      ⟨root.program, types, execution.name, (root.traced true).config⟩ source values
  exact unrecorded before before.trace

end WireProgram
