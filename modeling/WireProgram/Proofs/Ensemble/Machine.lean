/-
**One program, run in several ways.**

An ensemble says how the ways of running a program belong together: which names they have for lists and
streams, and what their streams, traces, warnings and faults have in common. Its laws are those of the
operations on streams. From them every operation on the machine is taken in all ways together. The main
definitions and statements:

* `Ensemble`, the ways with their laws;
* `Ensemble.Machines` and `Ensemble.accord`, machines and failures that belong together;
* `Duet`, a step that is taken in all ways together, with `Duet.onStreams`, `Duet.ofExcept_bind` and
  their like, a rule for each operation on the machine;
* `Duet.guarded`, an instruction at its place.
-/

import WireProgram.Proofs.Ensemble.Bearing
import WireProgram.Proofs.Ensemble.Unison
import WireProgram.Proofs.Run.Inert
import WireProgram.Proofs.Step

namespace WireProgram

variable {ι α β : Type}

/-! ### Streams -/

/-- The families of streams that belong together, and how streams come later. -/
structure Streams.Family (ι : Type) where
  states : (ι → Streams Codec) → Prop
  later : (ι → Streams Codec) → (ι → Streams Codec) → Prop
  refl : ∀ family, later family family
  trans : ∀ {before middle after}, later before middle → later middle after → later before after

/-- Such streams, and the same fault. -/
def Streams.Family.accord (family : Streams.Family ι) : Accord ι Fault (Streams Codec) where
  states := family.states
  faults := Constant
  later := family.later
  refl := family.refl
  trans := family.trans

/-- An operation on streams in all ways, from some streams on, with results that belong together. -/
abbrev Jointly (family : Streams.Family ι) (start : ι → Streams Codec)
    (good : (ι → Streams Codec) → (ι → α) → Prop) (step : ι → StreamStep Codec α) : Prop :=
  ∀ streams, family.accord.Reached start streams → Unison family.accord good step streams

namespace Jointly

variable {family : Streams.Family ι} {start : ι → Streams Codec}
  {good : (ι → Streams Codec) → (ι → α) → Prop} {better : (ι → Streams Codec) → (ι → β) → Prop}
  {step step' : ι → StreamStep Codec α}

theorem pure {values : ι → α} (holds : ∀ streams, family.accord.Reached start streams →
    good streams values) : Jointly family start good fun way => Pure.pure (values way) :=
  fun streams reached => .pure reached.states (holds streams reached)

theorem throw (fault : Fault) : Jointly family start good fun _ => MonadExcept.throw fault :=
  fun _ reached => .throw reached.states ⟨fault, rfl⟩

/-- **Sequencing.** The second operation goes on with the same in all ways. -/
theorem bind_same {next : ι → α → StreamStep Codec β} (first : Jointly family start Constantly step)
    (second : ∀ value, Jointly family start better fun way => next way value) :
    Jointly family start better fun way => step way >>= next way :=
  fun streams reached => (first streams reached).bind fun _ after reached' ⟨value, same⟩ =>
    same ▸ second value after (reached.trans reached')

theorem ite {condition : Prop} [Decidable condition]
    (holds : condition → Jointly family start good step)
    (fails : ¬condition → Jointly family start good step') :
    Jointly family start good fun way => if condition then step way else step' way :=
  fun streams reached => .ite (fun test => holds test streams reached)
    fun test => fails test streams reached

/-- A computation that does not touch the streams, before the rest. -/
theorem ofExcept_bind {result : Except Fault α} {next : ι → α → StreamStep Codec β}
    (rest : ∀ value, Jointly family start better fun way => next way value) :
    Jointly family start better fun way => StreamStep.ofExcept result >>= next way := by
  intro streams reached
  cases result with
  | ok value => exact .look_bind (fun _ => rfl) (rest value streams reached)
  | error fault =>
    refine .of_error (.refl reached.states) ⟨fault, rfl⟩ fun way => ?_
    rw [run_bind]
    rfl

theorem mono {more : (ι → Streams Codec) → (ι → α) → Prop}
    (together : Jointly family start good step)
    (implied : ∀ streams values, good streams values → more streams values) :
    Jointly family start more step :=
  fun streams reached => (together streams reached).mono fun after values _ => implied after values

end Jointly

/-! ### Foreign types -/

section Foreign

variable {family : Streams.Family ι} {start : ι → Streams Codec} {views : ι → View}

theorem firstInteger_named (naming : Naming) (arguments : List Value) :
    firstInteger (arguments.map (Value.named naming)) = firstInteger arguments := by
  cases arguments with
  | nil => rfl
  | cons argument rest => simp only [List.map_cons, firstInteger, Value.toInteger?_named]

theorem textLength?_named (naming : Naming) (name : String) (arguments : List Value) :
    textLength? name (arguments.map (Value.named naming)) = textLength? name arguments := by
  rcases arguments with _ | ⟨argument, _ | ⟨second, rest⟩⟩
  · rfl
  · simp only [List.map_cons, List.map_nil, textLength?, Value.toInteger?_named]
  · simp only [List.map_cons, textLength?, List.length_cons, List.length_map]

/-- A transform does not see the names of its arguments. -/
theorem Transform.wrap_named (transform : Transform) (naming : Naming) (view : View)
    (arguments : List Value) :
    transform.wrap view (arguments.map (Value.named naming)) = transform.wrap view arguments := by
  unfold Transform.wrap
  simp only [firstInteger_named, List.isEmpty_map, List.length_map]

/-- The same value in all ways, which refers to nothing. -/
abbrev Scalars (naming : ι → Naming) : (ι → Streams Codec) → (ι → Value) → Prop :=
  fun _ => Alike (fun value => value.Inert ∧ value.Nameless) fun way => Value.named (naming way)

theorem scalars_of {naming : ι → Naming} {streams : ι → Streams Codec} {value : Value}
    (inert : value.Inert) (nameless : value.Nameless) : Scalars naming streams fun _ => value :=
  ⟨value, ⟨inert, nameless⟩, funext fun way => (nameless (naming way)).symm⟩

theorem readGroups_together (naming : ι → Naming)
    (exact : Jointly family start Constantly fun way => (views way).readExact 1) (name : String)
    (bits left index total : Nat) :
    Jointly family start (Scalars naming)
      fun way => readGroups name bits (views way) left index total := by
  induction left generalizing index total with
  | zero => exact .throw _
  | succ left hypothesis =>
    refine exact.bind_same fun bytes => .ite (fun _ => hypothesis _ _) fun _ => ?_
    exact .ite (fun _ => .pure fun _ _ => scalars_of (.int _) fun _ => rfl) fun _ => .throw _

/-- **A foreign type** reads the same in all ways, if the operations do that it reads with and if it does
not ask for modes that have several names. -/
theorem ForeignType.decode_together {type : ForeignType} {mode : ι → String}
    (modeless : type.action = .mode → Constant mode) (naming : ι → Naming)
    (exact : ∀ count : Int, type.action = .raw ∨ 0 ≤ count →
      Jointly family start Constantly fun way => (views way).readExact count)
    (toEnd : Jointly family start Constantly fun way => (views way).readToEnd)
    (peek : type.action = .peek → ∀ want,
      Jointly family start Constantly fun way => (views way).fillBuf want)
    (arguments : List Value) :
    Jointly family start (Scalars naming) fun way =>
      type.decode (views way) (arguments.map (Value.named (naming way))) (mode way) := by
  have length : ∀ length : Option Nat,
      Jointly family start Constantly fun way => readLength (views way) length := by
    intro length
    cases length with
    | none => exact toEnd
    | some length => exact exact length (.inr (Int.natCast_nonneg length))
  have bytes : ∀ content : Bytes,
      Jointly family start (Scalars naming) fun _ => Pure.pure (.bytes content) :=
    fun content => .pure fun _ _ => scalars_of (.bytes content) fun _ => rfl
  have text : ∀ content : String,
      Jointly family start (Scalars naming) fun _ => Pure.pure (.text content) :=
    fun content => .pure fun _ _ => scalars_of (.text content) fun _ => rfl
  unfold ForeignType.decode
  simp only [textLength?_named, List.isEmpty_map, List.length_map]
  cases action : type.action with
  | varint bits =>
    exact .ite (fun _ => readGroups_together naming (exact 1 (.inr (by decide))) _ _ _ _ _)
      fun _ => .throw _
  | utf8 =>
    refine .ofExcept_bind fun given => (length given).bind_same fun bytes => ?_
    cases Utf8.decode bytes with
    | ok chars => exact text _
    | error fault => exact .throw _
  | utf16 =>
    refine .ofExcept_bind fun given => (length _).bind_same fun bytes => ?_
    cases Utf16.decode bytes with
    | ok chars => exact text _
    | error fault => exact .throw _
  | raw =>
    cases arguments with
    | nil => exact toEnd.bind_same bytes
    | cons argument rest =>
      simp only [List.map_cons, Value.toInteger?_named]
      cases argument.toInteger? with
      | none => exact .throw _
      | some count => exact (exact count (.inl action)).bind_same bytes
  | peek =>
    rcases arguments with _ | ⟨argument, _ | ⟨second, rest⟩⟩
    · exact (peek action 1).bind_same bytes
    · simp only [List.map_cons, List.map_nil, Value.toInteger?_named]
      cases argument.toInteger? with
      | none => exact .throw _
      | some want => exact (peek action want.toNat).bind_same bytes
    · exact .throw _
  | mode =>
    obtain ⟨name, rfl⟩ := modeless action
    exact text name

end Foreign

/-! ### Ensembles -/

/-- The ways of running a program, and how they belong together. A view is said by the name that it has
before the namings. Which views may be read and held depends on the streams, and a view that may be read
or held stays one. -/
structure Ensemble (ι : Type) where
  naming : ι → Naming
  /-- The name of the mode of a way. -/
  mode : ι → String
  streams : Streams.Family ι
  /-- The views that an instruction may read. -/
  reads : (ι → Streams Codec) → View → Prop
  /-- The views that a register may hold. -/
  held : (ι → Streams Codec) → View → Prop
  /-- The cursors whose end is asked for. -/
  ends : (ι → Streams Codec) → View → Prop
  /-- The views that a value may have inside, at any depth. -/
  inside : View → Prop
  /-- How much more went through a view before, in each way. -/
  offset : View → ι → Nat
  /-- The transforms that are covered. -/
  wraps : Transform → Prop
  /-- The foreign types that are covered. -/
  foreign : ForeignType → Prop
  traces : (ι → Trace) → Prop
  warnings : (ι → List String) → Prop
  faults : (ι → Fault) → Prop
  reads_later : ∀ {before after view}, streams.later before after → reads before view →
    reads after view
  held_later : ∀ {before after view}, streams.later before after → held before view → held after view
  ends_later : ∀ {before after view}, streams.later before after → ends before view → ends after view
  reads_of_held : ∀ {states view}, held states view → reads states view
  inside_of_held : ∀ {states view}, held states view → inside view
  readExact : ∀ {start view}, reads start view → ∀ count : Nat,
    Jointly streams start Constantly fun way => ((naming way).views view).readExact count
  readToEnd : ∀ {start view}, reads start view →
    Jointly streams start Constantly fun way => ((naming way).views view).readToEnd
  approach : ∀ {start view terminator}, reads start view → terminator ≠ [] →
    Jointly streams start Constantly fun way => ((naming way).views view).approach terminator
  openTake : ∀ {start view}, reads start view → ∀ limit : Nat,
    Jointly streams start (Likewise held fun way => (naming way).views) fun way =>
      openedBy fun streams => streams.openTake ((naming way).views view) limit
  openCursor : ∀ start content,
    Jointly streams start (Likewise (fun states cursor => held states cursor ∧ ends states cursor)
      fun way => (naming way).views) fun _ => openedBy fun streams => streams.openCursor content
  wrap : ∀ {start view transform}, wraps transform → reads start view → ∀ values : List Value,
    Jointly streams start (Likewise held fun way => (naming way).views) fun way =>
      transform.wrap ((naming way).views view) (values.map (Value.named (naming way)))
  /-- A stream that is left without a transform may be held as well. -/
  left : ∀ {states view transform}, wraps transform → reads states view → held states view
  decode : ∀ {start view type}, foreign type → reads start view → ∀ values : List Value,
    Jointly streams start (Scalars naming) fun way =>
      type.decode ((naming way).views view) (values.map (Value.named (naming way))) (mode way)
  position : ∀ {view states}, streams.states states → reads states view → ∃ common, ∀ way,
    ((naming way).views view).position (states way) = common + offset view way
  weight : ∀ {view states}, streams.states states → reads states view → ∃ common, ∀ way,
    ((naming way).views view).weight (states way) = common
  atEnd : ∀ {view states}, streams.states states → ends states view → ∃ common, ∀ way,
    ((naming way).views view).atEnd (states way) = common
  same : ∀ fault, faults fun _ => fault
  unfit : ∀ {states view}, held states view → ∀ what, faults fun way =>
    .decode (.countNotInteger what ((naming way).views view).typeName)
  recorded : ∀ {kinds}, faults kinds → ∃ recorded, ∀ way, (kinds way).isDecode = recorded
  started : ∀ {entries}, traces entries → ∀ depth label, traces fun way =>
    (entries way).record "exec" depth label (mode way)
  failed : ∀ {entries kinds}, traces entries → faults kinds → ∀ depth label, traces fun way =>
    (entries way).record "fail" depth label (kinds way).message
  warned : ∀ {texts}, warnings texts → ∀ text, warnings fun way => text :: texts way

/-- The streams of machines. -/
abbrev streamsOf (machines : ι → Machine) : ι → Streams Codec :=
  fun way => (machines way).streams

namespace Ensemble

variable (ensemble : Ensemble ι)

/-- Machines that belong together: they hold the same lists, each under its names. -/
structure Machines (machines : ι → Machine) : Prop where
  streams : ensemble.streams.states (streamsOf machines)
  lists : ∃ lists : Lists, lists.Bears ensemble.inside ∧
    ∀ way, Lists.Named (ensemble.naming way) lists (machines way).lists
  trace : ensemble.traces fun way => (machines way).trace
  warnings : ensemble.warnings fun way => (machines way).warnings

/-- Failures that belong together are at one place. -/
def Failures (failures : ι → Failure) : Prop :=
  ∃ faults path, ensemble.faults faults ∧ failures = fun way => ⟨faults way, path⟩

/-- Machines and failures that belong together. -/
def accord : Accord ι Failure Machine where
  states := ensemble.Machines
  faults := ensemble.Failures
  later before after := ensemble.streams.later (streamsOf before) (streamsOf after)
  refl machines := ensemble.streams.refl (streamsOf machines)
  trans := ensemble.streams.trans

/-- A value that a register may hold. -/
structure Holds (streams : ι → Streams Codec) (value : Value) : Prop where
  held : ∀ view, value = .stream view → ensemble.held streams view
  inside : value.Bears ensemble.inside

/-- A frame that holds what a register may hold, over a stream that may be read. -/
structure Frames (streams : ι → Streams Codec) (frame : Frame) : Prop where
  views : frame.Views (ensemble.reads streams)
  slots : ∀ slot value, frame.find? slot = some value → ensemble.Holds streams value

/-- A value in all ways. -/
abbrev Values : (ι → Machine) → (ι → Value) → Prop :=
  Likewise (fun after => ensemble.Holds (streamsOf after)) fun way =>
    Value.named (ensemble.naming way)

/-- A frame in all ways. -/
abbrev Framed : (ι → Machine) → (ι → Frame) → Prop :=
  Likewise (fun after => ensemble.Frames (streamsOf after)) fun way =>
    Frame.named (ensemble.naming way)

variable {ensemble}

theorem Holds.of_nameless {streams : ι → Streams Codec} {value : Value} (inert : value.Inert)
    (nameless : value.Nameless) : ensemble.Holds streams value :=
  ⟨fun view same => absurd same (inert view), .of_nameless nameless⟩

theorem Holds.of_stream {streams : ι → Streams Codec} {view : View}
    (held : ensemble.held streams view) : ensemble.Holds streams (.stream view) :=
  ⟨fun _ same => Value.stream.inj same ▸ held, .stream (ensemble.inside_of_held held)⟩

theorem Holds.later {before after : ι → Streams Codec} {value : Value}
    (holds : ensemble.Holds before value) (later : ensemble.streams.later before after) :
    ensemble.Holds after value :=
  ⟨fun view same => ensemble.held_later later (holds.held view same), holds.inside⟩

theorem failures_of_fault {faults : ι → Fault} (belong : ensemble.faults faults) :
    ensemble.Failures fun way => ⟨faults way, []⟩ :=
  ⟨faults, [], belong, rfl⟩

theorem failures_same (ensemble : Ensemble ι) (fault : Fault) :
    ensemble.Failures fun _ => ⟨fault, []⟩ :=
  failures_of_fault (ensemble.same fault)

theorem Failures.within {failures : ι → Failure} (belong : ensemble.Failures failures)
    (site : Site) : ensemble.Failures fun way => (failures way).within site := by
  obtain ⟨faults, path, fault, rfl⟩ := belong
  obtain ⟨recorded, same⟩ := ensemble.recorded fault
  unfold Failure.within
  simp only [same]
  cases recorded with
  | true => exact ⟨faults, site :: path, fault, rfl⟩
  | false => exact ⟨faults, path, fault, rfl⟩

/-! ### Frames -/

namespace Frames

variable {streams : ι → Streams Codec} {frame next : Frame}

theorem later {after : ι → Streams Codec} (frames : ensemble.Frames streams frame)
    (later : ensemble.streams.later streams after) : ensemble.Frames after frame :=
  ⟨frames.views.mono fun _ => ensemble.reads_later later,
    fun slot value found => (frames.slots slot value found).later later⟩

theorem get (frames : ensemble.Frames streams frame) {register : Register} {value : Value}
    (same : frame.get register = .ok value) : ensemble.Holds streams value := by
  obtain ⟨slot, -, found⟩ := Frame.get_eq_ok.mp same
  exact frames.slots slot value found

theorem getMany (frames : ensemble.Frames streams frame) {registers : List Register}
    {values : List Value} (same : frame.getMany registers = .ok values) :
    ∀ value ∈ values, ensemble.Holds streams value := by
  have each : Ends (frame.getMany registers) (fun values => values.length = registers.length ∧
      ∀ value ∈ values, ensemble.Holds streams value) fun _ => True :=
    .mapM fun register _ => .of_ok fun value found => frames.get found
  exact (each.ok same).2

theorem set (frames : ensemble.Frames streams frame) {register : Register} {value : Value}
    (holds : ensemble.Holds streams value) (same : frame.set register value = .ok next) :
    ensemble.Frames streams next := by
  refine ⟨frames.views.set same fun view isStream =>
    ensemble.reads_of_held (holds.held view isStream), ?_⟩
  obtain ⟨slot, -, -, rfl⟩ := Frame.set_eq_ok.mp same
  intro other found here
  rw [Frame.find?_write] at here
  split at here
  · exact Option.some.inj here ▸ holds
  · exact frames.slots other found here

theorem inner (frames : ensemble.Frames streams frame) :
    ensemble.Frames streams (frame.child none []) := by
  refine ⟨frames.views.inner, fun slot value found => ?_⟩
  rw [Frame.find?_child] at found
  exact frames.slots slot value found

theorem cursorFrame (frames : ensemble.Frames streams frame) (target : Target) {cursor : View}
    (held : ensemble.held streams cursor) :
    ensemble.Frames streams (cursorFrame frame target cursor) := by
  refine ⟨frames.views.cursorFrame target (ensemble.reads_of_held held), fun slot value found => ?_⟩
  rcases cursorFrame_cases frame target cursor with same | same | ⟨-, bound, -, -, same⟩
  · rw [same, Frame.find?_child] at found
    exact frames.slots slot value found
  · rw [same, Frame.find?_child] at found
    exact frames.slots slot value found
  · rw [same, Frame.find?_child, List.lookup_cons] at found
    split at found
    · cases found
      exact .of_stream held
    · exact frames.slots slot value found

theorem bindArguments {program : Program} {values : List Value} {view : View}
    (holds : ∀ value ∈ values, ensemble.Holds streams value)
    (bound : WireProgram.bindArguments program values = .ok frame)
    (reads : ensemble.reads streams view) : ensemble.Frames streams (frame.bindReader view) := by
  have slots : ∀ slot value, frame.find? slot = some value → ensemble.Holds streams value := by
    refine @bindArguments_keeps frame program values (fun frame => ∀ slot value,
      frame.find? slot = some value → ensemble.Holds streams value) nofun ?_ bound
    intro frame next register value member slots written slot found here
    obtain ⟨free, -, -, rfl⟩ := Frame.set_eq_ok.mp written
    rw [Frame.find?_write] at here
    split at here
    · exact Option.some.inj here ▸ holds value member
    · exact slots slot found here
  refine ⟨⟨fun slot found here => ?_, fun _ found => Except.ok.inj found ▸ reads⟩, slots⟩
  exact ensemble.reads_of_held ((slots slot _ here).held found rfl)

end Frames

end Ensemble

/-! ### Steps in all ways -/

/-- A step that is taken in all ways together, with results that belong together. -/
abbrev Duet (ensemble : Ensemble ι) (good : (ι → Machine) → (ι → α) → Prop) (step : ι → Step α)
    (machines : ι → Machine) : Prop :=
  Unison ensemble.accord good step machines

namespace Duet

variable {ensemble : Ensemble ι} {machines : ι → Machine} {good : (ι → Machine) → (ι → α) → Prop}
  {better : (ι → Machine) → (ι → β) → Prop} {put : ι → α → α} {holds : (ι → Machine) → α → Prop}

/-- **Sequencing.** The second step is taken together with one value, put in each way. -/
theorem bind {step : ι → Step α} {next : ι → α → Step β}
    (first : Duet ensemble (Likewise holds put) step machines)
    (second : ∀ value machines', ensemble.accord.Reached machines machines' → holds machines' value →
      Duet ensemble better (fun way => next way (put way value)) machines') :
    Duet ensemble better (fun way => step way >>= next way) machines := by
  refine Unison.bind first ?_
  rintro _ machines' reached ⟨value, good, rfl⟩
  exact second value machines' reached good

/-- The second step is taken together with the same value. -/
theorem bind_same {step : ι → Step α} {next : ι → α → Step β}
    (first : Duet ensemble Constantly step machines)
    (second : ∀ value machines', ensemble.accord.Reached machines machines' →
      Duet ensemble better (fun way => next way value) machines') :
    Duet ensemble better (fun way => step way >>= next way) machines := by
  refine Unison.bind first ?_
  rintro _ machines' reached ⟨value, rfl⟩
  exact second value machines' reached

theorem discard {step : ι → Step α} (duet : Duet ensemble good step machines) :
    Duet ensemble Constantly (fun way => (Functor.discard (step way) : Step Unit)) machines :=
  (Unison.discard duet).mono fun _ _ _ same => ⟨(), same⟩

/-! ### Results -/

/-- One result in all ways. -/
theorem ofExcept {result : Except Fault α} {results : ι → Except Fault α}
    (together : ensemble.Machines machines) (same : ∀ way, results way = result.map (put way))
    (good : ∀ value, result = .ok value → holds machines value) :
    Duet ensemble (Likewise holds put) (fun way => Step.ofExcept (results way)) machines := by
  simp only [same]
  cases result with
  | ok value => exact .pure together ⟨value, good value rfl, rfl⟩
  | error fault => exact .throw together (ensemble.failures_same fault)

/-- One result in all ways, before the rest. -/
theorem ofExcept_bind {result : Except Fault α} {results : ι → Except Fault α}
    {next : ι → α → Step β} (together : ensemble.Machines machines)
    (same : ∀ way, results way = result.map (put way))
    (rest : ∀ value, result = .ok value →
      Duet ensemble better (fun way => next way (put way value)) machines) :
    Duet ensemble better (fun way => Step.ofExcept (results way) >>= next way) machines := by
  simp only [same]
  cases result with
  | ok value => exact .look_bind (fun _ => rfl) (rest value rfl)
  | error fault =>
    refine .of_error (.refl together) (ensemble.failures_same fault) fun way => ?_
    rw [run_bind]
    rfl

/-- The same result in all ways. -/
theorem constant (result : Except Fault α) (together : ensemble.Machines machines) :
    Duet ensemble Constantly (fun _ => Step.ofExcept result) machines := by
  cases result with
  | ok value => exact .pure together (.intro _ value)
  | error fault => exact .throw together (ensemble.failures_same fault)

/-- The same result in all ways, before the rest. -/
theorem constant_bind {result : Except Fault α} {next : ι → α → Step β}
    (together : ensemble.Machines machines)
    (rest : ∀ value, result = .ok value → Duet ensemble better (fun way => next way value) machines) :
    Duet ensemble better (fun way => Step.ofExcept result >>= next way) machines := by
  have same : ∀ way : ι, result = result.map ((fun _ value => value : ι → α → α) way) := by
    intro way
    cases result <;> rfl
  exact ofExcept_bind together same rest

/-! ### Operations on the streams -/

theorem onStreams {good : (ι → Streams Codec) → (ι → α) → Prop} {step : ι → StreamStep Codec α}
    (together : ensemble.Machines machines)
    (both : Jointly ensemble.streams (streamsOf machines) good step) :
    Duet ensemble (fun after => good (streamsOf after)) (fun way => Step.onStreams (step way))
      machines := by
  obtain ⟨after, reached, ended⟩ := both _ (.refl together.streams)
  have reached' : ensemble.accord.Reached machines fun way =>
      { machines way with streams := after way } :=
    ⟨⟨reached.states, together.lists, together.trace, together.warnings⟩, reached.later⟩
  rcases ended with ⟨values, holds, ran⟩ | ⟨faults, ⟨fault, rfl⟩, ran⟩
  · refine .of_ok reached' holds fun way => ?_
    rw [Step.run_onStreams, ran]
    rfl
  · refine .of_error reached' (ensemble.failures_same fault) fun way => ?_
    rw [Step.run_onStreams, ran]
    rfl

/-! ### Operations on the lists -/

theorem onLists (holds : (ι → Streams Codec) → α → Prop) (act : Lists → Except Fault (α × Lists))
    {acts : ι → Lists → Except Fault (α × Lists)} (together : ensemble.Machines machines)
    (same : ∀ way lists lists', Lists.Named (ensemble.naming way) lists lists' →
      Computed (ensemble.naming way) (put way) (act lists) (acts way lists'))
    (good : ∀ lists outcome, lists.Bears ensemble.inside → act lists = .ok outcome →
      holds (streamsOf machines) outcome.1 ∧ outcome.2.Bears ensemble.inside) :
    Duet ensemble (Likewise (fun after => holds (streamsOf after)) put)
      (fun way => Step.onLists (acts way)) machines := by
  obtain ⟨lists, bears, named⟩ := together.lists
  have each : ∀ way, Computed (ensemble.naming way) (put way) (act lists)
      (acts way (machines way).lists) := fun way => same way _ _ (named way)
  cases acted : act lists with
  | ok outcome =>
    obtain ⟨value, after⟩ := outcome
    have ran : ∀ way, ∃ lists', Lists.Named (ensemble.naming way) after lists' ∧
        acts way (machines way).lists = .ok (put way value, lists') := by
      intro way
      have computed := each way
      rw [acted] at computed
      cases named' : acts way (machines way).lists with
      | ok outcome' =>
        rw [named'] at computed
        cases computed with
        | ok named => exact ⟨_, named, rfl⟩
      | error fault =>
        rw [named'] at computed
        cases computed
    choose lists' named' ended using ran
    obtain ⟨holds, bears'⟩ := good lists _ bears acted
    have reached : ensemble.accord.Reached machines fun way =>
        { machines way with lists := lists' way } :=
      ⟨⟨together.streams, ⟨after, bears', named'⟩, together.trace, together.warnings⟩,
        ensemble.streams.refl _⟩
    refine .of_ok reached ⟨value, holds, rfl⟩ fun way => ?_
    rw [Step.run_onLists, ended]
  | error fault =>
    refine .of_error (.refl together) (ensemble.failures_same fault) fun way => ?_
    have computed := each way
    rw [acted] at computed
    rw [Step.run_onLists]
    cases ended : acts way (machines way).lists with
    | ok outcome' =>
      rw [ended] at computed
      cases computed
    | error fault' =>
      rw [ended] at computed
      cases computed
      rfl

/-! ### Looks and changes -/

/-- A look that shows the same in all ways, before the rest. -/
theorem look_bind {question : ι → Machine → α} {value : α} {next : ι → α → Step β}
    (same : ∀ way, question way (machines way) = value)
    (rest : Duet ensemble better (fun way => next way value) machines) :
    Duet ensemble better (fun way => Step.look (question way) >>= next way) machines := by
  refine Unison.look_bind (fun way => ?_) rest
  rw [Step.run_look, same]

/-- A look that shows something else in each way, before the rest. -/
theorem look_each {question : ι → Machine → α} {next : ι → α → Step β}
    (rest : Duet ensemble better (fun way => next way (question way (machines way))) machines) :
    Duet ensemble better (fun way => Step.look (question way) >>= next way) machines :=
  Unison.look_bind (fun _ => Step.run_look _ _) rest

/-- Recording the start of an instruction. -/
theorem record (together : ensemble.Machines machines) (config : Config) (label : String)
    (depth : Nat) :
    Duet ensemble Constantly
      (fun way => Step.record config "exec" depth label (ensemble.mode way)) machines := by
  have reached : ensemble.accord.Reached machines fun way =>
      if config.trace then { machines way with
        trace := (machines way).trace.record "exec" depth label (ensemble.mode way) }
      else machines way := by
    cases config.trace with
    | true =>
      exact ⟨⟨together.streams, together.lists, ensemble.started together.trace depth label,
        together.warnings⟩, ensemble.streams.refl _⟩
    | false => exact .refl together
  exact .of_ok reached (.intro _ ()) fun _ => rfl

theorem warn (together : ensemble.Machines machines) (text : String) :
    Duet ensemble Constantly (fun _ => Step.warn text) machines := by
  have reached : ensemble.accord.Reached machines fun way =>
      { machines way with warnings := text :: (machines way).warnings } :=
    ⟨⟨together.streams, together.lists, together.trace, ensemble.warned together.warnings text⟩,
      ensemble.streams.refl _⟩
  exact .of_ok reached (.intro _ ()) fun _ => rfl

/-- **An instruction at its place.** -/
theorem guarded {step : ι → Step α} (config : Config) (depth : Nat) (site : Site)
    (duet : Duet ensemble good step machines) :
    Duet ensemble good (fun way => Step.guarded config depth site (step way)) machines := by
  obtain ⟨after, reached, ⟨values, holds, ran⟩ | ⟨failures, failed, ran⟩⟩ := duet
  · refine .of_ok reached holds fun way => ?_
    rw [Step.run_guarded, ran]
  · have kept : ensemble.Machines after := reached.states
    have reached' : ensemble.accord.Reached machines fun way =>
        Step.recorded config depth site (failures way) (after way) := by
      obtain ⟨faults, path, fault, rfl⟩ := failed
      obtain ⟨recorded, same⟩ := ensemble.recorded fault
      unfold Step.recorded
      simp only [same]
      by_cases written : recorded = true ∧ config.trace = true
      · simp only [if_pos written]
        exact ⟨⟨kept.streams, kept.lists, ensemble.failed kept.trace fault depth site.label,
          kept.warnings⟩, reached.later⟩
      · simp only [if_neg written]
        exact reached
    refine .of_error reached' (failed.within site) fun way => ?_
    rw [Step.run_guarded, ran]

end Duet

end WireProgram
