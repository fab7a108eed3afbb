/-
**Machines in both modes.**

The machines of the two modes hold the same bytes, lists and warnings. What tells them apart is said
here: the way in which raw inputs are read, the name of the mode in the events of instructions, and
two faults that name a class or an entry point of the mode. The main definitions and statements:

* `Fault.Paired`, `TraceEntry.Paired` and `Trace.Paired`, faults and events in both modes;
* `Transform.wrap_both` and `View.approach_both`, what a run does with streams in both modes;
* `Ensemble.modes`, the two modes as the ways of running a program.
-/

import WireProgram.Proofs.Ensemble.Run
import WireProgram.Proofs.Mode.Value

namespace WireProgram

/-! ### Faults -/

/-- A fault in both modes: the same one, or one that names the class of a root or an entry point. -/
inductive Fault.Paired : (Execution → Fault) → Prop where
  | same (fault : Fault) : Paired fun _ => fault
  | root (what : String) :
    Paired fun execution => .decode (.countNotInteger what execution.sourceName)
  | entry (name : Json) :
    Paired fun execution => .program (.noEntryPoint name execution.entryPoint.name)

/-- Both modes record a fault, or none of them. -/
theorem Fault.Paired.isDecode {faults : Execution → Fault} (paired : Fault.Paired faults) :
    ∃ recorded, ∀ execution, (faults execution).isDecode = recorded := by
  cases paired with
  | same fault => exact ⟨fault.isDecode, fun _ => rfl⟩
  | root what => exact ⟨true, fun _ => rfl⟩
  | entry name => exact ⟨false, fun _ => rfl⟩

/-! ### Events -/

/-- An event in both modes: the same one, the start of an instruction with the name of the mode, or
its end by a fault. -/
inductive TraceEntry.Paired : (Execution → TraceEntry) → Prop where
  | same (entry : TraceEntry) : Paired fun _ => entry
  | start (number depth : Nat) (instruction : String) :
    Paired fun execution => ⟨number, "exec", depth, instruction, execution.name⟩
  | failed (number depth : Nat) (instruction : String) {faults : Execution → Fault}
    (paired : Fault.Paired faults) :
    Paired fun execution => ⟨number, "fail", depth, instruction, (faults execution).message⟩

/-- A trace in both modes, event by event. -/
def Trace.Paired (traces : Execution → Trace) : Prop :=
  ∃ capacity next, ∃ entries : List (Execution → TraceEntry),
    (∀ entry ∈ entries, TraceEntry.Paired entry) ∧
      traces = fun execution => ⟨capacity, next, entries.map fun entry => entry execution⟩

theorem Trace.paired_same (trace : Trace) : Trace.Paired fun _ => trace := by
  refine ⟨trace.capacity, trace.next, trace.newest.map fun entry _ => entry, ?_, ?_⟩
  · intro entry member
    obtain ⟨found, -, rfl⟩ := List.mem_map.mp member
    exact .same found
  · funext execution
    simp only [List.map_map, Function.comp_def, List.map_id']

theorem Trace.Paired.record {traces : Execution → Trace} (paired : Trace.Paired traces)
    (event label : String) (depth : Nat) {details : Execution → String}
    (holds : ∀ number, TraceEntry.Paired fun execution =>
      ⟨number, event, depth, label, details execution⟩) :
    Trace.Paired fun execution =>
      (traces execution).record event depth label (details execution) := by
  obtain ⟨capacity, next, entries, each, rfl⟩ := paired
  let latest : Execution → TraceEntry := fun execution =>
    ⟨next, event, depth, label, details execution⟩
  have all : ∀ entry ∈ latest :: entries, TraceEntry.Paired entry := by
    intro entry member
    rcases List.mem_cons.mp member with rfl | older
    · exact holds next
    · exact each entry older
  cases capacity with
  | none => exact ⟨none, next + 1, latest :: entries, all, rfl⟩
  | some limit =>
    refine ⟨some limit, next + 1, (latest :: entries).take limit,
      fun entry member => all entry (List.mem_of_mem_take member), ?_⟩
    simp only [List.map_take]
    rfl

/-! ### Streams -/

section Streams

variable {α : Type} {good : (Execution → α) → Prop}

/-- The states of the streams in both modes. -/
def Streams.inModes : Streams.Family Execution where
  states := (Streams.paired Codec).states
  later := (Streams.paired Codec).later
  refl := (Streams.paired Codec).refl
  trans := (Streams.paired Codec).trans

/-- What gives the same in both modes from one state of the streams. -/
theorem View.Both.together {step : Execution → StreamStep Codec α} (both : View.Both good step)
    (start : Execution → Streams Codec) :
    Jointly Streams.inModes start (fun _ => good) step :=
  fun _ ⟨⟨common, prompt, same⟩, _⟩ => same ▸ both common prompt

theorem View.approach_both (view : View) (terminator : Bytes) :
    View.Both Constant fun execution =>
      ((view.under execution).approach terminator : StreamStep Codec Approach) := by
  refine (view.fillBuf_both terminator.length).bind fun peeked => ?_
  cases Approach.of terminator peeked with
  | ended => exact View.both_pure _ _
  | ahead => exact View.both_pure _ _
  | reached => exact (view.consume_both _).bind fun _ => View.both_pure _ _

theorem openTake_both (view : View) (limit : Int) :
    View.Both (Common View.under) fun execution =>
      (openedBy fun streams => streams.openTake (view.under execution) limit :
        StreamStep Codec View) :=
  View.both_of_run (openedBy fun streams => streams.openTake view limit) (fun _ _ => rfl)
    fun _ => rfl

theorem openTransformed_both (view : View) (codec : Codec) :
    View.Both (Common View.under) fun execution =>
      openedBy fun streams => streams.openTransformed (view.under execution) codec :=
  View.both_of_run (openedBy fun streams => streams.openTransformed view codec) (fun _ _ => rfl)
    fun _ => rfl

theorem openCursor_both (content : Bytes) :
    View.Both (Common View.under) fun _ =>
      (openedBy fun streams => streams.openCursor content : StreamStep Codec View) :=
  View.both_of_run (openedBy fun streams => streams.openCursor content) (fun _ _ => rfl)
    fun _ => rfl

/-- A view in both modes. -/
theorem Jointly.views {start : Execution → Streams Codec} {step : Execution → StreamStep Codec View}
    (together : Jointly Streams.inModes start (fun _ => Common View.under) step) :
    Jointly Streams.inModes start (Likewise (fun _ _ => True) View.under) step :=
  together.mono fun _ _ ⟨view, same⟩ => ⟨view, trivial, same⟩

/-- **A transform** makes one view over one view. -/
theorem Transform.wrap_both (transform : Transform) (view : View) (arguments : List Value)
    (start : Execution → Streams Codec) :
    Jointly Streams.inModes start (fun _ => Common View.under) fun execution =>
      transform.wrap (view.under execution) (arguments.map (Value.named execution.naming)) := by
  simp only [Transform.wrap_named]
  unfold Transform.wrap
  cases transform.action with
  | base64 =>
    exact .ite (fun _ => (openTransformed_both view _).together start) fun _ => .throw _
  | gzip =>
    exact .ite (fun _ => (openTransformed_both view _).together start) fun _ => .throw _
  | identity => exact .pure fun _ _ => .intro View.under view
  | head => exact .ofExcept_bind fun limit => (openTake_both view limit).together start
  | xor => exact .ofExcept_bind fun key => (openTransformed_both view _).together start
  | block => exact .ofExcept_bind fun left => (openTransformed_both view _).together start

end Streams

/-! ### The ensemble of the modes -/

/-- **The two modes.** All views are read in both of them, through any transform and with any foreign
type that does not ask for the mode. -/
def Ensemble.modes : Ensemble Execution where
  naming := Execution.naming
  mode := Execution.name
  streams := Streams.inModes
  reads _ _ := True
  held _ _ := True
  ends _ _ := True
  inside _ := True
  offset _ _ := 0
  wraps _ := True
  foreign type := type.action ≠ .mode
  traces := Trace.Paired
  warnings := Constant
  faults := Fault.Paired
  reads_later _ _ := trivial
  held_later _ _ := trivial
  ends_later _ _ := trivial
  reads_of_held _ := trivial
  inside_of_held _ := trivial
  readExact _ count := (View.readExact_both _ count).together _
  readToEnd _ := (View.readToEnd_both _).together _
  approach _ _ := (View.approach_both _ _).together _
  openTake _ limit := ((openTake_both _ limit).together _).views
  openCursor _ content := ((openCursor_both content).together _).mono
    fun _ _ ⟨view, same⟩ => ⟨view, ⟨trivial, trivial⟩, same⟩
  wrap _ _ values := (Transform.wrap_both _ _ values _).views
  left _ _ := trivial
  decode modeless _ values :=
    ForeignType.decode_together (fun asks => absurd asks modeless) Execution.naming
      (fun count _ => (View.readExact_both _ count).together _)
      ((View.readToEnd_both _).together _) (fun _ want => (View.fillBuf_both _ want).together _) values
  position := by
    rintro view _ ⟨streams, -, rfl⟩ -
    exact ⟨view.position streams, fun execution => View.position_under execution streams view⟩
  weight := by
    rintro view _ ⟨streams, -, rfl⟩ -
    exact ⟨view.weight streams, fun execution => View.weight_under execution streams view⟩
  atEnd := by
    rintro view _ ⟨streams, -, rfl⟩ -
    exact ⟨view.atEnd streams, fun execution => View.atEnd_under execution streams view⟩
  same := .same
  unfit {_ view} _ what := by
    cases view with
    | source own cell => exact .root what
    | cursor cell => exact .same (.decode (.countNotInteger what (View.cursor cell).typeName))
    | take cell parent =>
      exact .same (.decode (.countNotInteger what (View.take cell parent).typeName))
    | transformed cell parent =>
      exact .same (.decode (.countNotInteger what (View.transformed cell parent).typeName))
  recorded paired := paired.isDecode
  started paired depth label :=
    paired.record "exec" label depth fun number => .start number depth label
  failed paired fault depth label :=
    paired.record "fail" label depth fun number => .failed number depth label fault
  warned same text := same.map (text :: ·)

end WireProgram
