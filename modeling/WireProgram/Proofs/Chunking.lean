/-
**Chunking is invisible.**

A program that wraps no stream and reads only the built-in types sees the bytes of its source and
not the chunks in which they come. Two runs over the same bytes in different chunks go in lockstep,
instruction by instruction: all registers hold the same, and the machines differ at most in how much
of the source is held. The main definitions and statements:

* `Machine.chunking`, the simulation of machines that differ in the chunks of one root;
* `Linked.Bare`, a program that wraps no stream and reads only the built-in types;
* `Instruction.run_lockstep` and `runBlock_lockstep`, one instruction and a block;
* `decodeMessage_lockstep`, a message that is referred to;
* `decode_chunking`, whole runs.
-/

import WireProgram.Proofs.Frame
import WireProgram.Proofs.Reach
import WireProgram.Proofs.Run.Inert
import WireProgram.Proofs.Step
import WireProgram.Proofs.Stream.Alike
import WireProgram.Resolver.Prelude

namespace WireProgram

/-! ### Alike machines -/

/-- Two machines that differ at most in the chunks of a root. -/
structure Machine.Alike (root : Nat) (left right : Machine) : Prop where
  streams : Streams.Alike root left.streams right.streams
  lists : right.lists = left.lists
  trace : right.trace = left.trace
  warnings : right.warnings = left.warnings

/-- The simulation of machines that differ in the chunks of a root. -/
def Machine.chunking (root : Nat) : Simulation Machine where
  alike := Machine.Alike root
  later before after := (Streams.chunking Codec root).later before.streams after.streams
  refl machine := (Streams.chunking Codec root).refl machine.streams
  trans := (Streams.chunking Codec root).trans

/-- A step that gives the same from two machines and keeps them alike. -/
abbrev Tandem {α : Type} (root : Nat) (good : α → Machine → Prop) (step : Step α)
    (left right : Machine) : Prop :=
  Lockstep (Machine.chunking root) good step step left right

/-- A value that is no stream through a codec over the root. -/
def Value.Steady (root : Nat) (machine : Machine) (value : Value) : Prop :=
  ∀ view, value = .stream view → view.Steady root machine.streams

/-- A frame whose streams do not run the root through a codec. -/
def Frame.Steady (root : Nat) (machine : Machine) (frame : Frame) : Prop :=
  frame.Views fun view => view.Steady root machine.streams

section Rules

variable {α β : Type} {root : Nat} {left right left' : Machine} {frame : Frame}
  {good : α → Machine → Prop} {better : β → Machine → Prop}

theorem Value.Inert.steady {value : Value} (inert : value.Inert) (machine : Machine) :
    value.Steady root machine :=
  fun view same => absurd same (inert view)

theorem Frame.Steady.later (steady : frame.Steady root left)
    (later : (Machine.chunking root).later left left') : frame.Steady root left' :=
  steady.mono fun _ holds => holds.later later

namespace Tandem

/-- An operation on the streams. -/
theorem onStreams {step : StreamStep Codec α} {holds : α → Streams Codec → Prop}
    (alike : Machine.Alike root left right)
    (together : Lockstep (Streams.chunking Codec root) holds step step left.streams
      right.streams) :
    Tandem root (fun value machine => holds value machine.streams) (Step.onStreams step)
      left right := by
  obtain ⟨result, streams, later, good⟩ := together
  constructor
  · rw [Step.run_onStreams, Step.run_onStreams, result]
  · exact ⟨streams, alike.lists, alike.trace, alike.warnings⟩
  · exact later
  · intro value same
    refine good value ?_
    rw [Step.run_onStreams] at same
    cases found : (step.run left.streams).1 with
    | ok value' =>
      rw [found] at same
      cases same
      rfl
    | error fault =>
      rw [found] at same
      cases same

/-- A computation that does not touch the machines. -/
theorem ofExcept {result : Except Fault α} (alike : Machine.Alike root left right)
    (holds : ∀ value, result = .ok value → good value left) :
    Tandem root good (Step.ofExcept result) left right := by
  refine .of_run (Step.run_ofExcept _ _) (Step.run_ofExcept _ _) alike (Simulation.refl _ _)
    fun value same => ?_
  cases result with
  | ok value' =>
    cases same
    exact holds _ rfl
  | error fault => cases same

/-- A computation that does not touch the machines, before the rest. -/
theorem ofExcept_bind {result : Except Fault α} {next : α → Step β}
    (alike : Machine.Alike root left right)
    (rest : ∀ value, result = .ok value → Tandem root better (next value) left right) :
    Tandem root better (Step.ofExcept result >>= next) left right := by
  cases result with
  | ok value => exact .of_look rfl rfl (rest value rfl)
  | error fault =>
    have ran : ∀ machine, (Step.ofExcept (.error fault) >>= next).run machine =
        (.error ⟨fault, []⟩, machine) := by
      intro machine
      rw [run_bind]
      rfl
    refine .of_run (ran left) (ran right) alike (Simulation.refl _ _) fun value wrong => ?_
    cases wrong

/-- A look that shows the same in both, before the rest. -/
theorem look_bind {question : Machine → α} {next : α → Step β}
    (same : question right = question left)
    (rest : Tandem root better (next (question left)) left right) :
    Tandem root better (Step.look question >>= next) left right := by
  refine .of_look (Step.run_look question left) ?_ rest
  rw [Step.run_look, same]

/-- An operation on the lists. -/
theorem onLists {act : Lists → Except Fault (α × Lists)} (alike : Machine.Alike root left right)
    (holds : ∀ result, act left.lists = .ok result →
      good result.1 { left with lists := result.2 }) :
    Tandem root good (Step.onLists act) left right := by
  cases same : act left.lists with
  | ok result =>
    have ran : ∀ machine : Machine, machine.lists = left.lists → (Step.onLists act).run machine =
        (.ok result.1, { machine with lists := result.2 }) := by
      intro machine lists
      rw [Step.run_onLists, lists, same]
    refine .of_run (ran left rfl) (ran right alike.lists)
      ⟨alike.streams, rfl, alike.trace, alike.warnings⟩
      ((Streams.chunking Codec root).refl left.streams) fun value found => ?_
    cases found
    exact holds _ same
  | error fault =>
    have ran : ∀ machine : Machine, machine.lists = left.lists → (Step.onLists act).run machine =
        (.error ⟨fault, []⟩, machine) := by
      intro machine lists
      rw [Step.run_onLists, lists, same]
    refine .of_run (ran left rfl) (ran right alike.lists) alike (Simulation.refl _ _)
      fun value wrong => ?_
    cases wrong

/-- A change of the trace or of the warnings. -/
theorem change {act : Machine → Machine}
    (streams : ∀ machine : Machine, (act machine).streams = machine.streams)
    (kept : Machine.Alike root (act left) (act right)) :
    Tandem root (fun _ _ => True) (Step.change act) left right := by
  refine .of_run (Step.run_change act left) (Step.run_change act right) kept ?_ fun _ _ => trivial
  show (Streams.chunking Codec root).later left.streams (act left).streams
  rw [streams]
  exact Simulation.refl _ _

theorem record (alike : Machine.Alike root left right) (config : Config) (event : String)
    (depth : Nat) (label detail : String) :
    Tandem root (fun _ _ => True) (Step.record config event depth label detail) left right := by
  refine change (fun machine => ?_) ?_
  · split <;> rfl
  · split
    · exact ⟨alike.streams, alike.lists, by rw [alike.trace], alike.warnings⟩
    · exact alike

theorem warn (alike : Machine.Alike root left right) (text : String) :
    Tandem root (fun _ _ => True) (Step.warn text) left right :=
  change (fun _ => rfl) ⟨alike.streams, alike.lists, alike.trace, by rw [alike.warnings]⟩

/-- An instruction at its place. -/
theorem guarded {step : Step α} (config : Config) (depth : Nat) (site : Site)
    (tandem : Tandem root good step left right) :
    Tandem root good (Step.guarded config depth site step) left right := by
  obtain ⟨result, alike, later, holds⟩ := tandem
  have ran := Step.run_guarded config depth site step
  rcases same : step.run left with ⟨found, left'⟩
  rcases same' : step.run right with ⟨found', right'⟩
  rw [same, same'] at result alike
  rw [same] at later holds
  have runLeft := ran left
  have runRight := ran right
  rw [same] at runLeft
  rw [same'] at runRight
  cases found with
  | ok value =>
    obtain rfl : found' = .ok value := result
    exact .of_run runLeft runRight alike later holds
  | error failure =>
    obtain rfl : found' = .error failure := result
    have kept : Machine.Alike root (Step.recorded config depth site failure left')
        (Step.recorded config depth site failure right') := by
      unfold Step.recorded
      split
      · exact ⟨alike.streams, alike.lists, by rw [alike.trace], alike.warnings⟩
      · exact alike
    refine .of_run runLeft runRight kept ?_ fun value wrong => ?_
    · refine (Machine.chunking root).trans later ?_
      show (Streams.chunking Codec root).later left'.streams
        (Step.recorded config depth site failure left').streams
      unfold Step.recorded
      split <;> exact Simulation.refl _ _
    · cases wrong

/-- Sequencing, with a frame that stays steady. -/
theorem bind_steady {step : Step α} {next : α → Step β} (first : Tandem root good step left right)
    (steady : frame.Steady root left)
    (rest : ∀ value left' right', Machine.Alike root left' right' → frame.Steady root left' →
      good value left' → Tandem root better (next value) left' right') :
    Tandem root better (step >>= next) left right :=
  Lockstep.bind first fun value left' right' alike later holds =>
    rest value left' right' alike (steady.later later) holds

/-- Writing a register. -/
theorem set (alike : Machine.Alike root left right) (steady : frame.Steady root left)
    {register : Register} {value : Value} (holds : value.Steady root left) :
    Tandem root (fun frame machine => frame.Steady root machine)
      (Step.ofExcept (frame.set register value)) left right :=
  ofExcept alike fun _ same => steady.set same holds

end Tandem

/-! ### Reading -/

variable {view : View}

theorem readScalar_tandem (alike : Machine.Alike root left right)
    (steady : view.Steady root left.streams) (name : Json) :
    Tandem root (fun value _ => value.Inert) (readScalar view name) left right := by
  refine Tandem.ofExcept_bind alike fun primitive _ => ?_
  refine (Tandem.onStreams alike (View.readExact_steady steady alike.streams _)).bind
    fun bytes _ _ alike' _ _ => ?_
  exact Tandem.ofExcept alike' fun _ same => (scalarOfBytes_inert primitive bytes).ok same

theorem arrayOfBytes_tandem (alike : Machine.Alike root left right) (primitive : Primitive)
    (bytes : Bytes) :
    Tandem root (fun value _ => value.Inert) (Step.ofExcept (arrayOfBytes primitive bytes))
      left right :=
  Tandem.ofExcept alike fun _ same => (arrayOfBytes_inert primitive bytes).ok same

theorem readArray_tandem (alike : Machine.Alike root left right)
    (steady : view.Steady root left.streams) (name : Json) (count : Option Nat)
    (allowPartialTail : Bool) :
    Tandem root (fun value _ => value.Inert) (readArray view name count allowPartialTail)
      left right := by
  refine Tandem.ofExcept_bind alike fun primitive _ => ?_
  cases count with
  | some count =>
    exact (Tandem.onStreams alike (View.readExact_steady steady alike.streams _)).bind
      fun bytes _ _ alike' _ _ => arrayOfBytes_tandem alike' primitive bytes
  | none =>
    refine (Tandem.onStreams alike (View.readToEnd_steady steady alike.streams)).bind
      fun bytes left' right' alike' _ _ => ?_
    dsimp only
    split
    · exact (Tandem.warn alike' _).bind fun _ _ _ alike'' _ _ =>
        arrayOfBytes_tandem alike'' primitive _
    · exact arrayOfBytes_tandem alike' primitive bytes

theorem readMember_tandem (alike : Machine.Alike root left right)
    (steady : view.Steady root left.streams) (entry : TypeEntry) (backing : Json) :
    Tandem root (fun value _ => value.Inert) (readMember view entry backing) left right := by
  refine Tandem.ofExcept_bind alike fun primitive _ => ?_
  split
  · exact (Tandem.onStreams alike (View.readExact_steady steady alike.streams _)).bind
      fun bytes _ _ alike' _ _ => Tandem.ofExcept alike' fun _ same =>
        (entry.ofDiscriminant_inert _).ok same
  · split
    · exact .throw alike
    · exact .throw alike

/-! ### Built-in types -/

section Foreign

variable {streams streams' : Streams Codec}

theorem readGroups_lockstep (steady : view.Steady root streams)
    (alike : Streams.Alike root streams streams') (name : String) (bits count index total : Nat) :
    Lockstep (Streams.chunking Codec root) (fun value _ => value.Inert)
      (readGroups name bits view count index total) (readGroups name bits view count index total)
      streams streams' := by
  induction count generalizing index total streams streams' with
  | zero => exact .throw alike
  | succ count hypothesis =>
    refine (View.readExact_steady steady alike 1).bind fun bytes _ _ alike' later _ => ?_
    dsimp only
    split
    · exact hypothesis (steady.later later) alike' _ _
    · split
      · exact .pure alike' nofun
      · exact .throw alike'

theorem readLength_lockstep (steady : view.Steady root streams)
    (alike : Streams.Alike root streams streams') (length : Option Nat) :
    Lockstep (Streams.chunking Codec root) (fun _ _ => True) (readLength view length)
      (readLength view length) streams streams' := by
  cases length with
  | none => exact View.readToEnd_steady steady alike
  | some length => exact View.readExact_steady steady alike length

/-- A computation that does not touch the streams, before the rest. -/
theorem streamsOfExcept_bind {result : Except Fault α} {next : α → StreamStep Codec β}
    {holds : β → Streams Codec → Prop} (alike : Streams.Alike root streams streams')
    (rest : ∀ value, Lockstep (Streams.chunking Codec root) holds (next value) (next value)
      streams streams') :
    Lockstep (Streams.chunking Codec root) holds (StreamStep.ofExcept result >>= next)
      (StreamStep.ofExcept result >>= next) streams streams' := by
  cases result with
  | ok value => exact .of_look rfl rfl (rest value)
  | error fault =>
    have ran : ∀ streams : Streams Codec,
        (StreamStep.ofExcept (.error fault) >>= next).run streams = (.error fault, streams) := by
      intro streams
      rw [run_bind]
      rfl
    refine .of_run (ran streams) (ran streams') alike (Simulation.refl _ _) fun value wrong => ?_
    cases wrong

/-- **Built-in types** are read in lockstep. -/
theorem ForeignType.decode_lockstep {foreign : ForeignType}
    (builtIn : Prelude.hasType foreign = true) (steady : view.Steady root streams)
    (alike : Streams.Alike root streams streams') (arguments : List Value) (mode : String) :
    Lockstep (Streams.chunking Codec root) (fun value _ => value.Inert)
      (foreign.decode view arguments mode) (foreign.decode view arguments mode)
      streams streams' := by
  unfold ForeignType.decode
  rcases Prelude.hasType_cases builtIn with ⟨bits, action⟩ | action | action
  · simp only [action]
    split
    · exact readGroups_lockstep steady alike _ _ _ _ _
    · exact .throw alike
  · simp only [action]
    refine streamsOfExcept_bind alike fun length => ?_
    refine (readLength_lockstep steady alike _).bind fun bytes _ _ alike' _ _ => ?_
    split
    · exact .pure alike' nofun
    · exact .throw alike'
  · simp only [action]
    refine streamsOfExcept_bind alike fun length => ?_
    refine (readLength_lockstep steady alike _).bind fun bytes _ _ alike' _ _ => ?_
    split
    · exact .pure alike' nofun
    · exact .throw alike'

end Foreign

/-! ### Loops -/

theorem repeatBody_tandem {body : Step Unit} (alike : Machine.Alike root left right)
    (steady : frame.Steady root left)
    (each : ∀ left right, Machine.Alike root left right → frame.Steady root left →
      Tandem root (fun _ _ => True) body left right) (count : Nat) :
    Tandem root (fun _ _ => True) (repeatBody body count) left right := by
  induction count generalizing left right with
  | zero => exact .pure alike trivial
  | succ count hypothesis =>
    exact (each left right alike steady).bind fun _ _ _ alike' later _ =>
      hypothesis alike' (steady.later later)

theorem withProgress_tandem {body : Step Unit} (alike : Machine.Alike root left right)
    (each : Tandem root (fun _ _ => True) body left right) (view : View) :
    Tandem root (fun _ _ => True) (withProgress view body) left right := by
  refine Tandem.look_bind (View.position_alike alike.streams view) ?_
  refine each.bind fun _ left' right' alike' _ _ => ?_
  refine Tandem.look_bind (View.position_alike alike'.streams view) ?_
  split
  · exact .throw alike'
  · exact .pure alike' trivial

theorem untilTerminator_tandem {body : Step Unit} (alike : Machine.Alike root left right)
    (steady : frame.Steady root left) (steadyView : view.Steady root left.streams)
    (each : ∀ left right, Machine.Alike root left right → frame.Steady root left →
      Tandem root (fun _ _ => True) body left right) {terminator : Bytes}
    (filled : terminator ≠ []) (fuel : Nat) :
    Tandem root (fun _ _ => True) (untilTerminator view terminator body fuel) left right := by
  induction fuel generalizing left right with
  | zero => exact .throw alike
  | succ fuel hypothesis =>
    rw [untilTerminator_succ]
    refine (Tandem.onStreams alike (View.approach_steady steadyView alike.streams filled)).bind
      fun found left' right' alike' later _ => ?_
    cases found with
    | ended => exact .pure alike' trivial
    | reached => exact .pure alike' trivial
    | ahead =>
      refine (withProgress_tandem alike' (each left' right' alike' (steady.later later)) view).bind
        fun _ _ _ alike'' later' _ => ?_
      have further := (Machine.chunking root).trans later later'
      exact hypothesis alike'' (steady.later further) (steadyView.later further)

theorem throughCursor_tandem {body : Step Unit} (alike : Machine.Alike root left right)
    (steady : frame.Steady root left)
    (each : ∀ left right, Machine.Alike root left right → frame.Steady root left →
      Tandem root (fun _ _ => True) body left right) {cursor : View} (apart : cursor.Apart root)
    (fuel : Nat) :
    Tandem root (fun _ _ => True) (throughCursor cursor body fuel) left right := by
  induction fuel generalizing left right with
  | zero => exact .throw alike
  | succ fuel hypothesis =>
    refine Tandem.look_bind (apart.atEnd alike.streams.differ) ?_
    split
    · exact .pure alike trivial
    · exact (withProgress_tandem alike (each left right alike steady) cursor).bind
        fun _ _ _ alike' later _ => hypothesis alike' (steady.later later)

end Rules

/-! ### Instructions and blocks -/

/-- How a message that is referred to must run: in lockstep, on a stream and on arguments that do
not run the root through a codec. -/
def Referral.Steady (root : Nat) (refer : Referral) (message : MessageType) : Prop :=
  ∀ view values left right, Machine.Alike root left right → view.Steady root left.streams →
    (∀ value ∈ values, value.Steady root left) →
      Tandem root (fun value machine => value.Steady root machine) (refer message view values)
        left right

/-- An instruction that wraps no stream, reads only built-in types, and refers to messages that run
in lockstep. -/
def Instruction.Tame (root : Nat) (types : Types) (refer : Referral) : Instruction → Prop
  | .wrapStream .. | .conditionalWrapStream .. => False
  | .decodeForeign _ _ foreign _ => Prelude.hasType foreign = true
  | .decodeReference _ _ name _ =>
    ∀ message, types.require name = .ok (.message message) → refer.Steady root message
  | _ => True

section Blocks

variable {root : Nat} {left right : Machine} {frame : Frame} {refer : Referral}
  {environment : Environment}

theorem openTake_tandem {view : View} (alike : Machine.Alike root left right)
    (steady : view.Steady root left.streams) (limit : Int) :
    Tandem root (fun opened machine => opened.Steady root machine.streams)
      (Step.onStreams (openedBy fun streams => streams.openTake view limit)) left right := by
  have opened : Lockstep (Streams.chunking Codec root)
      (fun opened streams => opened.Steady root streams)
      (openedBy fun streams => streams.openTake view limit)
      (openedBy fun streams => streams.openTake view limit) left.streams right.streams := by
    have same : (right.streams.openTake view limit).1 = (left.streams.openTake view limit).1 := by
      rw [Streams.openTake, Streams.openTake, alike.streams.bounds]
    refine ⟨congrArg Except.ok same, View.openTake_alike alike.streams view limit, ⟨rfl, ?_⟩, ?_⟩
    · show left.streams.bounds.size ≤ (left.streams.bounds.push _).size
      exact Nat.le_of_lt (Table.size_lt_push _ _)
    · intro opened found
      cases found
      exact steady.openTake limit
  exact Tandem.onStreams alike opened

theorem countIn_tandem (alike : Machine.Alike root left right) (what : String)
    (register : Register) :
    Tandem root (fun _ _ => True) (countIn frame what register) left right :=
  Tandem.ofExcept_bind alike fun _ _ => Tandem.ofExcept alike fun _ _ => trivial

theorem conditionHolds_tandem (alike : Machine.Alike root left right) (condition : Register) :
    Tandem root (fun _ _ => True) (conditionHolds frame condition) left right :=
  Tandem.ofExcept_bind alike fun _ _ => Tandem.look_bind alike.lists <| by
    exact Tandem.ofExcept alike fun _ _ => trivial

theorem newList_tandem (alike : Machine.Alike root left right) :
    Tandem root (fun value _ => value.Inert) newList left right :=
  Tandem.onLists alike fun _ same => by cases same; exact nofun

theorem openCursor_tandem (alike : Machine.Alike root left right) (content : Bytes) :
    Tandem root (fun cursor _ => cursor.Apart root)
      (Step.onStreams (openedBy fun streams => streams.openCursor content)) left right := by
  have opened : Lockstep (Streams.chunking Codec root) (fun cursor _ => cursor.Apart root)
      (openedBy fun streams => streams.openCursor content)
      (openedBy fun streams => streams.openCursor content) left.streams right.streams := by
    have kept := alike.streams
    have same : (right.streams.openCursor content).1 = (left.streams.openCursor content).1 := by
      rw [Streams.openCursor, Streams.openCursor, kept.cursors]
    refine ⟨congrArg Except.ok same, ?_, ⟨rfl, Nat.le_refl _⟩, ?_⟩
    · exact ⟨kept.driver, kept.fair, kept.rest, kept.position, kept.others,
        congrArg (Table.push · _) kept.cursors, kept.bounds, kept.transforms⟩
    · intro cursor found
      cases found
      trivial
  exact Tandem.onStreams alike opened

theorem addOutput_tandem (alike : Machine.Alike root left right) (output item : Register) :
    Tandem root (fun _ _ => True) (addOutput frame output item) left right := by
  refine Tandem.ofExcept_bind alike fun list _ => ?_
  split
  · exact Tandem.ofExcept_bind alike fun value _ => Tandem.onLists alike fun _ _ => trivial
  · exact .throw alike

theorem evaluate_tandem (alike : Machine.Alike root left right) (steady : frame.Steady root left)
    (program : Program) (expression : Expression) :
    Tandem root (fun value machine => value.Steady root machine)
      (Step.onLists (expression.evaluate (program.fieldValue frame))) left right := by
  refine Tandem.onLists alike fun result same => ?_
  rcases (expression.evaluate_inert _ _).ok same with inert | ⟨name, found⟩
  · exact inert.steady _
  · obtain ⟨register, -, holds⟩ := Program.fieldValue_eq_ok found
    exact fun view isStream => steady.get (isStream ▸ holds)

mutual

/-- **One instruction** goes in lockstep. -/
theorem Instruction.run_lockstep : ∀ (instruction : Instruction) (frame : Frame)
    (left right : Machine), (∀ part ∈ instruction.parts, part.Tame root environment.types refer) →
      Machine.Alike root left right → frame.Steady root left →
        Tandem root (fun frame machine => frame.Steady root machine)
          (instruction.run environment refer frame) left right
  | .eval target expression, frame, left, right, tame, alike, steady =>
    (evaluate_tandem alike steady environment.program expression).bind_steady steady
      fun _ _ _ alike' steady' holds => .set alike' steady' holds
  | .construct target constructable, frame, left, right, tame, alike, steady =>
    Tandem.ofExcept_bind alike fun value same =>
      .set alike steady (((constructable.build_inert _ _).ok same).steady left)
  | .constrict stream newStream length, frame, left, right, tame, alike, steady => by
    refine Tandem.ofExcept_bind alike fun view found => ?_
    refine (countIn_tandem alike _ length).bind fun count left' right' alike' later _ => ?_
    have steady' := steady.later later
    refine (openTake_tandem alike' (steady'.target found) count).bind_steady steady'
      fun opened left'' right'' alike'' steady'' holds => ?_
    exact .set alike'' steady'' fun view same => Value.stream.inj same ▸ holds
  | .wrapStream .., frame, left, right, tame, alike, steady =>
    (tame _ (Instruction.mem_parts _)).elim
  | .conditionalWrapStream .., frame, left, right, tame, alike, steady =>
    (tame _ (Instruction.mem_parts _)).elim
  | .decodeForeign target data foreign arguments, frame, left, right, tame, alike, steady => by
    refine Tandem.ofExcept_bind alike fun view found => ?_
    refine Tandem.ofExcept_bind alike fun values _ => ?_
    have builtIn : Prelude.hasType foreign = true := tame _ (Instruction.mem_parts _)
    exact (Tandem.onStreams alike (foreign.decode_lockstep builtIn (steady.target found)
      alike.streams values environment.mode)).bind_steady steady
        fun _ left' _ alike' steady' inert => .set alike' steady' (inert.steady left')
  | .decodeReference target data name arguments, frame, left, right, tame, alike, steady => by
    refine Tandem.ofExcept_bind alike fun view found => ?_
    refine Tandem.ofExcept_bind alike fun entry required => ?_
    refine Tandem.ofExcept_bind alike fun values many => ?_
    refine Tandem.ofExcept_bind alike fun message inPlace => ?_
    obtain rfl := TypeEntry.inPlace_eq_ok inPlace
    have refers : refer.Steady root message := tame _ (Instruction.mem_parts _) message required
    exact (refers view values left right alike (steady.target found)
      (steady.getMany many)).bind_steady steady
        fun _ _ _ alike' steady' holds => .set alike' steady' holds
  | .decodeEnumeration enumeration backing data target, frame, left, right, tame, alike,
      steady => by
    refine Tandem.ofExcept_bind alike fun view found => ?_
    refine Tandem.ofExcept_bind alike fun entry _ => ?_
    exact (readMember_tandem alike (steady.target found) entry backing).bind_steady steady
      fun _ left' _ alike' steady' inert => .set alike' steady' (inert.steady left')
  | .decodePrimitive target data primitive, frame, left, right, tame, alike, steady => by
    refine Tandem.ofExcept_bind alike fun view found => ?_
    exact (readScalar_tandem alike (steady.target found) primitive).bind_steady steady
      fun _ left' _ alike' steady' inert => .set alike' steady' (inert.steady left')
  | .decodeArray target data primitive none, frame, left, right, tame, alike, steady => by
    refine Tandem.ofExcept_bind alike fun view found => ?_
    exact (readArray_tandem alike (steady.target found) primitive none _).bind_steady steady
      fun _ left' _ alike' steady' inert => .set alike' steady' (inert.steady left')
  | .decodeArray target data primitive (some length), frame, left, right, tame, alike,
      steady => by
    refine Tandem.ofExcept_bind alike fun view found => ?_
    refine (countIn_tandem alike _ length).bind fun count _ _ alike' later _ => ?_
    have steady' := steady.later later
    exact (readArray_tandem alike' (steady'.target found) primitive (some count) _).bind_steady
      steady' fun _ left'' _ alike'' steady'' inert => .set alike'' steady'' (inert.steady left'')
  | .loop _ (some _) (some _) _ _, frame, left, right, tame, alike, steady => .throw alike
  | .loop target (some stop) none output body, frame, left, right, tame, alike, steady => by
    have tameBody : ∀ part ∈ blockParts body, part.Tame root environment.types refer :=
      fun part member => tame part (List.mem_cons_of_mem _ member)
    refine (countIn_tandem alike _ stop).bind_steady steady fun count _ _ alike' steady' _ => ?_
    refine (newList_tandem alike').bind_steady steady' fun list left' _ alike'' steady'' inert => ?_
    refine (Tandem.set alike'' steady'' (inert.steady left')).bind
      fun outer _ _ alike₃ _ steadyOuter => ?_
    refine (repeatBody_tandem alike₃ steadyOuter (fun inner inner' alike₄ steady₄ => ?_)
      count).bind_steady steadyOuter fun _ _ _ alike₄ steady₄ _ => .pure alike₄ steady₄
    exact (runBlock_lockstep body 0 (outer.child none []) inner inner' tameBody alike₄
      steady₄.inner).discard
  | .loop target none (some terminator) output body, frame, left, right, tame, alike,
      steady => by
    have tameBody : ∀ part ∈ blockParts body, part.Tame root environment.types refer :=
      fun part member => tame part (List.mem_cons_of_mem _ member)
    refine Tandem.ofExcept_bind alike fun view found => ?_
    refine Tandem.ofExcept_bind alike fun value _ => ?_
    refine Tandem.look_bind alike.lists ?_
    refine Tandem.look_bind ((steady.target found).weight alike.streams) ?_
    refine Tandem.ofExcept_bind alike fun ending _ => ?_
    split
    · exact .throw alike
    · rename_i filled
      rw [List.isEmpty_iff] at filled
      refine (newList_tandem alike).bind fun list left' _ alike' later inert => ?_
      have steadyView := (steady.target found).later later
      refine (Tandem.set alike' (steady.later later) (inert.steady left')).bind
        fun outer left'' right'' alike'' later' steadyOuter => ?_
      refine (untilTerminator_tandem alike'' steadyOuter (steadyView.later later')
        (fun inner inner' alike₃ steady₃ => ?_) filled _).bind_steady steadyOuter
          fun _ _ _ alike₃ steady₃ _ => .pure alike₃ steady₃
      exact (runBlock_lockstep body 0 (outer.child none []) inner inner' tameBody alike₃
        steady₃.inner).discard
  | .loop target none none output body, frame, left, right, tame, alike, steady => by
    have tameBody : ∀ part ∈ blockParts body, part.Tame root environment.types refer :=
      fun part member => tame part (List.mem_cons_of_mem _ member)
    refine Tandem.ofExcept_bind alike fun view found => ?_
    refine (Tandem.onStreams alike
      (View.readToEnd_steady (steady.target found) alike.streams)).bind_steady steady
        fun content _ _ alike₁ steady₁ _ => ?_
    refine (openCursor_tandem alike₁ content).bind_steady steady₁
      fun cursor _ _ alike₂ steady₂ apart => ?_
    refine (newList_tandem alike₂).bind_steady steady₂ fun list left₃ _ alike₃ steady₃ inert => ?_
    refine (Tandem.set alike₃ steady₃ (inert.steady left₃)).bind
      fun outer _ _ alike₄ _ steadyOuter => ?_
    refine (throughCursor_tandem alike₄ steadyOuter (fun inner inner' alike₅ steady₅ => ?_) apart
      _).bind_steady steadyOuter fun _ _ _ alike₅ steady₅ _ => .pure alike₅ steady₅
    exact (runBlock_lockstep body 0 (cursorFrame outer target cursor) inner inner' tameBody alike₅
      (steady₅.cursorFrame target (.inl apart))).discard
  | .loopOutput output item, frame, left, right, tame, alike, steady => by
    refine (addOutput_tandem alike output item).bind_steady steady
      fun _ _ _ alike' steady' _ => .pure alike' steady'
  | .conditional target interior condition body, frame, left, right, tame, alike, steady => by
    have tameBody : ∀ part ∈ blockParts body, part.Tame root environment.types refer :=
      fun part member => tame part (List.mem_cons_of_mem _ member)
    refine (conditionHolds_tandem alike condition).bind_steady steady
      fun holds left' right' alike' steady' _ => ?_
    split
    · refine (runBlock_lockstep body 0 (frame.child none []) left' right' tameBody alike'
        steady'.inner).bind fun inner _ _ alike'' later steadyInner => ?_
      refine Tandem.ofExcept_bind alike'' fun value found => ?_
      exact .set alike'' (steady'.later later) fun view isStream =>
        steadyInner.get (isStream ▸ found)
    · have inert : Value.Inert .none := nofun
      exact .set alike' steady' (inert.steady left')

/-- **A block** goes in lockstep. -/
theorem runBlock_lockstep : ∀ (block : List Instruction) (index : Nat) (frame : Frame)
    (left right : Machine), (∀ part ∈ blockParts block, part.Tame root environment.types refer) →
      Machine.Alike root left right → frame.Steady root left →
        Tandem root (fun frame machine => frame.Steady root machine)
          (runBlock environment refer block index frame) left right
  | [], index, frame, left, right, tame, alike, steady => .pure alike steady
  | instruction :: rest, index, frame, left, right, tame, alike, steady => by
    have tameHere : ∀ part ∈ instruction.parts, part.Tame root environment.types refer :=
      fun part member => tame part (List.mem_append_left _ member)
    have tameLater : ∀ part ∈ blockParts rest, part.Tame root environment.types refer :=
      fun part member => tame part (List.mem_append_right _ member)
    refine (Tandem.record alike _ _ _ _ _).bind_steady steady
      fun _ left' right' alike' steady' _ => ?_
    refine (Tandem.guarded _ _ _
      (Instruction.run_lockstep instruction frame left' right' tameHere alike' steady')).bind
      fun next left'' right'' alike'' _ steady'' => ?_
    exact runBlock_lockstep rest (index + 1) next left'' right'' tameLater alike'' steady''

end

/-! ### Whole programs -/

/-- **A program** goes in lockstep over a stream that does not run the root through a codec. -/
theorem Environment.decode_lockstep (environment : Environment)
    (tame : ∀ part ∈ blockParts environment.program.instructions,
      part.Tame root environment.types refer) {opening : Except Fault View} {values : List Value}
    (alike : Machine.Alike root left right)
    (opened : ∀ view, opening = .ok view → view.Steady root left.streams)
    (holds : ∀ value ∈ values, value.Steady root left) :
    Tandem root (fun value machine => value.Steady root machine)
      (environment.decode refer opening values) left right := by
  refine Tandem.ofExcept_bind alike fun frame bound => ?_
  refine Tandem.ofExcept_bind alike fun view found => ?_
  have steady : (frame.bindReader view).Steady root left :=
    (Frame.Views.bindArguments holds bound).bindReader (opened view found)
  refine (runBlock_lockstep _ 0 _ left right tame alike steady).bind
    fun frame left' _ alike' _ steady' => ?_
  refine Tandem.ofExcept_bind alike' fun output _ => ?_
  exact Tandem.ofExcept alike' fun value same view isStream => steady'.get (isStream ▸ same)

end Blocks

/-- A program that wraps no stream and reads only the built-in types. -/
def Linked.Bare (linked : Linked) : Prop :=
  ∀ part ∈ blockParts linked.program.instructions,
    match part with
    | .wrapStream .. | .conditionalWrapStream .. => False
    | .decodeForeign _ _ foreign _ => Prelude.hasType foreign = true
    | _ => True

theorem Linked.Bare.tame {root : Nat} {linked : Linked} {refer : Referral} (bare : linked.Bare)
    (refers : ∀ message, linked.Names message → refer.Steady root message) :
    ∀ part ∈ blockParts linked.program.instructions, part.Tame root linked.types refer := by
  intro part member
  have holds := bare part member
  cases part with
  | decodeReference target data name arguments =>
    exact fun message required => refers message ⟨target, data, name, arguments, member, required⟩
  | wrapStream => exact holds.elim
  | conditionalWrapStream => exact holds.elim
  | decodeForeign => exact holds
  | _ => trivial

/-- **A message** that is referred to goes in lockstep. -/
theorem decodeMessage_lockstep (root : Nat) (mode : String) (config : Config) (depth : Nat)
    (types : Types) (message : MessageType)
    (bare : (Linked.ofMessage message types).Throughout Linked.Bare) :
    (decodeMessage types mode config depth).Steady root message := by
  induction depth generalizing types message with
  | zero => exact fun _ _ _ _ alike _ _ => .throw alike
  | succ depth hypothesis =>
    intro view values left right alike steady holds
    refine Environment.decode_lockstep ⟨message.program, message.visible types, mode, config⟩ ?_
      alike (fun _ same => Except.ok.inj same ▸ steady) holds
    exact bare.here.tame fun other names => hypothesis _ other (bare.message names)

/-! ### The size of chunks in the settings -/

/-- An environment whose settings ask for chunks of another size. -/
def Environment.chunked (environment : Environment) (size : Int) : Environment :=
  { environment with config := { environment.config with chunkSize := size } }

mutual

theorem Instruction.run_chunked (environment : Environment) (refer : Referral) (size : Int) :
    ∀ (instruction : Instruction) (frame : Frame),
      instruction.run (environment.chunked size) refer frame =
        instruction.run environment refer frame
  | .eval .., _ | .construct .., _ | .constrict .., _ | .wrapStream .., _ | .decodeForeign .., _
  | .decodeReference .., _ | .decodeEnumeration .., _ | .decodePrimitive .., _
  | .decodeArray _ _ _ none, _ | .decodeArray _ _ _ (some _), _ | .loopOutput .., _
  | .loop _ (some _) (some _) _ _, _ => rfl
  | .conditionalWrapStream _ prelude _ _ _ _, frame => by
    simp only [Instruction.run, runBlock_chunked environment refer size prelude]
  | .loop _ (some _) none _ body, frame => by
    simp only [Instruction.run, runBlock_chunked environment refer size body]
  | .loop _ none (some _) _ body, frame => by
    simp only [Instruction.run, runBlock_chunked environment refer size body]
  | .loop _ none none _ body, frame => by
    simp only [Instruction.run, runBlock_chunked environment refer size body]
  | .conditional _ _ _ body, frame => by
    simp only [Instruction.run, runBlock_chunked environment refer size body]

theorem runBlock_chunked (environment : Environment) (refer : Referral) (size : Int) :
    ∀ (block : List Instruction) (index : Nat) (frame : Frame),
      runBlock (environment.chunked size) refer block index frame =
        runBlock environment refer block index frame
  | [], _, _ => rfl
  | instruction :: rest, index, frame => by
    simp only [runBlock, Instruction.run_chunked environment refer size instruction,
      runBlock_chunked environment refer size rest]
    rfl

end

theorem decodeMessage_chunked (mode : String) (config : Config) (size : Int) (depth : Nat)
    (types : Types) :
    decodeMessage types mode { config with chunkSize := size } depth =
      decodeMessage types mode config depth := by
  induction depth generalizing types with
  | zero => rfl
  | succ depth hypothesis =>
    funext message view values
    unfold decodeMessage
    simp only [hypothesis, Environment.decode]
    have same := runBlock_chunked ⟨message.program, message.visible types, mode, config⟩
      (decodeMessage (message.visible types) mode config depth) size
    unfold Environment.chunked MessageType.visible at same
    simp only [same]

/-- The size of chunks in the settings is for whoever opens the source; a run does not see it. -/
theorem decodeWith_chunked (environment : Environment) (size : Int) (source : RunSource)
    (values : List Value) :
    decodeWith (environment.chunked size) source values = decodeWith environment source values := by
  unfold decodeWith Environment.decode
  simp only [runBlock_chunked]
  unfold Environment.chunked
  simp only [decodeMessage_chunked]

/-! ### Runs -/

/-- **Chunking is invisible.** A program that wraps no stream and reads only the built-in types is
run twice over a new source that hands out the same bytes in other chunks. The results are the same:
the same value, or the same fault with its message and its path. So are the place at which the
source stands in the end, the events, the lists and the warnings. -/
theorem decode_chunking (environment : Environment)
    (bare : (Linked.mk environment.program environment.types).Throughout Linked.Bare)
    (execution : Execution) (machine : Machine) (driven : machine.streams.driver = execution)
    (values : List Value)
    (opened : ∀ value ∈ values, ∀ view, value = .stream view → view.Opened machine.streams)
    (bytes : Bytes) (input input' : Input) (delivers : input.Delivers bytes)
    (delivers' : input'.Delivers bytes) (size size' : Int) :
    let source := View.source execution machine.streams.sources.size
    let one := decodeInput (environment.chunked size) execution input values machine
    let other := decodeInput (environment.chunked size') execution input' values machine
    other.1 = one.1 ∧ source.position other.2.streams = source.position one.2.streams ∧
      other.2.trace = one.2.trace ∧ other.2.lists = one.2.lists ∧
      other.2.warnings = one.2.warnings := by
  unfold decodeInput
  simp only [decodeWith_chunked]
  have alike : Machine.Alike machine.streams.sources.size
      { machine with streams := (machine.streams.openSource execution input).2 }
      { machine with streams := (machine.streams.openSource execution input').2 } :=
    ⟨View.openSource_alike machine.streams execution delivers delivers', rfl, rfl, rfl⟩
  have tame := bare.here.tame fun message names =>
    decodeMessage_lockstep machine.streams.sources.size environment.mode environment.config
      (environment.types.length + nestingLimit) environment.types message (bare.message names)
  have steady : ∀ view, RunSource.open? ⟨(machine.streams.openSource execution input).1, true⟩
      environment.mode = .ok view → view.Steady machine.streams.sources.size
        (machine.streams.openSource execution input).2 := by
    intro view same
    unfold RunSource.open? at same
    split at same
    · cases same
    · cases same
      exact Or.inr ⟨driven.symm, rfl⟩
  have lockstep := Environment.decode_lockstep environment tame alike steady
    fun value member view isStream => Or.inl (opened value member view isStream).apart
  exact ⟨lockstep.result, View.position_alike lockstep.alike.streams _, lockstep.alike.trace,
    lockstep.alike.lists, lockstep.alike.warnings⟩

/-- A program that reads a length and then as many bytes. -/
def prefixedBytes : Environment where
  program :=
    { instructions := [.decodePrimitive .direct (.index 0) "u8",
        .constrict .direct (.index 1) (.index 0),
        .decodeArray (.stream (.index 1)) (.index 2) "u8" none]
      registerCount := .int 3 }
  types := []
  mode := "blocking"
  config := { trace := true }

theorem prefixedBytes_bare :
    (Linked.mk prefixedBytes.program prefixedBytes.types).Throughout Linked.Bare := by
  refine .of_unlinked (fun part member => ?_) (Linked.not_names rfl)
  have cases : part ∈ prefixedBytes.program.instructions := member
  simp only [prefixedBytes, List.mem_cons, List.not_mem_nil, or_false] at cases
  rcases cases with rfl | rfl | rfl <;> trivial

/-- The same bytes, one at a time and all at once. -/
theorem decode_chunking_of_prefixedBytes :
    (decodeInput (prefixedBytes.chunked 4) .blocking (Input.ofBytes 4 [2, 7, 8, 9]) [] {}).1 =
        (decodeInput (prefixedBytes.chunked 1) .blocking (Input.ofBytes 1 [2, 7, 8, 9]) [] {}).1 ∧
      (View.source .blocking 0).position
        (decodeInput (prefixedBytes.chunked 1) .blocking (Input.ofBytes 1 [2, 7, 8, 9]) []
          {}).2.streams = 3 := by
  have same := decode_chunking prefixedBytes prefixedBytes_bare .blocking {} rfl [] nofun
    [2, 7, 8, 9] (Input.ofBytes 1 [2, 7, 8, 9]) (Input.ofBytes 4 [2, 7, 8, 9])
    (Input.ofBytes_delivers 1 _ (by decide)) (Input.ofBytes_delivers 4 _ (by decide)) 1 4
  exact ⟨same.1, by decide +kernel⟩

end WireProgram
