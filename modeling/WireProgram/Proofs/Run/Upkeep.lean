/-
**What no run takes back.**

Whatever a block does, with any transforms, types and messages: a stream that its frame holds stands where
it was opened, a stream at its end stays there, and lists are only appended to. So what a loop has read
ahead is read by no one again, and what its rounds put out stays. The main definitions and statements:

* `Lists.Rule.appending`, lists that are only appended to, and `Contract.upkeep`, the contract of a run;
* `Upkeep.Stands`, `Upkeep.Holds` and `Upkeep.Frames`, the streams, values and frames of such a run;
* `Instruction.run_upkeep` and `runBlock_upkeep`, one instruction and a block;
* `Environment.decode_upkeep` and `decodeMessage_upkeep`, a program and a message that is referred to.
-/

import WireProgram.Proofs.Reach
import WireProgram.Proofs.Run.Calm
import WireProgram.Proofs.Stream.Opened

namespace WireProgram

/-! ### Lists that are only appended to -/

/-- Lists that grew, each at its end. -/
structure Lists.Appended (before after : Lists) : Prop where
  grown : before.size ≤ after.size
  front : ∀ cell < before.size, before.get cell <+: after.get cell

namespace Lists.Appended

variable {before middle after : Lists}

theorem refl (lists : Lists) : Lists.Appended lists lists :=
  ⟨Nat.le_refl _, fun _ _ => List.prefix_rfl⟩

theorem trans (first : Lists.Appended before middle) (second : Lists.Appended middle after) :
    Lists.Appended before after :=
  ⟨Nat.le_trans first.grown second.grown, fun cell inside =>
    (first.front cell inside).trans (second.front cell (Nat.lt_of_lt_of_le inside first.grown))⟩

/-- Lists of which none changed. -/
theorem of_kept (kept : Lists.Kept [] before after) : Lists.Appended before after := by
  refine ⟨kept.grown, fun cell inside => ?_⟩
  rw [kept.same cell inside List.not_mem_nil]

theorem modify (lists : Lists) (cell : Nat) (item : Value) :
    Lists.Appended lists (lists.modify cell fun items => items ++ [item]) := by
  refine ⟨Table.size_le_set _ _ _, fun other _ => ?_⟩
  show lists.get other <+: (lists.set cell _).get other
  rw [Table.get_set]
  split
  · rename_i same
    rw [same]
    exact List.prefix_append _ _
  · exact List.prefix_rfl

end Lists.Appended

/-- Lists are only appended to. -/
def Lists.Rule.appending : Lists.Rule where
  allows := Lists.Appended
  refl := .refl
  trans := .trans
  push lists items := .of_kept (.push [] lists items)

/-- The contract of a run: streams last, and lists are only appended to. -/
abbrev Contract.upkeep : Contract Failure Machine (Layout false) :=
  .over .lasting .appending

namespace Upkeep

variable {α β : Type} {state after : Machine × Layout false} {frame : Frame} {view : View}
  {value : Value} {good : α → Machine × Layout false → Prop} {better : β → Machine × Layout false → Prop}

/-- A view that stands, on a machine. -/
abbrev Stands (state : Machine × Layout false) (view : View) : Prop :=
  state.2.Stands state.1.streams view

/-- A value that is no stream or one that stands. -/
def Holds (state : Machine × Layout false) (value : Value) : Prop :=
  ∀ view, value = .stream view → Stands state view

/-- A frame whose streams stand. -/
abbrev Frames (state : Machine × Layout false) (frame : Frame) : Prop :=
  frame.Views (Stands state)

theorem Stands.later (stands : Stands state view) (later : Contract.upkeep.later state after) :
    Stands after view :=
  Contract.lasting.stands later.1 stands

theorem Frames.later (frames : Frames state frame) (later : Contract.upkeep.later state after) :
    Frames after frame :=
  frames.mono fun _ stands => Stands.later stands later

theorem Holds.of_inert (inert : value.Inert) : Holds state value :=
  fun view same => absurd same (inert view)

theorem Holds.stream (stands : Stands state view) : Holds state (.stream view) :=
  fun _ same => Value.stream.inj same ▸ stands

/-! ### Computations -/

/-- A computation that does not touch the machine, before the rest. -/
theorem bind_result {result : Except Fault α} {next : α → Step β}
    (rest : ∀ value, result = .ok value → Keeps .upkeep better (next value) state) :
    Keeps .upkeep better (Step.ofExcept result >>= next) state :=
  Keeps.ofExcept_bind (.of_ok fun _ _ => trivial) fun value same (_ : True) => rest value same

/-- A computation that does not touch the machine. -/
theorem ofResult {result : Except Fault α} (holds : ∀ value, result = .ok value → good value state) :
    Keeps .upkeep good (Step.ofExcept result) state :=
  .ofExcept (.of_ok holds)

/-- Writing a register. -/
theorem set (frames : Frames state frame) {register : Register} (holds : Holds state value) :
    Keeps .upkeep (fun next after => Frames after next) (Step.ofExcept (frame.set register value))
      state :=
  ofResult fun _ same => frames.set same holds

/-- Sequencing, with a frame whose streams go on standing. -/
theorem bind_frames {step : Step α} {next : α → Step β} (first : Keeps .upkeep good step state)
    (frames : Frames state frame)
    (rest : ∀ value after, Frames after frame → good value after →
      Keeps .upkeep better (next value) after) :
    Keeps .upkeep better (step >>= next) state :=
  first.bind fun value after later holds => rest value after (frames.later later) holds

/-! ### Reading -/

theorem readScalar (stands : Stands state view) (name : Json) :
    Keeps .upkeep (fun value _ => value.Inert) (readScalar view name) state := by
  refine bind_result fun primitive _ => ?_
  refine (Keeps.onStreams (View.readExact_stands stands _)).bind fun bytes _ _ _ => ?_
  exact ofResult fun _ same => (scalarOfBytes_inert primitive bytes).ok same

theorem arrayOfBytes (primitive : Primitive) (bytes : Bytes) :
    Keeps .upkeep (fun value _ => value.Inert) (Step.ofExcept (arrayOfBytes primitive bytes)) state :=
  ofResult fun _ same => (arrayOfBytes_inert primitive bytes).ok same

theorem readArray (stands : Stands state view) (name : Json) (count : Option Nat)
    (allowPartialTail : Bool) :
    Keeps .upkeep (fun value _ => value.Inert) (readArray view name count allowPartialTail) state := by
  refine bind_result fun primitive _ => ?_
  cases count with
  | some count =>
    exact (Keeps.onStreams (View.readExact_stands stands _)).bind fun bytes _ _ _ =>
      arrayOfBytes primitive bytes
  | none =>
    refine (Keeps.onStreams (View.readToEnd_stands stands)).bind fun bytes _ _ _ => ?_
    dsimp only
    split
    · exact (Keeps.warn _).bind fun _ _ _ _ => arrayOfBytes primitive _
    · exact arrayOfBytes primitive bytes

theorem readMember (stands : Stands state view) (entry : TypeEntry) (backing : Json) :
    Keeps .upkeep (fun value _ => value.Inert) (readMember view entry backing) state := by
  refine bind_result fun primitive _ => ?_
  split
  · exact (Keeps.onStreams (View.readExact_stands stands _)).bind fun bytes _ _ _ =>
      ofResult fun _ same => (entry.ofDiscriminant_inert _).ok same
  · split
    · exact .throw trivial
    · exact .throw trivial

/-! ### Parts of instructions -/

theorem countIn (what : String) (register : Register) :
    Keeps .upkeep (fun _ _ => True) (countIn frame what register) state :=
  bind_result fun _ _ => ofResult fun _ _ => trivial

theorem conditionHolds (condition : Register) :
    Keeps .upkeep (fun _ _ => True) (conditionHolds frame condition) state :=
  bind_result fun _ _ => Keeps.look_bind (ofResult fun _ _ => trivial)

theorem newList : Keeps .upkeep (fun value _ => value.Inert) newList state :=
  Keeps.newList.mono fun value _ _ ⟨cell, same, _⟩ => by
    rw [same]
    exact nofun

theorem addOutput (output item : Register) :
    Keeps .upkeep (fun _ _ => True) (addOutput frame output item) state := by
  refine bind_result fun list _ => ?_
  split
  · exact bind_result fun value _ => Keeps.onLists ⟨.modify _ _ _, trivial⟩
  · exact .throw trivial

theorem evaluate (frames : Frames state frame) (program : Program) (expression : Expression) :
    Keeps .upkeep (fun value after => Holds after value)
      (Step.onLists (expression.evaluate (program.fieldValue frame))) state := by
  have ends : Ends (expression.evaluate (program.fieldValue frame) state.1.lists)
      (fun result => Lists.Kept [] state.1.lists result.2) fun _ => True :=
    expression.evaluate_ends (fun _ _ => trivial) _ _ fun _ _ => .of_ok fun _ _ => trivial
  refine Keeps.onLists (.of_ok fun result same => ⟨.of_kept (ends.ok same), ?_⟩)
  rcases (expression.evaluate_inert _ _).ok same with inert | ⟨name, found⟩
  · exact .of_inert inert
  · obtain ⟨register, -, read⟩ := Program.fieldValue_eq_ok found
    exact fun view isStream => frames.get (isStream ▸ read)

/-! ### Loops -/

theorem untilTerminator {terminator : Bytes} {body : Step Unit} (stands : Stands state view)
    (each : ∀ inner, Contract.upkeep.later state inner → Keeps .upkeep (fun _ _ => True) body inner)
    (fuel : Nat) :
    Keeps .upkeep (fun _ _ => True) (untilTerminator view terminator body fuel) state :=
  Keeps.untilTerminator (fun _ inner => Contract.upkeep.later state inner) trivial
    (fun _ _ => trivial) (fun first later => Contract.trans _ first later)
    (fun first later _ => Contract.trans _ first later)
    (fun later => View.approach_stands (stands.later later) terminator)
    (fun later => each _ later) (Contract.refl _ state)

theorem throughCursor {body : Step Unit}
    (each : ∀ inner, Contract.upkeep.later state inner → Keeps .upkeep (fun _ _ => True) body inner)
    (fuel : Nat) : Keeps .upkeep (fun _ _ => True) (throughCursor view body fuel) state := by
  induction fuel generalizing state with
  | zero => exact .throw trivial
  | succ fuel hypothesis =>
    refine Keeps.look_bind ?_
    split
    · exact .pure trivial
    · refine (Keeps.withProgress trivial (each state (Contract.refl _ state))).bind
        fun _ after later _ => ?_
      exact hypothesis fun inner more => each inner (Contract.trans _ later more)

end Upkeep

/-! ### Instructions and blocks -/

/-- How a message that is referred to must run. -/
def Referral.Upkeeps (refer : Referral) : Prop :=
  ∀ message view values state, Upkeep.Stands state view → (∀ value ∈ values, Upkeep.Holds state value) →
    Keeps .upkeep (fun value after => Upkeep.Holds after value) (refer message view values) state

section Blocks

variable {refer : Referral} {environment : Environment}

mutual

/-- **One instruction** takes nothing back. -/
theorem Instruction.run_upkeep (refers : refer.Upkeeps) : ∀ (instruction : Instruction) (frame : Frame)
    (state : Machine × Layout false), Upkeep.Frames state frame →
      Keeps .upkeep (fun next after => Upkeep.Frames after next)
        (instruction.run environment refer frame) state
  | .eval target expression, frame, state, frames =>
    (Upkeep.evaluate frames environment.program expression).bind fun _ _ later holds =>
      Upkeep.set (frames.later later) holds
  | .construct target constructable, frame, state, frames =>
    Upkeep.bind_result fun _ same =>
      Upkeep.set frames (.of_inert ((constructable.build_inert _ _).ok same))
  | .constrict stream newStream length, frame, state, frames => by
    refine Upkeep.bind_result fun view found => ?_
    refine Upkeep.bind_frames (Upkeep.countIn _ length) frames fun count counted frames₁ _ => ?_
    refine Upkeep.bind_frames (Keeps.onStreams (openTake_stands (frames₁.target found) count)) frames₁
      fun bounded opened frames₂ stands => ?_
    exact Upkeep.set frames₂ (.stream stands)
  | .wrapStream stream newStream transform arguments, frame, state, frames => by
    refine Upkeep.bind_result fun view found => ?_
    refine Upkeep.bind_result fun values _ => ?_
    refine Upkeep.bind_frames (Keeps.onStreams (transform.wrap_stands (frames.target found) values))
      frames fun wrapped opened frames₁ stands => ?_
    exact Upkeep.set frames₁ (.stream stands)
  | .conditionalWrapStream condition prelude stream newStream transform arguments, frame, state,
      frames => by
    refine Upkeep.bind_result fun view found => ?_
    refine Upkeep.bind_frames (Upkeep.conditionHolds condition) frames fun holds asked frames₁ _ => ?_
    split
    · refine Upkeep.bind_frames (runBlock_upkeep refers prelude 0 (frame.child none []) asked
        frames₁.inner) frames₁ fun inner ran frames₂ _ => ?_
      refine Upkeep.bind_result fun values _ => ?_
      refine Upkeep.bind_frames (Keeps.onStreams (transform.wrap_stands (frames₂.target found) values))
        frames₂ fun wrapped opened frames₃ stands => ?_
      exact Upkeep.set frames₃ (.stream stands)
    · exact Upkeep.set frames₁ (.stream (frames₁.target found))
  | .decodeForeign target data foreign arguments, frame, state, frames => by
    refine Upkeep.bind_result fun view found => ?_
    refine Upkeep.bind_result fun values _ => ?_
    exact Upkeep.bind_frames (Keeps.onStreams (foreign.decode_stands (frames.target found) values _))
      frames fun _ _ frames₁ inert => Upkeep.set frames₁ (.of_inert inert)
  | .decodeReference target data name arguments, frame, state, frames => by
    refine Upkeep.bind_result fun view found => ?_
    refine Upkeep.bind_result fun entry _ => ?_
    refine Upkeep.bind_result fun values many => ?_
    refine Upkeep.bind_result fun message _ => ?_
    exact Upkeep.bind_frames (refers message view values state (frames.target found)
      (frames.getMany many)) frames fun _ _ frames₁ holds => Upkeep.set frames₁ holds
  | .decodeEnumeration enumeration backing data target, frame, state, frames => by
    refine Upkeep.bind_result fun view found => ?_
    refine Upkeep.bind_result fun entry _ => ?_
    exact Upkeep.bind_frames (Upkeep.readMember (frames.target found) entry backing) frames
      fun _ _ frames₁ inert => Upkeep.set frames₁ (.of_inert inert)
  | .decodePrimitive target data primitive, frame, state, frames => by
    refine Upkeep.bind_result fun view found => ?_
    exact Upkeep.bind_frames (Upkeep.readScalar (frames.target found) primitive) frames
      fun _ _ frames₁ inert => Upkeep.set frames₁ (.of_inert inert)
  | .decodeArray target data primitive none, frame, state, frames => by
    refine Upkeep.bind_result fun view found => ?_
    exact Upkeep.bind_frames (Upkeep.readArray (frames.target found) primitive none _) frames
      fun _ _ frames₁ inert => Upkeep.set frames₁ (.of_inert inert)
  | .decodeArray target data primitive (some length), frame, state, frames => by
    refine Upkeep.bind_result fun view found => ?_
    refine Upkeep.bind_frames (Upkeep.countIn _ length) frames fun count counted frames₁ _ => ?_
    exact Upkeep.bind_frames (Upkeep.readArray (frames₁.target found) primitive (some count) _) frames₁
      fun _ _ frames₂ inert => Upkeep.set frames₂ (.of_inert inert)
  | .loop _ (some _) (some _) _ _, frame, state, frames => .throw trivial
  | .loop target (some stop) none output body, frame, state, frames => by
    refine Upkeep.bind_frames (Upkeep.countIn _ stop) frames fun count counted frames₁ _ => ?_
    refine Upkeep.bind_frames Upkeep.newList frames₁ fun list listed frames₂ inert => ?_
    refine (Upkeep.set frames₂ (.of_inert inert)).bind fun outer written _ framesOuter => ?_
    refine Upkeep.bind_frames (Keeps.repeatBody (fun inner later => ?_) count) framesOuter
      fun _ _ frames₃ _ => .pure frames₃
    exact (runBlock_upkeep refers body 0 (outer.child none []) inner
      (framesOuter.later later).inner).discard
  | .loop target none (some terminator) output body, frame, state, frames => by
    refine Upkeep.bind_result fun view found => ?_
    refine Upkeep.bind_result fun value _ => ?_
    refine Keeps.look_bind (Keeps.look_bind ?_)
    refine Upkeep.bind_result fun ending _ => ?_
    split
    · exact .throw trivial
    · refine Upkeep.bind_frames Upkeep.newList frames fun list listed frames₁ inert => ?_
      refine Upkeep.bind_frames (Upkeep.set frames₁ (.of_inert inert)) frames₁
        fun outer written frames₂ framesOuter => ?_
      refine Upkeep.bind_frames (Upkeep.untilTerminator (frames₂.target found) (fun inner later => ?_) _)
        framesOuter fun _ _ frames₃ _ => .pure frames₃
      exact (runBlock_upkeep refers body 0 (outer.child none []) inner
        (framesOuter.later later).inner).discard
  | .loop target none none output body, frame, state, frames => by
    refine Upkeep.bind_result fun view found => ?_
    refine Upkeep.bind_frames (Keeps.onStreams (View.readToEnd_stands (frames.target found))) frames
      fun content drained frames₁ _ => ?_
    refine (Keeps.onStreams (openCursor_stands content)).bind fun cursor opened later stands => ?_
    refine Upkeep.newList.bind fun list listed more inert => ?_
    refine (Upkeep.set ((frames₁.later later).later more) (.of_inert inert)).bind
      fun outer written last framesOuter => ?_
    have standsOuter := (Upkeep.Stands.later stands more).later last
    refine Upkeep.bind_frames (Upkeep.throughCursor (fun inner final => ?_) _) framesOuter
      fun _ _ frames₂ _ => .pure frames₂
    exact (runBlock_upkeep refers body 0 (cursorFrame outer target cursor) inner
      ((framesOuter.later final).cursorFrame target (standsOuter.later final))).discard
  | .loopOutput output item, frame, state, frames =>
    Upkeep.bind_frames (Upkeep.addOutput output item) frames fun _ _ frames₁ _ => .pure frames₁
  | .conditional target interior condition body, frame, state, frames => by
    refine Upkeep.bind_frames (Upkeep.conditionHolds condition) frames fun holds asked frames₁ _ => ?_
    split
    · refine (runBlock_upkeep refers body 0 (frame.child none []) asked frames₁.inner).bind
        fun inner ran later framesInner => ?_
      refine Upkeep.bind_result fun value found => ?_
      exact Upkeep.set (frames₁.later later) fun view isStream => framesInner.get (isStream ▸ found)
    · have inert : Value.Inert .none := nofun
      exact Upkeep.set frames₁ (.of_inert inert)

/-- **A block** takes nothing back. -/
theorem runBlock_upkeep (refers : refer.Upkeeps) : ∀ (block : List Instruction) (index : Nat)
    (frame : Frame) (state : Machine × Layout false), Upkeep.Frames state frame →
      Keeps .upkeep (fun next after => Upkeep.Frames after next)
        (runBlock environment refer block index frame) state
  | [], index, frame, state, frames => .pure frames
  | instruction :: rest, index, frame, state, frames => by
    refine Upkeep.bind_frames (Keeps.record _ _ _ _ _) frames fun _ started frames₁ _ => ?_
    refine (Keeps.guarded _ _ _ (Instruction.run_upkeep refers instruction frame started frames₁)).bind
      fun next ran _ framesNext => ?_
    exact runBlock_upkeep refers rest (index + 1) next ran framesNext

end

/-! ### Whole programs -/

/-- **A program** takes nothing back. -/
theorem Environment.decode_upkeep (environment : Environment) (refers : refer.Upkeeps)
    {opening : Except Fault View} {values : List Value} {state : Machine × Layout false}
    (opened : ∀ view, opening = .ok view → Upkeep.Stands state view)
    (holds : ∀ value ∈ values, Upkeep.Holds state value) :
    Keeps .upkeep (fun value after => Upkeep.Holds after value)
      (environment.decode refer opening values) state := by
  refine Upkeep.bind_result fun frame bound => ?_
  refine Upkeep.bind_result fun view found => ?_
  have frames : Upkeep.Frames state (frame.bindReader view) :=
    (Frame.Views.bindArguments holds bound).bindReader (opened view found)
  refine (runBlock_upkeep refers _ 0 _ state frames).bind fun last ran _ framesLast => ?_
  refine Upkeep.bind_result fun output _ => ?_
  exact Upkeep.ofResult fun value same view isStream => framesLast.get (isStream ▸ same)

end Blocks

/-- **A message** that is referred to takes nothing back. -/
theorem decodeMessage_upkeep (types : Types) (mode : String) (config : Config) (depth : Nat) :
    (decodeMessage types mode config depth).Upkeeps := by
  induction depth generalizing types with
  | zero => exact fun _ _ _ _ _ _ => .throw trivial
  | succ depth hypothesis =>
    intro message view values state stands holds
    exact Environment.decode_upkeep ⟨message.program, message.visible types, mode, config⟩
      (hypothesis _) (fun _ same => Except.ok.inj same ▸ stands) holds

end WireProgram
