/-
**Regimes: what every run keeps to, whatever its registers hold.**

A regime says which views are in order, what the operations on them may do to the streams, and which
faults may come. If every operation of a program on a view in order keeps to it, so does the whole
run: a frame only ever holds streams in order, since a new one is opened over one of them. The main
definitions and statements:

* `Regime`, the laws of the operations;
* `Instruction.Admitted` and `Linked.Admitted`, a program whose transforms and types are covered;
* `Instruction.run_regime` and `runBlock_regime`, one instruction and a block;
* `decodeMessage_regime` and `decodeWith_regime`, a message that is referred to and a whole run.
-/

import WireProgram.Proofs.Nesting
import WireProgram.Proofs.Run.Calm
import WireProgram.Proofs.Run.Inert
import WireProgram.Resolver.Prelude

namespace WireProgram

/-- What the operations of a run keep to. Beside the streams stands a record of what the proof has to
remember of them. -/
structure Regime (γ : Type) where
  contract : Contract Fault (Streams Codec) γ
  /-- Which views are in order. -/
  fits : Streams Codec × γ → View → Prop
  /-- The transforms that are covered. -/
  wraps : Transform → Prop
  /-- Whether so many rounds are enough for a loop over a view. -/
  enough : Streams Codec × γ → View → Nat → Prop
  excuses : ∀ fault, ¬fault.Exceeds → contract.tolerates fault
  later : ∀ {before after view}, contract.later before after → fits before view → fits after view
  readExact : ∀ {state view}, fits state view → ∀ count : Nat,
    Keeps contract (fun _ _ => True) (view.readExact count) state
  readToEnd : ∀ {state view}, fits state view →
    Keeps contract (fun _ _ => True) view.readToEnd state
  openTake : ∀ {state view}, fits state view → ∀ limit : Nat,
    Keeps contract (fun bounded after => fits after bounded)
      (openedBy fun streams => streams.openTake view limit) state
  openCursor : ∀ {state} bytes,
    Keeps contract (fun cursor after => fits after cursor ∧ enough after cursor (bytes.length + 1))
      (openedBy fun streams => streams.openCursor bytes) state
  wrap : ∀ {state view transform}, wraps transform → fits state view → ∀ values,
    Keeps contract (fun wrapped after => fits after wrapped) (transform.wrap view values) state
  enough_weight : ∀ {state view}, fits state view → enough state view (view.weight state.1 + 1)
  enough_later : ∀ {before after view fuel}, contract.later before after → fits before view →
    enough before view fuel → enough after view fuel
  enough_round : ∀ {before after view fuel}, contract.later before after → fits before view →
    view.position after.1 ≠ view.position before.1 → enough before view (fuel + 1) →
      enough after view fuel
  exhausted : ∀ {state view}, fits state view → enough state view 0 →
    contract.tolerates (.misuse .boundExceeded)
  untilTerminator : ∀ {state : Machine × γ} {view terminator body fuel},
    fits (state.1.streams, state.2) view → terminator ≠ [] →
      enough (state.1.streams, state.2) view fuel →
        (∀ inner : Machine × γ, (∀ other, fits (state.1.streams, state.2) other →
          fits (inner.1.streams, inner.2) other) →
            Keeps (.over contract .freely) (fun _ _ => True) body inner) →
          Keeps (.over contract .freely) (fun _ _ => True)
            (untilTerminator view terminator body fuel) state

namespace Regime

variable {γ α β : Type} {regime : Regime γ} {state after : Machine × γ} {frame : Frame}
  {view : View} {better : β → Machine × γ → Prop}

/-- The contract of a run: the lists change in any way. -/
abbrev run (regime : Regime γ) : Contract Failure Machine γ :=
  .over regime.contract .freely

/-- A view in order, on a machine. -/
abbrev Fits (regime : Regime γ) (state : Machine × γ) (view : View) : Prop :=
  regime.fits (state.1.streams, state.2) view

/-- A value that is no stream or one in order. -/
def Holds (regime : Regime γ) (state : Machine × γ) (value : Value) : Prop :=
  ∀ view, value = .stream view → regime.Fits state view

/-- A frame whose streams are in order. -/
abbrev Frames (regime : Regime γ) (state : Machine × γ) (frame : Frame) : Prop :=
  frame.Views (regime.Fits state)

theorem Frames.later (frames : regime.Frames state frame) (later : regime.run.later state after) :
    regime.Frames after frame :=
  frames.mono fun _ fits => regime.later later.1 fits

theorem Holds.of_inert {value : Value} (inert : value.Inert) : regime.Holds state value :=
  fun view same => absurd same (inert view)

/-! ### Computations -/

theorem ends (regime : Regime γ) {result : Except Fault α} (contained : Contained result) :
    Ends result (fun _ => True) regime.contract.tolerates :=
  contained.mono (fun _ holds => holds) regime.excuses

/-- A computation that does not touch the machine, before the rest. -/
theorem bind_contained {result : Except Fault α} {next : α → Step β} (contained : Contained result)
    (rest : ∀ value, result = .ok value → Keeps regime.run better (next value) state) :
    Keeps regime.run better (Step.ofExcept result >>= next) state :=
  Keeps.ofExcept_bind (regime.ends contained) fun value same _ => rest value same

/-- A computation that does not touch the machine. -/
theorem ofExcept {good : α → Machine × γ → Prop} {result : Except Fault α}
    (contained : Contained result) (holds : ∀ value, result = .ok value → good value state) :
    Keeps regime.run good (Step.ofExcept result) state := by
  cases result with
  | ok value => exact .ofExcept (holds value rfl)
  | error fault => exact .ofExcept (regime.excuses fault contained)

/-- Writing a register. -/
theorem set (frames : regime.Frames state frame) {register : Register} {value : Value}
    (holds : regime.Holds state value) :
    Keeps regime.run (fun next after => regime.Frames after next)
      (Step.ofExcept (frame.set register value)) state :=
  ofExcept (frame.set_contained register value) fun _ same => frames.set same holds

/-- Sequencing, with a frame whose streams stay in order. -/
theorem bind_frames {step : Step α} {next : α → Step β} {good : α → Machine × γ → Prop}
    (first : Keeps regime.run good step state) (frames : regime.Frames state frame)
    (rest : ∀ value after, regime.Frames after frame → good value after →
      Keeps regime.run better (next value) after) :
    Keeps regime.run better (step >>= next) state :=
  first.bind fun value after later holds => rest value after (frames.later later) holds

/-! ### Reading -/

theorem readScalar (fits : regime.Fits state view) (name : Json) :
    Keeps regime.run (fun value _ => value.Inert) (readScalar view name) state := by
  refine bind_contained (requirePrimitive_calm name).contained fun primitive _ => ?_
  refine (Keeps.onStreams (regime.readExact fits _)).bind fun bytes _ _ _ => ?_
  exact ofExcept (scalarOfBytes_calm primitive bytes).contained fun _ same =>
    (scalarOfBytes_inert primitive bytes).ok same

theorem arrayOfBytes (primitive : Primitive) (bytes : Bytes) :
    Keeps regime.run (fun value _ => value.Inert) (Step.ofExcept (arrayOfBytes primitive bytes))
      state :=
  ofExcept (arrayOfBytes_calm primitive bytes).contained fun _ same =>
    (arrayOfBytes_inert primitive bytes).ok same

theorem readArray (fits : regime.Fits state view) (name : Json) (count : Option Nat)
    (allowPartialTail : Bool) :
    Keeps regime.run (fun value _ => value.Inert) (readArray view name count allowPartialTail)
      state := by
  refine bind_contained (requirePrimitive_calm name).contained fun primitive _ => ?_
  cases count with
  | some count =>
    exact (Keeps.onStreams (regime.readExact fits _)).bind fun bytes _ _ _ =>
      arrayOfBytes primitive bytes
  | none =>
    refine (Keeps.onStreams (regime.readToEnd fits)).bind fun bytes _ _ _ => ?_
    dsimp only
    split
    · exact (Keeps.warn _).bind fun _ _ _ _ => arrayOfBytes primitive _
    · exact arrayOfBytes primitive bytes

theorem readMember (fits : regime.Fits state view) (entry : TypeEntry) (backing : Json) :
    Keeps regime.run (fun value _ => value.Inert) (readMember view entry backing) state := by
  refine bind_contained (requirePrimitive_calm backing).contained fun primitive _ => ?_
  split
  · exact (Keeps.onStreams (regime.readExact fits _)).bind fun bytes _ _ _ =>
      ofExcept (entry.ofDiscriminant_calm _).contained fun _ same => (entry.ofDiscriminant_inert _).ok same
  · split
    · exact .throw (regime.excuses _ id)
    · exact .throw (regime.excuses _ id)

/-! ### Built-in types -/

section Foreign

variable {streams : Streams Codec × γ}

theorem readGroups (fits : regime.fits streams view) (name : String)
    (bits count index total : Nat) :
    Keeps regime.contract (fun value _ => value.Inert)
      (readGroups name bits view count index total) streams := by
  induction count generalizing streams index total with
  | zero => exact .throw (regime.excuses _ id)
  | succ count hypothesis =>
    refine (regime.readExact fits 1).bind fun bytes after later _ => ?_
    dsimp only
    split
    · exact hypothesis (regime.later later fits) _ _
    · split
      · exact .pure nofun
      · exact .throw (regime.excuses _ id)

theorem readLength (fits : regime.fits streams view) (length : Option Nat) :
    Keeps regime.contract (fun _ _ => True) (readLength view length) streams := by
  cases length with
  | none => exact regime.readToEnd fits
  | some length => exact regime.readExact fits length

/-- The length of a text, before the rest. -/
theorem textLength_bind {name : String} {arguments : List Value}
    {next : Option Nat → StreamStep Codec β} {holds : β → Streams Codec × γ → Prop}
    (rest : ∀ length, Keeps regime.contract holds (next length) streams) :
    Keeps regime.contract holds (StreamStep.ofExcept (textLength? name arguments) >>= next)
      streams := by
  have contained := (textLength_calm name arguments).contained
  cases same : textLength? name arguments with
  | ok length =>
    refine Leads.of_run ?_ (rest length)
    rw [run_bind]
    rfl
  | error fault =>
    have ran : (StreamStep.ofExcept (.error fault) >>= next).run streams.1 =
        (.error fault, streams.1) := by
      rw [run_bind]
      rfl
    exact .of_refused ran (regime.excuses fault (contained.error same))

/-- **Built-in types** keep to a regime. -/
theorem decode {foreign : ForeignType} (builtIn : Prelude.hasType foreign = true)
    (fits : regime.fits streams view) (arguments : List Value) (mode : String) :
    Keeps regime.contract (fun value _ => value.Inert) (foreign.decode view arguments mode)
      streams := by
  unfold ForeignType.decode
  rcases Prelude.hasType_cases builtIn with ⟨bits, action⟩ | action | action
  · simp only [action]
    split
    · exact readGroups fits _ _ _ _ _
    · exact .throw (regime.excuses _ id)
  · simp only [action]
    refine textLength_bind fun length => (readLength fits _).bind fun bytes _ _ _ => ?_
    split
    · exact .pure nofun
    · exact .throw (regime.excuses _ id)
  · simp only [action]
    refine textLength_bind fun length => (readLength fits _).bind fun bytes _ _ _ => ?_
    split
    · exact .pure nofun
    · exact .throw (regime.excuses _ id)

end Foreign

/-! ### Parts of instructions -/

theorem countIn (what : String) (register : Register) :
    Keeps regime.run (fun _ _ => True) (countIn frame what register) state :=
  bind_contained (frame.get_contained register) fun value _ =>
    ofExcept (countOf_calm what value).contained fun _ _ => trivial

theorem conditionHolds (condition : Register) :
    Keeps regime.run (fun _ _ => True) (conditionHolds frame condition) state :=
  bind_contained (frame.get_contained condition) fun value _ =>
    Keeps.look_bind (ofExcept (value.truth_calm _).contained fun _ _ => trivial)

theorem newList :
    Keeps regime.run (fun value _ => value.Inert) newList state :=
  Keeps.newList.mono fun value _ _ ⟨cell, same, _⟩ => by
    rw [same]
    exact nofun

theorem addOutput (output item : Register) :
    Keeps regime.run (fun _ _ => True) (addOutput frame output item) state := by
  refine bind_contained (frame.get_contained output) fun list _ => ?_
  split
  · exact bind_contained (frame.get_contained item) fun value _ => Keeps.onLists ⟨trivial, trivial⟩
  · exact .throw (regime.excuses _ id)

theorem evaluate (frames : regime.Frames state frame) (program : Program)
    (expression : Expression) :
    Keeps regime.run (fun value after => regime.Holds after value)
      (Step.onLists (expression.evaluate (program.fieldValue frame))) state := by
  have ends : Ends (expression.evaluate (program.fieldValue frame) state.1.lists)
      (fun result => Lists.Kept [] state.1.lists result.2) fun fault => ¬fault.Exceeds :=
    expression.evaluate_ends (fun _ computed => Fault.not_exceeds computed.not_structural) _ _
      fun _ => program.fieldValue_contained frame
  refine Keeps.onLists ?_
  cases same : expression.evaluate (program.fieldValue frame) state.1.lists with
  | error fault => exact regime.excuses fault (ends.error same)
  | ok result =>
    refine ⟨trivial, ?_⟩
    rcases (expression.evaluate_inert _ _).ok same with inert | ⟨name, found⟩
    · exact .of_inert inert
    · obtain ⟨register, -, read⟩ := Program.fieldValue_eq_ok found
      exact fun view isStream => frames.get (isStream ▸ read)

/-! ### Loops -/

/-- A loop through a cursor: every round goes on in it. -/
theorem throughCursor {body : Step Unit} (fits : regime.Fits state view) {fuel : Nat}
    (enough : regime.enough (state.1.streams, state.2) view fuel)
    (each : ∀ inner, regime.run.later state inner →
      Keeps regime.run (fun _ _ => True) body inner) :
    Keeps regime.run (fun _ _ => True) (throughCursor view body fuel) state := by
  induction fuel generalizing state with
  | zero => exact .throw (regime.exhausted fits enough)
  | succ fuel hypothesis =>
    refine Keeps.look_bind ?_
    split
    · exact .pure trivial
    · have stalls : regime.contract.tolerates (.decode .stalledLoop) := regime.excuses _ id
      refine (Keeps.withProgress stalls (each state (regime.run.refl state))).bind
        fun _ after later moved => ?_
      refine hypothesis (regime.later later.1 fits) ?_ fun inner more =>
        each inner (regime.run.trans later more)
      exact regime.enough_round later.1 fits moved enough

end Regime

/-! ### Instructions and blocks -/

/-- How a message that is referred to must run: it keeps to the regime. -/
def Referral.Obeys {γ : Type} (regime : Regime γ) (refer : Referral) (message : MessageType) :
    Prop :=
  ∀ view values state, regime.Fits state view → (∀ value ∈ values, regime.Holds state value) →
    Keeps regime.run (fun value after => regime.Holds after value)
      (refer message view values) state

/-- An instruction whose transforms and types are covered, and that refers to messages that are
good. -/
def Instruction.Admitted (wraps : Transform → Prop) (types : Types) (good : MessageType → Prop) :
    Instruction → Prop
  | .wrapStream _ _ transform _ | .conditionalWrapStream _ _ _ _ transform _ => wraps transform
  | .decodeForeign _ _ foreign _ => Prelude.hasType foreign = true
  | .decodeReference _ _ name _ =>
    ∀ message, types.require name = .ok (.message message) → good message
  | _ => True

section Blocks

variable {γ : Type} {regime : Regime γ} {refer : Referral} {environment : Environment}

mutual

/-- **One instruction** keeps to a regime. -/
theorem Instruction.run_regime : ∀ (instruction : Instruction) (frame : Frame)
    (state : Machine × γ), (∀ part ∈ instruction.parts,
      part.Admitted regime.wraps environment.types (refer.Obeys regime)) →
        regime.Frames state frame →
          Keeps regime.run (fun next after => regime.Frames after next)
            (instruction.run environment refer frame) state
  | .eval target expression, frame, state, admitted, frames =>
    (Regime.evaluate frames environment.program expression).bind fun _ after later holds =>
      Regime.set (frames.later later) holds
  | .construct target constructable, frame, state, admitted, frames =>
    Regime.bind_contained (constructable.build_ends
      (fun _ computed => Fault.not_exceeds computed.not_structural) _ fun register _ =>
        frame.get_contained register) fun value same =>
          Regime.set frames (.of_inert ((constructable.build_inert _ _).ok same))
  | .constrict stream newStream length, frame, state, admitted, frames => by
    refine Regime.bind_contained (frame.target_contained stream) fun view found => ?_
    refine Regime.bind_frames (Regime.countIn _ length) frames fun count counted frames₁ _ => ?_
    refine Regime.bind_frames (Keeps.onStreams (regime.openTake (frames₁.target found) count)) frames₁
      fun bounded opened frames₂ fits => ?_
    exact Regime.set frames₂ fun view same => Value.stream.inj same ▸ fits
  | .wrapStream stream newStream transform arguments, frame, state, admitted, frames => by
    refine Regime.bind_contained (frame.target_contained stream) fun view found => ?_
    refine Regime.bind_contained (frame.getMany_contained arguments) fun values _ => ?_
    have covered : regime.wraps transform := admitted _ (Instruction.mem_parts _)
    refine Regime.bind_frames (Keeps.onStreams (regime.wrap covered (frames.target found) values)) frames
      fun wrapped opened frames₁ fits => ?_
    exact Regime.set frames₁ fun view same => Value.stream.inj same ▸ fits
  | .conditionalWrapStream condition prelude stream newStream transform arguments, frame, state,
      admitted, frames => by
    have admittedPrelude : ∀ part ∈ blockParts prelude,
        part.Admitted regime.wraps environment.types (refer.Obeys regime) :=
      fun part member => admitted part (List.mem_cons_of_mem _ member)
    have covered : regime.wraps transform := admitted _ (Instruction.mem_parts _)
    refine Regime.bind_contained (frame.target_contained stream) fun view found => ?_
    refine Regime.bind_frames (Regime.conditionHolds condition) frames fun holds asked frames₁ _ => ?_
    split
    · refine Regime.bind_frames (runBlock_regime prelude 0 (frame.child none []) asked admittedPrelude
        frames₁.inner) frames₁ fun inner ran frames₂ _ => ?_
      refine Regime.bind_contained (inner.getMany_contained arguments) fun values _ => ?_
      refine Regime.bind_frames (Keeps.onStreams (regime.wrap covered (frames₂.target found) values))
        frames₂ fun wrapped opened frames₃ fits => ?_
      exact Regime.set frames₃ fun view same => Value.stream.inj same ▸ fits
    · exact Regime.set frames₁ fun other same => Value.stream.inj same ▸ frames₁.target found
  | .decodeForeign target data foreign arguments, frame, state, admitted, frames => by
    refine Regime.bind_contained (frame.target_contained target) fun view found => ?_
    refine Regime.bind_contained (frame.getMany_contained arguments) fun values _ => ?_
    have builtIn : Prelude.hasType foreign = true := admitted _ (Instruction.mem_parts _)
    exact Regime.bind_frames (Keeps.onStreams (Regime.decode builtIn (frames.target found) values _)) frames
      fun _ _ frames₁ inert => Regime.set frames₁ (.of_inert inert)
  | .decodeReference target data name arguments, frame, state, admitted, frames => by
    refine Regime.bind_contained (frame.target_contained target) fun view found => ?_
    refine Regime.bind_contained (environment.types.require_contained name) fun entry required => ?_
    refine Regime.bind_contained (frame.getMany_contained arguments) fun values many => ?_
    refine Regime.bind_contained entry.inPlace_calm.contained fun message inPlace => ?_
    obtain rfl := TypeEntry.inPlace_eq_ok inPlace
    have obeys : refer.Obeys regime message := admitted _ (Instruction.mem_parts _) message required
    exact Regime.bind_frames (obeys view values state (frames.target found) (frames.getMany many)) frames
      fun _ _ frames₁ holds => Regime.set frames₁ holds
  | .decodeEnumeration enumeration backing data target, frame, state, admitted, frames => by
    refine Regime.bind_contained (frame.target_contained target) fun view found => ?_
    refine Regime.bind_contained (environment.types.require_contained enumeration) fun entry _ => ?_
    exact Regime.bind_frames (Regime.readMember (frames.target found) entry backing) frames
      fun _ _ frames₁ inert => Regime.set frames₁ (.of_inert inert)
  | .decodePrimitive target data primitive, frame, state, admitted, frames => by
    refine Regime.bind_contained (frame.target_contained target) fun view found => ?_
    exact Regime.bind_frames (Regime.readScalar (frames.target found) primitive) frames
      fun _ _ frames₁ inert => Regime.set frames₁ (.of_inert inert)
  | .decodeArray target data primitive none, frame, state, admitted, frames => by
    refine Regime.bind_contained (frame.target_contained target) fun view found => ?_
    exact Regime.bind_frames (Regime.readArray (frames.target found) primitive none _) frames
      fun _ _ frames₁ inert => Regime.set frames₁ (.of_inert inert)
  | .decodeArray target data primitive (some length), frame, state, admitted, frames => by
    refine Regime.bind_contained (frame.target_contained target) fun view found => ?_
    refine Regime.bind_frames (Regime.countIn _ length) frames fun count counted frames₁ _ => ?_
    exact Regime.bind_frames (Regime.readArray (frames₁.target found) primitive (some count) _) frames₁
      fun _ _ frames₂ inert => Regime.set frames₂ (.of_inert inert)
  | .loop _ (some _) (some _) _ _, frame, state, admitted, frames => .throw (regime.excuses _ id)
  | .loop target (some stop) none output body, frame, state, admitted, frames => by
    have admittedBody : ∀ part ∈ blockParts body,
        part.Admitted regime.wraps environment.types (refer.Obeys regime) :=
      fun part member => admitted part (List.mem_cons_of_mem _ member)
    refine Regime.bind_frames (Regime.countIn _ stop) frames fun count counted frames₁ _ => ?_
    refine Regime.bind_frames Regime.newList frames₁ fun list listed frames₂ inert => ?_
    refine (Regime.set frames₂ (.of_inert inert)).bind fun outer written _ framesOuter => ?_
    refine Regime.bind_frames (Keeps.repeatBody (fun inner later => ?_) count) framesOuter
      fun _ _ frames₃ _ => .pure frames₃
    exact (runBlock_regime body 0 (outer.child none []) inner admittedBody
      (framesOuter.later later).inner).discard
  | .loop target none (some terminator) output body, frame, state, admitted, frames => by
    have admittedBody : ∀ part ∈ blockParts body,
        part.Admitted regime.wraps environment.types (refer.Obeys regime) :=
      fun part member => admitted part (List.mem_cons_of_mem _ member)
    refine Regime.bind_contained (frame.target_contained target) fun view found => ?_
    refine Regime.bind_contained (frame.get_contained terminator) fun value _ => ?_
    refine Keeps.look_bind (Keeps.look_bind ?_)
    refine Regime.bind_contained (value.toBytes_calm _ _).contained fun ending _ => ?_
    split
    · exact .throw (regime.excuses _ id)
    · rename_i filled
      rw [List.isEmpty_iff] at filled
      have fits := frames.target found
      refine Regime.newList.bind fun list listed later inert => ?_
      refine (Regime.set (frames.later later) (.of_inert inert)).bind
        fun outer written more framesOuter => ?_
      have both := regime.run.trans later more
      refine Regime.bind_frames (regime.untilTerminator (regime.later both.1 fits) filled
        (regime.enough_later both.1 fits (regime.enough_weight fits)) fun inner stays => ?_) framesOuter
          fun _ _ frames₁ _ => .pure frames₁
      exact (runBlock_regime body 0 (outer.child none []) inner admittedBody
        (framesOuter.mono stays).inner).discard
  | .loop target none none output body, frame, state, admitted, frames => by
    have admittedBody : ∀ part ∈ blockParts body,
        part.Admitted regime.wraps environment.types (refer.Obeys regime) :=
      fun part member => admitted part (List.mem_cons_of_mem _ member)
    refine Regime.bind_contained (frame.target_contained target) fun view found => ?_
    refine Regime.bind_frames (Keeps.onStreams (regime.readToEnd (frames.target found))) frames
      fun content drained frames₁ _ => ?_
    refine (Keeps.onStreams (regime.openCursor content)).bind fun cursor opened later holds => ?_
    obtain ⟨fits, enough⟩ := holds
    refine Regime.newList.bind fun list listed more inert => ?_
    refine (Regime.set ((frames₁.later later).later more) (.of_inert inert)).bind
      fun outer written last framesOuter => ?_
    have both := regime.run.trans more last
    have fitsOuter := regime.later both.1 fits
    refine Regime.bind_frames (Regime.throughCursor fitsOuter (regime.enough_later both.1 fits enough)
      fun inner final => ?_) framesOuter fun _ _ frames₂ _ => .pure frames₂
    exact (runBlock_regime body 0 (cursorFrame outer target cursor) inner admittedBody
      ((framesOuter.later final).cursorFrame target (regime.later final.1 fitsOuter))).discard
  | .loopOutput output item, frame, state, admitted, frames =>
    Regime.bind_frames (Regime.addOutput output item) frames fun _ _ frames₁ _ => .pure frames₁
  | .conditional target interior condition body, frame, state, admitted, frames => by
    have admittedBody : ∀ part ∈ blockParts body,
        part.Admitted regime.wraps environment.types (refer.Obeys regime) :=
      fun part member => admitted part (List.mem_cons_of_mem _ member)
    refine Regime.bind_frames (Regime.conditionHolds condition) frames fun holds asked frames₁ _ => ?_
    split
    · refine (runBlock_regime body 0 (frame.child none []) asked admittedBody
        frames₁.inner).bind fun inner ran later framesInner => ?_
      refine Regime.bind_contained (inner.get_contained interior) fun value found => ?_
      exact Regime.set (frames₁.later later) fun view isStream => framesInner.get (isStream ▸ found)
    · have inert : Value.Inert .none := nofun
      exact Regime.set frames₁ (.of_inert inert)

/-- **A block** keeps to a regime. -/
theorem runBlock_regime : ∀ (block : List Instruction) (index : Nat) (frame : Frame)
    (state : Machine × γ), (∀ part ∈ blockParts block,
      part.Admitted regime.wraps environment.types (refer.Obeys regime)) →
        regime.Frames state frame →
          Keeps regime.run (fun next after => regime.Frames after next)
            (runBlock environment refer block index frame) state
  | [], index, frame, state, admitted, frames => .pure frames
  | instruction :: rest, index, frame, state, admitted, frames => by
    have admittedHere : ∀ part ∈ instruction.parts,
        part.Admitted regime.wraps environment.types (refer.Obeys regime) :=
      fun part member => admitted part (List.mem_append_left _ member)
    have admittedLater : ∀ part ∈ blockParts rest,
        part.Admitted regime.wraps environment.types (refer.Obeys regime) :=
      fun part member => admitted part (List.mem_append_right _ member)
    refine Regime.bind_frames (Keeps.record _ _ _ _ _) frames fun _ started frames₁ _ => ?_
    refine (Keeps.guarded _ _ _
      (Instruction.run_regime instruction frame started admittedHere frames₁)).bind
        fun next ran _ framesNext => ?_
    exact runBlock_regime rest (index + 1) next ran admittedLater framesNext

end

/-! ### Whole programs -/

/-- **A program** keeps to a regime over a view in order. -/
theorem Environment.decode_regime (environment : Environment)
    (admitted : ∀ part ∈ blockParts environment.program.instructions,
      part.Admitted regime.wraps environment.types (refer.Obeys regime))
    {opening : Except Fault View} (contained : Contained opening) {values : List Value}
    {state : Machine × γ} (opened : ∀ view, opening = .ok view → regime.Fits state view)
    (holds : ∀ value ∈ values, regime.Holds state value) :
    Keeps regime.run (fun value after => regime.Holds after value)
      (environment.decode refer opening values) state := by
  refine Regime.bind_contained (bindArguments_contained _ values) fun frame bound => ?_
  refine Regime.bind_contained contained fun view found => ?_
  have frames : regime.Frames state (frame.bindReader view) :=
    (Frame.Views.bindArguments holds bound).bindReader (opened view found)
  refine (runBlock_regime _ 0 _ state admitted frames).bind fun last ran _ framesLast => ?_
  refine Regime.bind_contained environment.program.outputRegister_calm.contained fun output _ => ?_
  exact Regime.ofExcept (last.get_contained output) fun value same view isStream =>
    framesLast.get (isStream ▸ same)

end Blocks

/-- A program whose transforms and types are covered. -/
def Linked.Admitted (wraps : Transform → Prop) (linked : Linked) : Prop :=
  ∀ part ∈ blockParts linked.program.instructions, part.Admitted wraps linked.types fun _ => True

theorem Linked.Admitted.refers {linked : Linked} {wraps : Transform → Prop}
    {good : MessageType → Prop} (admitted : linked.Admitted wraps)
    (refers : ∀ message, linked.Names message → good message) :
    ∀ part ∈ blockParts linked.program.instructions, part.Admitted wraps linked.types good := by
  intro part member
  have holds := admitted part member
  cases part with
  | decodeReference target data name arguments =>
    exact fun message required => refers message ⟨target, data, name, arguments, member, required⟩
  | _ => exact holds

/-- **A message** that is referred to keeps to a regime, unless its references nest too deep. -/
theorem decodeMessage_regime {γ : Type} (regime : Regime γ) (mode : String) (config : Config)
    {depth : Nat} {types : Types} {message : MessageType}
    (admitted : (Linked.ofMessage message types).Throughout (Linked.Admitted regime.wraps))
    (shallow : regime.contract.tolerates (.misuse .nestingTooDeep) ∨
      ∃ less, depth = less + 1 ∧ (Linked.ofMessage message types).Within less) :
    (decodeMessage types mode config depth).Obeys regime message := by
  induction depth generalizing types message with
  | zero =>
    rcases shallow with tolerated | ⟨less, wrong, -⟩
    · exact fun _ _ _ _ _ => .throw tolerated
    · cases wrong
  | succ depth hypothesis =>
    intro view values state fits holds
    refine Environment.decode_regime ⟨message.program, message.visible types, mode, config⟩ ?_
      (show Contained (.ok view) from trivial) (fun _ same => Except.ok.inj same ▸ fits) holds
    refine admitted.here.refers fun other names => hypothesis (admitted.message names) ?_
    refine shallow.imp_right fun ⟨less, same, within⟩ => ?_
    obtain rfl : depth = less := Nat.succ.inj same
    cases depth with
    | zero => exact absurd names (within other)
    | succ less => exact ⟨less, rfl, within other names⟩

/-- A source gives its own view. -/
theorem RunSource.eq_view_of_open (source : RunSource) {mode : String} {view : View}
    (opened : source.open? mode = .ok view) : view = source.view := by
  unfold RunSource.open? at opened
  split at opened
  · cases opened
  · exact (Except.ok.inj opened).symm

/-- **A run** keeps to a regime, unless its references nest too deep. -/
theorem decodeWith_regime {γ : Type} (regime : Regime γ) (environment : Environment)
    (admitted : (Linked.mk environment.program environment.types).Throughout
      (Linked.Admitted regime.wraps))
    (shallow : regime.contract.tolerates (.misuse .nestingTooDeep) ∨
      (Linked.mk environment.program environment.types).Acyclic)
    {source : RunSource} {values : List Value} {state : Machine × γ}
    (fits : regime.Fits state source.view) (holds : ∀ value ∈ values, regime.Holds state value) :
    Keeps regime.run (fun value after => regime.Holds after value)
      (decodeWith environment source values) state := by
  refine environment.decode_regime ?_ (source.open_calm _).contained ?_ holds
  · refine admitted.here.refers fun message names =>
      decodeMessage_regime regime _ _ (admitted.message names) ?_
    refine shallow.imp_right fun acyclic => ⟨environment.types.length + 999, rfl, ?_⟩
    have within : (Linked.mk environment.program environment.types).Within
        (environment.types.length + nestingLimit) := acyclic.within (Nat.le_add_right _ _)
    exact within message names
  · intro view same
    rw [source.eq_view_of_open same]
    exact fits

end WireProgram
