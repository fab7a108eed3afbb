/-
**A run in all ways together.**

The ways of an ensemble take every step of a program together: they read the same bytes, hold one frame
under the names of each, and fail at the same place with faults that belong together. The main
definitions and statements:

* `Instruction.Suits` and `Linked.Suits`, a program whose constants, transforms and types are covered;
* `Instruction.run_duet` and `runBlock_duet`, one instruction and a block;
* `Environment.decode_duet` and `decodeMessage_duet`, whole programs and messages.
-/

import WireProgram.Proofs.Ensemble.Machine
import WireProgram.Proofs.Nesting

namespace WireProgram

variable {ι β : Type} {ensemble : Ensemble ι} {machines : ι → Machine}

/-! ### Reading -/

section Reading

variable {view : View}

theorem scalarOfBytes_named (naming : Naming) (primitive : Primitive) (bytes : Bytes) :
    scalarOfBytes primitive bytes = (scalarOfBytes primitive bytes).map (Value.named naming) := by
  unfold scalarOfBytes
  by_cases whole : bytes.length = primitive.width
  · rw [if_pos whole, map_ok]
    cases primitive.decode bytes <;> rfl
  · rw [if_neg whole, map_error]

theorem arrayOfBytes_named (naming : Naming) (primitive : Primitive) (bytes : Bytes) :
    arrayOfBytes primitive bytes = (arrayOfBytes primitive bytes).map (Value.named naming) := by
  unfold arrayOfBytes
  by_cases whole : bytes.length % primitive.width = 0
  · rw [if_pos whole, map_ok, Value.named]
  · rw [if_neg whole, map_error]

theorem readScalar_duet (together : ensemble.Machines machines)
    (reads : ensemble.reads (streamsOf machines) view) (name : Json) :
    Duet ensemble ensemble.Values
      (fun way => readScalar ((ensemble.naming way).views view) name) machines := by
  refine Duet.constant_bind together fun primitive _ => ?_
  refine Duet.bind_same (Duet.onStreams together (ensemble.readExact reads primitive.width))
    fun bytes _ reached => ?_
  exact Duet.ofExcept reached.states (fun way => scalarOfBytes_named _ primitive bytes)
    fun _ same => .of_nameless ((scalarOfBytes_inert primitive bytes).ok same)
      (.of_result (fun naming => scalarOfBytes_named naming primitive bytes) same)

theorem readArray_duet (together : ensemble.Machines machines)
    (reads : ensemble.reads (streamsOf machines) view) (name : Json) (count : Option Nat)
    (allowPartialTail : Bool) :
    Duet ensemble ensemble.Values (fun way =>
      readArray ((ensemble.naming way).views view) name count allowPartialTail) machines := by
  refine Duet.constant_bind together fun primitive _ => ?_
  have whole : ∀ {machines} (bytes : Bytes), ensemble.Machines machines →
      Duet ensemble ensemble.Values (fun _ => Step.ofExcept (arrayOfBytes primitive bytes))
        machines :=
    fun bytes together => Duet.ofExcept together
      (fun way => arrayOfBytes_named (ensemble.naming way) primitive bytes) fun _ same =>
        .of_nameless ((arrayOfBytes_inert primitive bytes).ok same)
          (.of_result (fun naming => arrayOfBytes_named naming primitive bytes) same)
  cases count with
  | some count =>
    exact Duet.bind_same (Duet.onStreams together (ensemble.readExact reads _))
      fun bytes _ reached => whole bytes reached.states
  | none =>
    refine Duet.bind_same (Duet.onStreams together (ensemble.readToEnd reads))
      fun bytes _ reached => ?_
    dsimp only
    refine .ite (fun _ => ?_) fun _ => whole bytes reached.states
    exact (Duet.warn reached.states _).bind_same fun _ _ reached' => whole _ reached'.states

theorem readMember_duet (together : ensemble.Machines machines)
    (reads : ensemble.reads (streamsOf machines) view) (entry : TypeEntry) (backing : Json) :
    Duet ensemble ensemble.Values
      (fun way => readMember ((ensemble.naming way).views view) entry backing) machines := by
  refine Duet.constant_bind together fun primitive _ => .ite (fun _ => ?_) fun _ => ?_
  · refine Duet.bind_same (Duet.onStreams together (ensemble.readExact reads _))
      fun bytes _ reached => ?_
    have nameless := fun naming value => (entry.ofDiscriminant_nameless naming value).symm
    exact Duet.ofExcept reached.states (fun way => nameless (ensemble.naming way) _)
      fun _ same => .of_nameless ((entry.ofDiscriminant_inert _).ok same)
        (.of_result (fun naming => nameless naming _) same)
  · cases entry.className? with
    | some name => exact .throw together (ensemble.failures_same _)
    | none => exact .throw together (ensemble.failures_same _)

end Reading

/-! ### Loops -/

section Loops

variable {body : ι → Step Unit} {view : View} {start : ι → Machine}

/-- A body that all ways run together, from some machines on. -/
abbrev Duet.Body (ensemble : Ensemble ι) (start : ι → Machine) (body : ι → Step Unit) : Prop :=
  ∀ machines, ensemble.accord.Reached start machines → Duet ensemble Constantly body machines

theorem repeatBody_duet (each : Duet.Body ensemble start body)
    (reached : ensemble.accord.Reached start machines) (count : Nat) :
    Duet ensemble Constantly (fun way => repeatBody (body way) count) machines := by
  induction count generalizing machines with
  | zero => exact .pure reached.states (.intro _ ())
  | succ count hypothesis =>
    exact (each machines reached).bind_same fun _ _ reached' => hypothesis (reached.trans reached')

/-- A round consumes nothing in any of the ways, or something in all of them. -/
theorem withProgress_duet (each : Duet.Body ensemble start body)
    (reached : ensemble.accord.Reached start machines)
    (reads : ensemble.reads (streamsOf start) view) :
    Duet ensemble Constantly
      (fun way => withProgress ((ensemble.naming way).views view) (body way)) machines := by
  obtain ⟨before, same⟩ := ensemble.position reached.states.streams
    (ensemble.reads_later reached.later reads)
  refine Duet.look_each ?_
  refine (each machines reached).bind_same fun _ machines' reached' => ?_
  obtain ⟨after, same'⟩ := ensemble.position reached'.states.streams
    (ensemble.reads_later (reached.trans reached').later reads)
  refine Duet.look_each ?_
  simp only [same, same', Nat.add_right_cancel_iff]
  refine .ite (fun _ => ?_) fun _ => ?_
  · exact .throw reached'.states (ensemble.failures_same _)
  · exact .pure reached'.states (.intro _ ())

theorem untilTerminator_duet (each : Duet.Body ensemble start body)
    (reached : ensemble.accord.Reached start machines)
    (reads : ensemble.reads (streamsOf start) view) {terminator : Bytes}
    (filled : terminator ≠ []) (fuel : Nat) :
    Duet ensemble Constantly (fun way =>
      untilTerminator ((ensemble.naming way).views view) terminator (body way) fuel) machines := by
  induction fuel generalizing machines with
  | zero => exact .throw reached.states (ensemble.failures_same _)
  | succ fuel hypothesis =>
    simp only [untilTerminator_succ]
    refine Duet.bind_same (Duet.onStreams reached.states
      (ensemble.approach (ensemble.reads_later reached.later reads) filled))
        fun approach _ reached' => ?_
    cases approach with
    | ended => exact .pure reached'.states (.intro _ ())
    | reached => exact .pure reached'.states (.intro _ ())
    | ahead =>
      exact (withProgress_duet each (reached.trans reached') reads).bind_same fun _ _ reached'' =>
        hypothesis ((reached.trans reached').trans reached'')

theorem throughCursor_duet (each : Duet.Body ensemble start body)
    (reached : ensemble.accord.Reached start machines)
    (reads : ensemble.reads (streamsOf start) view) (ends : ensemble.ends (streamsOf start) view)
    (fuel : Nat) :
    Duet ensemble Constantly (fun way =>
      throughCursor ((ensemble.naming way).views view) (body way) fuel) machines := by
  induction fuel generalizing machines with
  | zero => exact .throw reached.states (ensemble.failures_same _)
  | succ fuel hypothesis =>
    obtain ⟨ended, same⟩ := ensemble.atEnd reached.states.streams
      (ensemble.ends_later reached.later ends)
    refine Duet.look_bind same (.ite (fun _ => .pure reached.states (.intro _ ())) fun _ => ?_)
    exact (withProgress_duet each reached reads).bind_same fun _ _ reached' =>
      hypothesis (reached.trans reached')

end Loops

/-! ### Parts of instructions -/

section Parts

variable {better : (ι → Machine) → (ι → β) → Prop} {frame : Frame}

/-- Reading a register, before the rest. -/
theorem get_bind {next : ι → Value → Step β} (together : ensemble.Machines machines)
    (frame : Frame) (register : Register)
    (rest : ∀ value, frame.get register = .ok value →
      Duet ensemble better (fun way => next way (value.named (ensemble.naming way))) machines) :
    Duet ensemble better (fun way =>
      Step.ofExcept ((frame.named (ensemble.naming way)).get register) >>= next way) machines :=
  Duet.ofExcept_bind together (fun way => frame.get_named (ensemble.naming way) register) rest

theorem getMany_bind {next : ι → List Value → Step β} (together : ensemble.Machines machines)
    (frame : Frame) (registers : List Register)
    (rest : ∀ values, frame.getMany registers = .ok values → Duet ensemble better (fun way =>
      next way (values.map (Value.named (ensemble.naming way)))) machines) :
    Duet ensemble better (fun way =>
      Step.ofExcept ((frame.named (ensemble.naming way)).getMany registers) >>= next way) machines :=
  Duet.ofExcept_bind together (fun way => frame.getMany_named (ensemble.naming way) registers) rest

/-- Finding the stream of an instruction, before the rest. -/
theorem target_bind {next : ι → View → Step β} (together : ensemble.Machines machines)
    (frames : ensemble.Frames (streamsOf machines) frame) (target : Target)
    (rest : ∀ view, ensemble.reads (streamsOf machines) view →
      Duet ensemble better (fun way => next way ((ensemble.naming way).views view)) machines) :
    Duet ensemble better (fun way =>
      Step.ofExcept ((frame.named (ensemble.naming way)).target target) >>= next way) machines :=
  Duet.ofExcept_bind together (fun way => frame.target_named (ensemble.naming way) target)
    fun view found => rest view (frames.views.target found)

theorem newList_duet (together : ensemble.Machines machines) :
    Duet ensemble ensemble.Values (fun _ => newList) machines := by
  refine Duet.onLists ensemble.Holds (fun lists => .ok (.list lists.size, lists.push [])) together
    (fun way lists lists' named => ?_) fun lists outcome bears made => ?_
  · rw [← named.size]
    exact .of_ok (Value.list lists.size) (named.push [])
  · cases made
    exact ⟨⟨nofun, .list _⟩, fun naming spares => (bears naming spares).push []⟩

theorem addOutput_duet (together : ensemble.Machines machines)
    (frames : ensemble.Frames (streamsOf machines) frame) (output item : Register) :
    Duet ensemble Constantly
      (fun way => addOutput (frame.named (ensemble.naming way)) output item) machines := by
  refine get_bind together frame output fun list _ => ?_
  cases list with
  | list cell =>
    refine get_bind together frame item fun value read => ?_
    have done : Duet ensemble (Likewise (fun _ _ => True) fun _ value => value) (fun way =>
        Step.onLists fun lists => .ok ((), lists.modify ((ensemble.naming way).cells cell)
          fun items => items ++ [value.named (ensemble.naming way)])) machines := by
      refine Duet.onLists (fun _ _ => True)
        (fun lists => .ok ((), lists.modify cell fun items => items ++ [value])) together
        (fun way lists lists' named => .of_ok () (named.append cell value))
        fun lists outcome bears added => ?_
      cases added
      refine ⟨trivial, fun naming spares => ?_⟩
      have appended := (bears naming spares).append cell value
      rwa [spares.cells, (frames.get read).inside naming spares] at appended
    exact done.mono fun _ _ _ ⟨value, _, same⟩ => ⟨value, same⟩
  | _ => exact .throw together (ensemble.failures_same _)

theorem conditionHolds_duet (together : ensemble.Machines machines) (frame : Frame)
    (condition : Register) :
    Duet ensemble Constantly
      (fun way => conditionHolds (frame.named (ensemble.naming way)) condition) machines := by
  refine get_bind together frame condition fun value _ => Duet.look_each ?_
  obtain ⟨lists, -, named⟩ := together.lists
  have same : ∀ way, (value.named (ensemble.naming way)).truth (machines way).lists =
      value.truth lists := fun way => Value.truth_named (named way) value
  simp only [same]
  exact Duet.constant (value.truth lists) together

theorem countIn_duet (together : ensemble.Machines machines)
    (frames : ensemble.Frames (streamsOf machines) frame) (what : String) (register : Register) :
    Duet ensemble Constantly
      (fun way => countIn (frame.named (ensemble.naming way)) what register) machines := by
  refine get_bind together frame register fun value read => ?_
  by_cases stream : ∃ view, value = .stream view
  · obtain ⟨view, rfl⟩ := stream
    have belong := ensemble.unfit ((frames.get read).held view rfl) what
    exact .of_error (.refl together) (Ensemble.failures_of_fault belong) fun _ => rfl
  · have same : ∀ way, countOf what (value.named (ensemble.naming way)) = countOf what value :=
      fun way => countOf_named _ what value fun view isStream => stream ⟨view, isStream⟩
    simp only [same]
    exact Duet.constant (countOf what value) together

end Parts

/-! ### Instructions and blocks -/

/-- The surroundings of a run in one of the ways. -/
def Ensemble.environment (ensemble : Ensemble ι) (program : Program) (types : Types)
    (config : Config) (way : ι) : Environment :=
  ⟨program, types, ensemble.mode way, config⟩

/-- How a message that is referred to must run: in all ways together, whatever it is given. -/
def Referral.Paired (ensemble : Ensemble ι) (refer : ι → Referral) (message : MessageType) : Prop :=
  ∀ (view : View) (values : List Value) (machines : ι → Machine), ensemble.Machines machines →
    ensemble.reads (streamsOf machines) view →
    (∀ value ∈ values, ensemble.Holds (streamsOf machines) value) →
      Duet ensemble ensemble.Values (fun way => refer way message ((ensemble.naming way).views view)
        (values.map (Value.named (ensemble.naming way)))) machines

/-- An instruction whose constants have their own names, whose transforms and types are covered, and
that refers to messages that are good. -/
def Instruction.Suits (ensemble : Ensemble ι) (types : Types) (good : MessageType → Prop) :
    Instruction → Prop
  | .eval _ expression => ∀ way, ∀ cell ∈ expression.cells, (ensemble.naming way).cells cell = cell
  | .wrapStream _ _ transform _ | .conditionalWrapStream _ _ _ _ transform _ =>
    ensemble.wraps transform
  | .decodeForeign _ _ type _ => ensemble.foreign type
  | .decodeReference _ _ name _ =>
    ∀ message, types.require name = .ok (.message message) → good message
  | _ => True

section Blocks

variable {program : Program} {types : Types} {config : Config} {refer : ι → Referral}

/-- Writing a register with one value. -/
theorem set_duet (together : ensemble.Machines machines) {frame : Frame}
    (frames : ensemble.Frames (streamsOf machines) frame) (register : Register) {value : Value}
    (holds : ensemble.Holds (streamsOf machines) value) :
    Duet ensemble ensemble.Framed (fun way => Step.ofExcept
      ((frame.named (ensemble.naming way)).set register (value.named (ensemble.naming way))))
      machines :=
  Duet.ofExcept together (fun way => frame.set_named (ensemble.naming way) register value)
    fun _ same => frames.set holds same

/-- A step that gives one value, which is then written. -/
theorem written_duet {step : ι → Step Value} {frame : Frame}
    (frames : ensemble.Frames (streamsOf machines) frame) (register : Register)
    (duet : Duet ensemble ensemble.Values step machines) :
    Duet ensemble ensemble.Framed (fun way => step way >>= fun value =>
      Step.ofExcept ((frame.named (ensemble.naming way)).set register value)) machines :=
  duet.bind fun _ _ reached holds =>
    set_duet reached.states (frames.later reached.later) register holds

/-- A step that opens one view, which is then written. -/
theorem opened_duet {step : ι → StreamStep Codec View} (together : ensemble.Machines machines)
    {frame : Frame} (frames : ensemble.Frames (streamsOf machines) frame) (register : Register)
    (opens : Jointly ensemble.streams (streamsOf machines)
      (Likewise ensemble.held fun way => (ensemble.naming way).views) step) :
    Duet ensemble ensemble.Framed (fun way => Step.onStreams (step way) >>= fun view =>
      Step.ofExcept ((frame.named (ensemble.naming way)).set register (.stream view)))
      machines := by
  have put : Duet ensemble (Likewise (fun after => ensemble.held (streamsOf after))
      fun way => (ensemble.naming way).views) (fun way => Step.onStreams (step way)) machines :=
    Duet.onStreams together opens
  exact put.bind fun view _ reached held =>
    set_duet reached.states (frames.later reached.later) register (.of_stream held)

-- The induction is on the nesting of the blocks. What it carries is one frame under the names of each
-- way, whose streams the ways may read, and machines that belong together.
mutual

/-- **One instruction** runs in all ways together. -/
theorem Instruction.run_duet : ∀ (instruction : Instruction) (frame : Frame)
    (machines : ι → Machine), (∀ part ∈ instruction.parts,
      part.Suits ensemble types (Referral.Paired ensemble refer)) →
        ensemble.Frames (streamsOf machines) frame →
        ensemble.Machines machines → Duet ensemble ensemble.Framed (fun way =>
          instruction.run (ensemble.environment program types config way) (refer way)
            (frame.named (ensemble.naming way))) machines
  | .eval target expression, frame, machines, suits, frames, together => by
    have fixed : ∀ way, ∀ cell ∈ expression.cells, (ensemble.naming way).cells cell = cell :=
      suits _ (Instruction.mem_parts _)
    have registers : ∀ name value, program.fieldValue frame name = .ok value →
        ensemble.Holds (streamsOf machines) value := by
      intro name value found
      obtain ⟨register, -, read⟩ := Program.fieldValue_eq_ok found
      exact frames.get read
    refine written_duet frames target (Duet.onLists ensemble.Holds
      (expression.evaluate (program.fieldValue frame)) together (fun way lists lists' named =>
      expression.evaluate_named (program.fieldValue_named (ensemble.naming way) frame) (fixed way)
        named) fun lists outcome bears same => ?_)
    obtain ⟨inside, bears'⟩ := Expression.evaluate_bears
      (fun name value found => (registers name value found).inside) bears same
    refine ⟨?_, bears'⟩
    rcases (expression.evaluate_inert _ _).ok same with inert | ⟨name, found⟩
    · exact ⟨fun view isStream => absurd isStream (inert view), inside⟩
    · exact registers name _ found
  | .construct target constructable, frame, machines, suits, frames, together => by
    have built := fun way => constructable.build_named (ensemble.naming way) types frame
    refine written_duet frames target (Duet.ofExcept together built fun _ same => ⟨?_, ?_⟩)
    · exact fun view isStream => absurd isStream ((constructable.build_inert _ _).ok same view)
    · exact Constructable.build_bears (fun _ _ read => (frames.get read).inside) same
  | .constrict stream newStream length, frame, machines, suits, frames, together => by
    refine target_bind together frames stream fun view reads => ?_
    refine (countIn_duet together frames _ length).bind_same fun count _ reached => ?_
    exact opened_duet reached.states (frames.later reached.later) newStream
      (ensemble.openTake (ensemble.reads_later reached.later reads) count)
  | .wrapStream stream newStream transform arguments, frame, machines, suits, frames, together => by
    have wraps : ensemble.wraps transform := suits _ (Instruction.mem_parts _)
    refine target_bind together frames stream fun view reads => ?_
    refine getMany_bind together frame arguments fun values _ => ?_
    exact opened_duet together frames newStream (ensemble.wrap wraps reads values)
  | .conditionalWrapStream condition prelude stream newStream transform arguments, frame, machines,
      suits, frames, together => by
    have suitsPrelude : ∀ part ∈ blockParts prelude,
        part.Suits ensemble types (Referral.Paired ensemble refer) :=
      fun part member => suits part (List.mem_cons_of_mem _ member)
    have wraps : ensemble.wraps transform := suits _ (Instruction.mem_parts _)
    refine target_bind together frames stream fun view reads => ?_
    refine (conditionHolds_duet together frame condition).bind_same fun holds machines' reached => ?_
    have frames' := frames.later reached.later
    have reads' := ensemble.reads_later reached.later reads
    refine .ite (fun _ => ?_) fun _ =>
      set_duet reached.states frames' newStream (.of_stream (ensemble.left wraps reads'))
    refine Duet.bind (runBlock_duet prelude 0 (frame.child none []) machines' suitsPrelude
      frames'.inner reached.states) fun inner _ reached' _ => ?_
    refine getMany_bind reached'.states inner arguments fun values _ => ?_
    exact opened_duet reached'.states (frames'.later reached'.later) newStream
      (ensemble.wrap wraps (ensemble.reads_later reached'.later reads') values)
  | .decodeForeign target data type arguments, frame, machines, suits, frames, together => by
    have covered : ensemble.foreign type := suits _ (Instruction.mem_parts _)
    refine target_bind together frames target fun view reads => ?_
    refine getMany_bind together frame arguments fun values _ => ?_
    have read := Duet.onStreams together (ensemble.decode covered reads values)
    exact written_duet frames data (read.mono fun _ _ _ ⟨value, ⟨inert, nameless⟩, same⟩ =>
      ⟨value, .of_nameless inert nameless, same⟩)
  | .decodeReference target data name arguments, frame, machines, suits, frames, together => by
    refine target_bind together frames target fun view reads => ?_
    dsimp only [Ensemble.environment]
    refine Duet.constant_bind together fun entry required => ?_
    refine getMany_bind together frame arguments fun values many => ?_
    refine Duet.constant_bind together fun message inPlace => ?_
    obtain rfl := TypeEntry.inPlace_eq_ok inPlace
    have refers : Referral.Paired ensemble refer message :=
      suits _ (Instruction.mem_parts _) message required
    exact written_duet frames data (refers view values machines together reads
      (frames.getMany many))
  | .decodeEnumeration enumeration backing data target, frame, machines, suits, frames, together => by
    refine target_bind together frames target fun view reads => ?_
    dsimp only [Ensemble.environment]
    refine Duet.constant_bind together fun entry _ => ?_
    exact written_duet frames data (readMember_duet together reads entry backing)
  | .decodePrimitive target data primitive, frame, machines, suits, frames, together => by
    refine target_bind together frames target fun view reads => ?_
    exact written_duet frames data (readScalar_duet together reads primitive)
  | .decodeArray target data primitive none, frame, machines, suits, frames, together => by
    refine target_bind together frames target fun view reads => ?_
    exact written_duet frames data
      (readArray_duet together reads primitive none config.allowPartialTail)
  | .decodeArray target data primitive (some length), frame, machines, suits, frames, together => by
    refine target_bind together frames target fun view reads => ?_
    refine (countIn_duet together frames _ length).bind_same fun count _ reached => ?_
    exact written_duet (frames.later reached.later) data (readArray_duet reached.states
      (ensemble.reads_later reached.later reads) primitive (some count) config.allowPartialTail)
  | .loop _ (some _) (some _) _ _, frame, machines, suits, frames, together =>
    .throw together (ensemble.failures_same _)
  | .loop target (some stop) none output body, frame, machines, suits, frames, together => by
    have suitsBody : ∀ part ∈ blockParts body,
        part.Suits ensemble types (Referral.Paired ensemble refer) :=
      fun part member => suits part (List.mem_cons_of_mem _ member)
    refine (countIn_duet together frames _ stop).bind_same fun count _ counted => ?_
    refine (newList_duet counted.states).bind fun list _ listed holds => ?_
    refine (set_duet listed.states (frames.later (counted.trans listed).later) output holds).bind
      fun outer machines₁ written framesOuter => ?_
    have each : Duet.Body ensemble machines₁ fun way =>
        discard (runBlock (ensemble.environment program types config way) (refer way) body 0
          ((outer.named (ensemble.naming way)).child none [])) :=
      fun inner reached => (runBlock_duet body 0 (outer.child none []) inner suitsBody
        (framesOuter.later reached.later).inner reached.states).discard
    exact (repeatBody_duet each (.refl written.states) count).bind_same
      fun _ _ reached => .pure reached.states ⟨outer, framesOuter.later reached.later, rfl⟩
  | .loop target none (some terminator) output body, frame, machines, suits, frames, together => by
    have suitsBody : ∀ part ∈ blockParts body,
        part.Suits ensemble types (Referral.Paired ensemble refer) :=
      fun part member => suits part (List.mem_cons_of_mem _ member)
    refine target_bind together frames target fun view reads => ?_
    refine get_bind together frame terminator fun value _ => Duet.look_each ?_
    obtain ⟨lists, -, named⟩ := together.lists
    obtain ⟨bound, weighs⟩ := ensemble.weight together.streams reads
    refine Duet.look_bind weighs ?_
    have bytes : ∀ way, (value.named (ensemble.naming way)).toBytes (machines way).lists (bound + 1) =
        value.toBytes lists (bound + 1) := fun way => Value.toBytes_named (named way) _ value
    simp only [bytes]
    refine Duet.constant_bind together fun ending _ => .ite (fun _ => ?_) fun filled => ?_
    · exact .throw together (ensemble.failures_same _)
    · refine (newList_duet together).bind fun list _ listed holds => ?_
      refine (set_duet listed.states (frames.later listed.later) output holds).bind
        fun outer machines₁ written framesOuter => ?_
      have each : Duet.Body ensemble machines₁ fun way =>
          discard (runBlock (ensemble.environment program types config way) (refer way) body 0
            ((outer.named (ensemble.naming way)).child none [])) :=
        fun inner reached => (runBlock_duet body 0 (outer.child none []) inner suitsBody
          (framesOuter.later reached.later).inner reached.states).discard
      have readsLater := ensemble.reads_later (listed.trans written).later reads
      rw [List.isEmpty_iff] at filled
      exact (untilTerminator_duet each (.refl written.states) readsLater filled
        (bound + 1)).bind_same
          fun _ _ reached => .pure reached.states ⟨outer, framesOuter.later reached.later, rfl⟩
  | .loop target none none output body, frame, machines, suits, frames, together => by
    have suitsBody : ∀ part ∈ blockParts body,
        part.Suits ensemble types (Referral.Paired ensemble refer) :=
      fun part member => suits part (List.mem_cons_of_mem _ member)
    refine target_bind together frames target fun view reads => ?_
    refine Duet.bind_same (Duet.onStreams together (ensemble.readToEnd reads))
      fun content machines₁ drained => ?_
    have opens : Duet ensemble (Likewise (fun after cursor =>
        ensemble.held (streamsOf after) cursor ∧ ensemble.ends (streamsOf after) cursor)
        fun way => (ensemble.naming way).views)
        (fun _ => Step.onStreams (openedBy fun streams => streams.openCursor content)) machines₁ :=
      Duet.onStreams drained.states (ensemble.openCursor (streamsOf machines₁) content)
    refine opens.bind fun cursor _ opened ⟨held, ends⟩ => ?_
    refine (newList_duet opened.states).bind fun list _ listed holds => ?_
    have framesListed := frames.later ((drained.trans opened).trans listed).later
    refine (set_duet listed.states framesListed output holds).bind
      fun outer machines₂ written framesOuter => ?_
    have heldLater := ensemble.held_later (listed.trans written).later held
    have endsLater := ensemble.ends_later (listed.trans written).later ends
    have each : Duet.Body ensemble machines₂ fun way =>
        discard (runBlock (ensemble.environment program types config way) (refer way) body 0
          (cursorFrame (outer.named (ensemble.naming way)) target
            ((ensemble.naming way).views cursor))) := by
      intro inner reached
      have ran := runBlock_duet body 0 (cursorFrame outer target cursor) inner suitsBody
        ((framesOuter.later reached.later).cursorFrame target
          (ensemble.held_later reached.later heldLater)) reached.states
      simp only [cursorFrame_named] at ran
      exact ran.discard
    exact (throughCursor_duet each (.refl written.states) (ensemble.reads_of_held heldLater)
      endsLater (content.length + 1)).bind_same
        fun _ _ reached => .pure reached.states ⟨outer, framesOuter.later reached.later, rfl⟩
  | .loopOutput output item, frame, machines, suits, frames, together => by
    refine (addOutput_duet together frames output item).bind_same fun _ _ reached => ?_
    exact .pure reached.states ⟨frame, frames.later reached.later, rfl⟩
  | .conditional target interior condition body, frame, machines, suits, frames, together => by
    have suitsBody : ∀ part ∈ blockParts body,
        part.Suits ensemble types (Referral.Paired ensemble refer) :=
      fun part member => suits part (List.mem_cons_of_mem _ member)
    refine (conditionHolds_duet together frame condition).bind_same fun holds machines' reached => ?_
    have frames' := frames.later reached.later
    have nothing : ensemble.Holds (streamsOf machines') .none := .of_nameless nofun fun _ => rfl
    refine .ite (fun _ => ?_) fun _ => set_duet reached.states frames' target nothing
    refine Duet.bind (runBlock_duet body 0 (frame.child none []) machines' suitsBody frames'.inner
      reached.states) fun inner _ reached' framesInner => ?_
    exact written_duet (frames'.later reached'.later) target (Duet.ofExcept reached'.states
      (fun way => inner.get_named (ensemble.naming way) interior) fun _ same => framesInner.get same)

/-- **A block** runs in all ways together. -/
theorem runBlock_duet : ∀ (block : List Instruction) (index : Nat) (frame : Frame)
    (machines : ι → Machine), (∀ part ∈ blockParts block,
      part.Suits ensemble types (Referral.Paired ensemble refer)) →
        ensemble.Frames (streamsOf machines) frame →
        ensemble.Machines machines → Duet ensemble ensemble.Framed (fun way =>
          runBlock (ensemble.environment program types config way) (refer way) block index
            (frame.named (ensemble.naming way))) machines
  | [], index, frame, machines, suits, frames, together => .pure together ⟨frame, frames, rfl⟩
  | instruction :: rest, index, frame, machines, suits, frames, together => by
    have suitsHere : ∀ part ∈ instruction.parts,
        part.Suits ensemble types (Referral.Paired ensemble refer) :=
      fun part member => suits part (List.mem_append_left _ member)
    have suitsLater : ∀ part ∈ blockParts rest,
        part.Suits ensemble types (Referral.Paired ensemble refer) :=
      fun part member => suits part (List.mem_append_right _ member)
    simp only [runBlock, Frame.depth_named]
    refine (Duet.record together config instruction.label frame.depth).bind_same
      fun _ machines' reached => ?_
    refine Duet.bind (Duet.guarded config frame.depth ⟨index, instruction.label⟩
      (Instruction.run_duet instruction frame machines' suitsHere (frames.later reached.later)
        reached.states)) fun next machines'' reached' framesNext => ?_
    exact runBlock_duet rest (index + 1) next machines'' suitsLater framesNext reached'.states

end

end Blocks

/-! ### Whole programs -/

theorem bindArguments_named (naming : Naming) (program : Program) (values : List Value) :
    bindArguments program (values.map (Value.named naming)) =
      (bindArguments program values).map (Frame.named naming) := by
  have written : ∀ (registers : List Register) (values : List Value) (frame : Frame),
      (registers.zip (values.map (Value.named naming))).foldlM
          (fun (frame : Frame) entry => frame.set entry.1 entry.2) (frame.named naming) =
        ((registers.zip values).foldlM (fun (frame : Frame) entry => frame.set entry.1 entry.2)
          frame).map (Frame.named naming) := by
    intro registers
    induction registers with
    | nil => exact fun _ _ => rfl
    | cons register registers hypothesis =>
      intro values frame
      cases values with
      | nil => rfl
      | cons value values =>
        rw [List.map_cons, List.zip_cons_cons, List.zip_cons_cons, List.foldlM_cons,
          List.foldlM_cons, Frame.set_named, map_bind_eq, bind_map_eq]
        exact congrArg _ (funext fun next => hypothesis values next)
  unfold bindArguments
  rw [List.length_map]
  by_cases enough : values.length = program.arguments.length
  · rw [if_pos enough, if_pos enough]
    exact written program.arguments values {}
  · rw [if_neg enough, if_neg enough, map_error]

/-- **A program** runs in all ways together, over one view or over none. -/
theorem Environment.decode_duet (program : Program) (types : Types) (config : Config)
    {refer : ι → Referral} (suits : ∀ part ∈ blockParts program.instructions,
      part.Suits ensemble types (Referral.Paired ensemble refer))
    (together : ensemble.Machines machines) {opening : Except Fault View}
    {openings : ι → Except Fault View}
    (opened : ∀ way, openings way = opening.map (ensemble.naming way).views)
    (reads : ∀ view, opening = .ok view → ensemble.reads (streamsOf machines) view)
    {values : List Value} (holds : ∀ value ∈ values, ensemble.Holds (streamsOf machines) value) :
    Duet ensemble ensemble.Values (fun way =>
      (ensemble.environment program types config way).decode (refer way) (openings way)
        (values.map (Value.named (ensemble.naming way)))) machines := by
  refine Duet.ofExcept_bind together
    (fun way => bindArguments_named (ensemble.naming way) program values) fun frame bound => ?_
  refine Duet.ofExcept_bind together opened fun view same => ?_
  refine Duet.bind (runBlock_duet program.instructions 0 (frame.bindReader view) machines suits
    (.bindArguments holds bound (reads view same)) together) fun last _ reached frames => ?_
  dsimp only [Ensemble.environment]
  refine Duet.constant_bind reached.states fun output _ => ?_
  exact Duet.ofExcept reached.states (fun way => last.get_named (ensemble.naming way) output)
    fun _ same => frames.get same

/-- A program whose constants have their own names, and whose transforms and types are covered. -/
def Linked.Suits (ensemble : Ensemble ι) (linked : Linked) : Prop :=
  ∀ part ∈ blockParts linked.program.instructions, part.Suits ensemble linked.types fun _ => True

theorem Linked.Suits.refers {linked : Linked} {good : MessageType → Prop}
    (suits : linked.Suits ensemble) (refers : ∀ message, linked.Names message → good message) :
    ∀ part ∈ blockParts linked.program.instructions, part.Suits ensemble linked.types good := by
  intro part member
  have holds := suits part member
  cases part with
  | decodeReference target data name arguments =>
    exact fun message required => refers message ⟨target, data, name, arguments, member, required⟩
  | _ => exact holds

/-- **A message** that is referred to runs in all ways together, if references may nest equally deep in
all of them, or as deep as they do. -/
theorem decodeMessage_duet (config : Config) (depth : ι → Nat) (types : Types)
    (message : MessageType)
    (suits : (Linked.ofMessage message types).Throughout (Linked.Suits ensemble))
    (deep : (∃ common, ∀ way, depth way = common) ∨
      ∃ less, (∀ way, less < depth way) ∧ (Linked.ofMessage message types).Within less) :
    Referral.Paired ensemble
      (fun way => decodeMessage types (ensemble.mode way) config (depth way)) message := by
  have entered : ∀ {types : Types} {message : MessageType} {depth : ι → Nat},
      (Linked.ofMessage message types).Throughout (Linked.Suits ensemble) →
      (∀ other, (Linked.ofMessage message types).Names other → Referral.Paired ensemble
        (fun way => decodeMessage (message.visible types) (ensemble.mode way) config (depth way))
          other) →
      Referral.Paired ensemble
        (fun way => decodeMessage types (ensemble.mode way) config (depth way + 1)) message := by
    intro types message depth suits refers view values machines together reads holds
    exact Environment.decode_duet message.program (message.visible types) config
      (suits.here.refers refers) together (fun _ => rfl) (fun _ same => Except.ok.inj same ▸ reads)
      holds
  rcases deep with ⟨common, same⟩ | ⟨less, enough, within⟩
  · simp only [same]
    clear same
    induction common generalizing types message with
    | zero => exact fun _ _ _ together _ _ => .throw together (ensemble.failures_same _)
    | succ common hypothesis =>
      exact entered suits fun other names => hypothesis _ other (suits.message names)
  · induction less generalizing types message depth with
    | zero =>
      obtain ⟨rest, same⟩ : ∃ rest : ι → Nat, ∀ way, depth way = rest way + 1 :=
        ⟨fun way => depth way - 1, fun way => (Nat.sub_add_cancel (enough way)).symm⟩
      simp only [same]
      exact entered suits fun other names => absurd names (within other)
    | succ less hypothesis =>
      obtain ⟨rest, same⟩ : ∃ rest : ι → Nat, ∀ way, depth way = rest way + 1 :=
        ⟨fun way => depth way - 1, fun way =>
          (Nat.sub_add_cancel (Nat.lt_of_le_of_lt (Nat.zero_le _) (enough way))).symm⟩
      simp only [same] at enough ⊢
      exact entered suits fun other names => hypothesis rest _ other (suits.message names)
        (fun way => Nat.lt_of_succ_lt_succ (enough way)) (within other names)

end WireProgram
