/-
**Names that are registered.**

Before its runs a program is checked: a name in an instruction must be registered, a message that it
stands for must have the entry points that the run needs, and an enumeration must be one. The check
goes through all blocks of the program, but not into the messages that it refers to. The main
definitions and statements:

* `Instruction.Resolved`, what the check is about, and `checkBlock_eq_ok`, what it makes sure of;
* `Station.Placed`, a station of a program that is reached, and `Follows.placed`;
* `Resolves`, a step that does not fail for a name that is not registered;
* `Instruction.run_resolves` and `runBlock_resolves`, one instruction and a block;
* `decode_resolved`, whole runs, and `compile_overlooks_references`, what the check does not see.
-/

import WireProgram.Examples
import WireProgram.Proofs.Discipline.Quiet
import WireProgram.Proofs.Station

namespace WireProgram

/-! ### The check -/

/-- An instruction whose name is registered, for a message with the entry points that a run needs or
for an enumeration. -/
def Instruction.Resolved (types : Types) (execution : Execution) : Instruction → Prop
  | .decodeReference _ _ name _ => ∃ message, types.require name = .ok (.message message) ∧
      message.exposes execution.entryPoint = true ∧ message.exposes .inPlace = true
  | .decodeEnumeration name _ _ _ =>
    ∃ enumeration, types.require name = .ok (.enumeration enumeration)
  | _ => True

/-- A type that can be entered is a message. -/
theorem TypeEntry.eq_message_of_exposes {entry : TypeEntry} {point : EntryPoint}
    (exposed : entry.exposes point = true) :
    ∃ message, entry = .message message ∧ message.exposes point = true := by
  cases entry with
  | message named => exact ⟨named, rfl, exposed⟩
  | enumeration named => cases exposed
  | objectClass named => cases exposed

section Check

variable {types : Types} {execution : Execution} {target : Target} {data : Register}
  {name backing : Json} {arguments : List Register}

/-- The check of a reference: the name, and then the entry points one after the other. -/
theorem check_decodeReference_eq :
    (Instruction.decodeReference target data name arguments).check types execution =
      types.require name >>= fun entry =>
        if entry.exposes execution.entryPoint then
          if entry.exposes .inPlace then .ok ()
          else .error (.program (.noEntryPoint name EntryPoint.inPlace.name))
        else .error (.program (.noEntryPoint name execution.entryPoint.name)) := by
  unfold Instruction.check
  refine congrArg _ (funext fun entry => ?_)
  simp only [List.forIn_cons, List.forIn_nil]
  cases entry.exposes execution.entryPoint with
  | false => rfl
  | true => cases entry.exposes .inPlace <;> rfl

theorem check_decodeReference :
    (Instruction.decodeReference target data name arguments).check types execution = .ok () ↔
      (Instruction.decodeReference target data name arguments).Resolved types execution := by
  rw [check_decodeReference_eq]
  constructor
  · intro passed
    obtain ⟨entry, required, passed⟩ := bind_eq_ok passed
    split at passed
    · rename_i entered
      split at passed
      · rename_i inPlace
        obtain ⟨message, rfl, exposed⟩ := entry.eq_message_of_exposes inPlace
        exact ⟨message, required, entered, exposed⟩
      · cases passed
    · cases passed
  · rintro ⟨message, required, entered, inPlace⟩
    rw [bind_of_ok required]
    exact (if_pos entered).trans (if_pos inPlace)

theorem check_decodeEnumeration :
    (Instruction.decodeEnumeration name backing data target).check types execution = .ok () ↔
      (Instruction.decodeEnumeration name backing data target).Resolved types execution := by
  constructor
  · intro passed
    obtain ⟨entry, required, passed⟩ := bind_eq_ok passed
    cases entry with
    | enumeration enumeration => exact ⟨enumeration, required⟩
    | message message => cases passed
    | objectClass objectClass => cases passed
  · rintro ⟨enumeration, required⟩
    show (types.require name >>= _) = _
    rw [bind_of_ok required]
    rfl

theorem forall_parts {good : Instruction → Prop} {instruction : Instruction}
    {parts : List Instruction} (here : good instruction) :
    (∀ part ∈ instruction :: parts, good part) ↔ ∀ part ∈ parts, good part := by
  rw [List.forall_mem_cons]
  exact and_iff_right here

mutual

/-- **The check of an instruction** passes if and only if all names in it are registered. -/
theorem Instruction.check_eq_ok (types : Types) (execution : Execution) :
    ∀ instruction : Instruction, instruction.check types execution = .ok () ↔
      ∀ part ∈ instruction.parts, part.Resolved types execution
  | .eval .. | .construct .. | .constrict .. | .wrapStream .. | .decodeForeign ..
  | .decodePrimitive .. | .decodeArray .. | .loopOutput .. =>
    iff_of_true rfl fun _ member => List.mem_singleton.mp member ▸ trivial
  | .decodeReference .. => check_decodeReference.trans List.forall_mem_singleton.symm
  | .decodeEnumeration .. => check_decodeEnumeration.trans List.forall_mem_singleton.symm
  | .conditionalWrapStream _ prelude _ _ _ _ =>
    (checkBlock_eq_ok types execution prelude).trans (forall_parts trivial).symm
  | .loop _ _ _ _ body => (checkBlock_eq_ok types execution body).trans (forall_parts trivial).symm
  | .conditional _ _ _ body =>
    (checkBlock_eq_ok types execution body).trans (forall_parts trivial).symm

/-- **The check of a block** passes if and only if all names in it are registered. -/
theorem checkBlock_eq_ok (types : Types) (execution : Execution) :
    ∀ block : List Instruction, checkBlock types execution block = .ok () ↔
      ∀ part ∈ blockParts block, part.Resolved types execution
  | [] => iff_of_true rfl fun _ member => absurd member List.not_mem_nil
  | instruction :: rest => by
    rw [blockParts, List.forall_mem_append, ← instruction.check_eq_ok types execution,
      ← checkBlock_eq_ok types execution rest, checkBlock]
    constructor
    · intro passed
      obtain ⟨_, first, others⟩ := bind_eq_ok passed
      exact ⟨first, others⟩
    · rintro ⟨first, others⟩
      rw [bind_of_ok first, others]

end

/-- A program that is accepted names only what is registered. -/
theorem resolved_of_compile {program : Program} {mode : String}
    (accepted : compile program types mode = .ok execution) :
    ∀ part ∈ blockParts program.instructions, part.Resolved types execution := by
  unfold compile at accepted
  split at accepted
  · cases accepted
  · obtain ⟨enough, -, accepted⟩ := bind_eq_ok accepted
    split at accepted
    · cases accepted
    · obtain ⟨_, checked, same⟩ := bind_eq_ok accepted
      cases same
      exact (checkBlock_eq_ok types _ _).mp checked

end Check

/-! ### Where a run stands -/

/-- A station inside of a program that another one reaches, in a mode. -/
structure Station.Placed (root : Linked) (mode : String) (station : Station) : Prop where
  reached : root.Reaches ⟨station.environment.program, station.environment.types⟩
  inside : ∀ part ∈ blockParts station.block,
    part ∈ blockParts station.environment.program.instructions
  mode : station.environment.mode = mode

namespace Station

variable {root : Linked} {mode : String} {station next : Station} {instruction : Instruction}
  {entry : Entry}

theorem Opens.parts (opens : station.Opens instruction entry) :
    ∀ part ∈ blockParts entry.block, part ∈ instruction.parts := by
  cases opens <;> exact fun part => List.mem_cons_of_mem _

theorem Starts.placed {view : View} {values : List Value} (starts : next.Starts view values)
    (reached : root.Reaches ⟨next.environment.program, next.environment.types⟩)
    (same : next.environment.mode = mode) : next.Placed root mode := by
  obtain ⟨-, -, -, -, -, block⟩ := starts
  exact ⟨reached, by rw [block]; exact fun part member => member, same⟩

/-- **One step** of a run stays in the program, or goes into a message that the program refers to. -/
theorem Follows.placed (follows : station.Follows next) (placed : station.Placed root mode) :
    next.Placed root mode := by
  obtain ⟨reached, inside, same⟩ := placed
  cases follows with
  | later block ran =>
    rw [block] at inside
    exact ⟨reached, fun part member => inside part (List.mem_append_right _ member), same⟩
  | inside block opens =>
    rw [block] at inside
    exact ⟨reached, fun part member => inside part (List.mem_append_left _ (opens.parts part member)),
      same⟩
  | @message target data name arguments rest view entry values message next block targeted required
      read entered depth environment machine starts =>
    obtain rfl := TypeEntry.inPlace_eq_ok entered
    rw [block] at inside
    have here := inside _ (List.mem_append_left _ (Instruction.mem_parts _))
    refine starts.placed ?_ (by rw [environment]; exact same)
    rw [environment]
    exact reached.tail ⟨message, ⟨target, data, name, arguments, here, required⟩, rfl⟩

theorem Placed.follows (placed : station.Placed root mode)
    (follows : Relation.ReflTransGen Follows station next) : next.Placed root mode := by
  induction follows with
  | refl => exact placed
  | tail _ step hypothesis => exact step.placed hypothesis

end Station

/-- Every station of a run is inside of a program that the run's program reaches. -/
theorem Environment.Visits.placed {environment : Environment} {source : RunSource}
    {values : List Value} {machine : Machine} {station : Station}
    (visits : environment.Visits source values machine station) :
    station.Placed ⟨environment.program, environment.types⟩ environment.mode := by
  obtain ⟨view, start, -, rfl, -, -, starts, follows⟩ := visits
  exact (starts.placed .refl rfl).follows follows

/-! ### Steps that find every name -/

/-- The contract of operations that may do anything but fail for a name that is not registered. -/
def Contract.resolving : Contract Fault (Streams Codec) Unit where
  later _ _ := True
  tolerates fault := ¬fault.Unresolved
  refl _ := trivial
  trans _ _ := trivial

/-- A step that does not fail for a name that is not registered. -/
def Resolves {α : Type} (step : Step α) : Prop :=
  ∀ state, Keeps (.over .resolving .freely) (fun _ _ => True) step state

/-- A result that is no fault of a name. -/
abbrev Found {α : Type} (result : Except Fault α) : Prop :=
  Ends result (fun _ => True) fun fault => ¬fault.Unresolved

section Results

variable {α : Type} {result : Except Fault α}

theorem Fault.not_unresolved {fault : Fault} (calm : ¬fault.Structural) : ¬fault.Unresolved :=
  fun unresolved => calm unresolved.static.structural

theorem Ends.found (calm : Calm result) : Found result :=
  calm.mono (fun _ holds => holds) fun _ => Fault.not_unresolved

theorem Ends.framed_found (framed : Framed result) : Found result :=
  framed.mono (fun _ holds => holds) fun _ => Fault.OfFrame.not_unresolved

end Results

namespace Resolves

variable {α β : Type} {step : Step α}

theorem pure (value : α) : Resolves (Pure.pure value) :=
  fun _ => .pure trivial

theorem throw {fault : Fault} (known : ¬fault.Unresolved) :
    Resolves (MonadExcept.throw ⟨fault, []⟩ : Step α) :=
  fun _ => .throw known

theorem bind {next : α → Step β} (first : Resolves step) (second : ∀ value, Resolves (next value)) :
    Resolves (step >>= next) :=
  fun state => (first state).bind fun value after _ _ => second value after

theorem discard (resolves : Resolves step) : Resolves (Functor.discard step) :=
  fun state => (resolves state).discard

theorem computed {result : Except Fault α} (found : Found result) :
    Resolves (Step.ofExcept result) :=
  fun _ => .ofExcept found

/-- A computation before the rest, which is judged for its value. -/
theorem computed_bind {result : Except Fault α} {next : α → Step β} (found : Found result)
    (rest : ∀ value, result = .ok value → Resolves (next value)) :
    Resolves (Step.ofExcept result >>= next) :=
  fun state => .ofExcept_bind found fun value same _ => rest value same state

/-- A computation that gives a value, before the rest. -/
theorem known_bind {result : Except Fault α} {value : α} {next : α → Step β}
    (same : result = .ok value) (rest : Resolves (next value)) :
    Resolves (Step.ofExcept result >>= next) :=
  fun state => .ofExcept_ok same (rest state)

theorem framed {result : Except Fault α} (framed : Framed result) :
    Resolves (Step.ofExcept result) :=
  computed (Ends.framed_found framed)

theorem onStreams {operation : StreamStep Codec α} (quiet : Quiet operation) :
    Resolves (Step.onStreams operation) := by
  intro state
  have kept : Keeps .resolving (fun _ _ => True) operation (state.1.streams, state.2) :=
    Leads.mono (quiet _) (fun _ _ holds => holds)
      fun _ _ mild => ⟨fun unresolved => mild.1 unresolved.static, trivial⟩
  exact Keeps.onStreams kept

theorem onLists {act : Lists → Except Fault (α × Lists)} (found : ∀ lists, Found (act lists)) :
    Resolves (Step.onLists act) :=
  fun state => .onLists ((found state.1.lists).mono (fun _ _ => ⟨trivial, trivial⟩)
    fun _ holds => holds)

theorem look (question : Machine → α) : Resolves (Step.look question) :=
  fun state => .of_ok (Step.run_look question state.1) (Contract.refl _ state) trivial

theorem guarded (config : Config) (depth : Nat) (site : Site) (resolves : Resolves step) :
    Resolves (Step.guarded config depth site step) :=
  fun state => (resolves state).guarded config depth site

/-! ### Loops -/

variable {body : Step Unit}

theorem repeatBody (each : Resolves body) (count : Nat) : Resolves (repeatBody body count) :=
  fun _ => .repeatBody (fun inner _ => each inner) count

theorem withProgress (each : Resolves body) (view : View) : Resolves (withProgress view body) :=
  fun state => (Keeps.withProgress (fun unresolved => unresolved) (each state)).mono
    fun _ _ _ _ => trivial

theorem untilTerminator (each : Resolves body) (view : View) (terminator : Bytes) (fuel : Nat) :
    Resolves (untilTerminator view terminator body fuel) := by
  induction fuel with
  | zero => exact throw id
  | succ fuel hypothesis =>
    rw [untilTerminator_succ]
    refine (onStreams (view.approach_quiet terminator)).bind fun approach => ?_
    cases approach with
    | ended => exact pure ()
    | reached => exact pure ()
    | ahead => exact (each.withProgress view).bind fun _ => hypothesis

theorem throughCursor (each : Resolves body) (cursor : View) (fuel : Nat) :
    Resolves (throughCursor cursor body fuel) := by
  induction fuel with
  | zero => exact throw id
  | succ fuel hypothesis =>
    refine (look _).bind fun ended => ?_
    split
    · exact pure ()
    · exact (each.withProgress cursor).bind fun _ => hypothesis

end Resolves

/-! ### Parts of instructions -/

section Parts

variable (view : View) (name : Json) (frame : Frame)

theorem readScalar_resolves : Resolves (readScalar view name) :=
  (Resolves.computed (Ends.found (requirePrimitive_calm name))).bind fun primitive =>
    (Resolves.onStreams (view.readExact_quiet _)).bind fun bytes =>
      .computed (Ends.found (scalarOfBytes_calm primitive bytes))

theorem readArray_resolves (count : Option Nat) (allowPartialTail : Bool) :
    Resolves (readArray view name count allowPartialTail) := by
  refine (Resolves.computed (Ends.found (requirePrimitive_calm name))).bind fun primitive => ?_
  have array : ∀ bytes, Resolves (Step.ofExcept (arrayOfBytes primitive bytes)) :=
    fun bytes => .computed (Ends.found (arrayOfBytes_calm primitive bytes))
  cases count with
  | some count => exact (Resolves.onStreams (view.readExact_quiet _)).bind array
  | none =>
    refine (Resolves.onStreams view.readToEnd_quiet).bind fun bytes => ?_
    dsimp only
    split
    · exact Resolves.bind (fun state => .warn _) fun _ => array _
    · exact array bytes

theorem readMember_resolves (entry : TypeEntry) : Resolves (readMember view entry name) := by
  refine (Resolves.computed (Ends.found (requirePrimitive_calm name))).bind fun primitive => ?_
  split
  · exact (Resolves.onStreams (view.readExact_quiet _)).bind fun bytes =>
      .computed (Ends.found (entry.ofDiscriminant_calm _))
  · split
    · exact .throw id
    · exact .throw id

theorem countIn_resolves (what : String) (register : Register) :
    Resolves (countIn frame what register) :=
  (Resolves.framed (frame.get_framed register)).bind fun value =>
    .computed (Ends.found (countOf_calm what value))

theorem conditionHolds_resolves (condition : Register) :
    Resolves (conditionHolds frame condition) :=
  (Resolves.framed (frame.get_framed condition)).bind fun value => (Resolves.look _).bind fun lists =>
    .computed (Ends.found (value.truth_calm lists))

theorem newList_resolves : Resolves newList :=
  .onLists fun _ => trivial

theorem addOutput_resolves (output item : Register) : Resolves (addOutput frame output item) := by
  refine (Resolves.framed (frame.get_framed output)).bind fun list => ?_
  split
  · exact (Resolves.framed (frame.get_framed item)).bind fun value => .onLists fun _ => trivial
  · exact .throw id

theorem set_resolves (register : Register) (value : Value) :
    Resolves (Step.ofExcept (frame.set register value)) :=
  .framed (frame.set_framed register value)

theorem evaluate_resolves (program : Program) (expression : Expression) :
    Resolves (Step.onLists (expression.evaluate (program.fieldValue frame))) := by
  refine .onLists fun lists => ?_
  have ends : Ends (expression.evaluate (program.fieldValue frame) lists)
      (fun result => Lists.Kept [] lists result.2) fun fault => ¬fault.Unresolved :=
    expression.evaluate_ends (fun _ computed => Fault.not_unresolved computed.not_structural) _ _
      fun _ name => Ends.framed_found (program.fieldValue_framed frame name)
  exact ends.mono (fun _ _ => trivial) fun _ holds => holds

theorem build_resolves (types : Types) (constructable : Constructable) :
    Resolves (Step.ofExcept (constructable.build types frame)) :=
  .computed (constructable.build_ends
    (fun _ computed => Fault.not_unresolved computed.not_structural) types fun register _ =>
      Ends.framed_found (frame.get_framed register))

end Parts

/-! ### Instructions and blocks -/

/-- An instruction whose name is registered, and that refers to a message whose run finds every
name. -/
def Instruction.Settled (types : Types) (refer : Referral) : Instruction → Prop
  | .decodeReference _ _ name _ => ∃ message, types.require name = .ok (.message message) ∧
      ∀ view values, Resolves (refer message view values)
  | .decodeEnumeration name _ _ _ => ∃ entry, types.require name = .ok entry
  | _ => True

section Blocks

variable {environment : Environment} {refer : Referral}

mutual

/-- **One instruction** finds every name. -/
theorem Instruction.run_resolves : ∀ (instruction : Instruction) (frame : Frame),
    (∀ part ∈ instruction.parts, part.Settled environment.types refer) →
      Resolves (instruction.run environment refer frame)
  | .eval target expression, frame, _ =>
    (evaluate_resolves frame _ expression).bind fun value => set_resolves frame target value
  | .construct target constructable, frame, _ =>
    (build_resolves frame _ constructable).bind fun value => set_resolves frame target value
  | .constrict stream newStream length, frame, _ =>
    (Resolves.framed (frame.target_framed stream)).bind fun view =>
      (countIn_resolves frame _ length).bind fun count =>
        (Resolves.onStreams (.openedBy _)).bind fun bounded => set_resolves frame newStream _
  | .wrapStream stream newStream transform arguments, frame, _ =>
    (Resolves.framed (frame.target_framed stream)).bind fun view =>
      (Resolves.framed (frame.getMany_framed arguments)).bind fun values =>
        (Resolves.onStreams (transform.wrap_quiet view values)).bind fun wrapped =>
          set_resolves frame newStream _
  | .conditionalWrapStream condition prelude stream newStream transform arguments, frame,
      settled => by
    refine (Resolves.framed (frame.target_framed stream)).bind fun view =>
      (conditionHolds_resolves frame condition).bind fun holds => ?_
    split
    · exact (runBlock_resolves prelude 0 (frame.child none []) fun part member =>
        settled part (List.mem_cons_of_mem _ member)).bind fun inner =>
          (Resolves.framed (inner.getMany_framed arguments)).bind fun values =>
            (Resolves.onStreams (transform.wrap_quiet view values)).bind fun wrapped =>
              set_resolves frame newStream _
    · exact set_resolves frame newStream _
  | .decodeForeign target data foreign arguments, frame, _ =>
    (Resolves.framed (frame.target_framed target)).bind fun view =>
      (Resolves.framed (frame.getMany_framed arguments)).bind fun values =>
        (Resolves.onStreams (foreign.decode_quiet view values _)).bind fun value =>
          set_resolves frame data value
  | .decodeReference target data name arguments, frame, settled => by
    obtain ⟨message, required, resolves⟩ := settled _ (Instruction.mem_parts _)
    refine (Resolves.framed (frame.target_framed target)).bind fun view =>
      .known_bind required ((Resolves.framed (frame.getMany_framed arguments)).bind fun values => ?_)
    refine .computed_bind (Ends.found (TypeEntry.inPlace_calm _)) fun named entered => ?_
    cases TypeEntry.inPlace_eq_ok entered
    exact (resolves view values).bind fun value => set_resolves frame data value
  | .decodeEnumeration name backing data target, frame, settled => by
    obtain ⟨entry, required⟩ := settled _ (Instruction.mem_parts _)
    exact (Resolves.framed (frame.target_framed target)).bind fun view =>
      .known_bind required ((readMember_resolves view backing entry).bind fun value =>
        set_resolves frame data value)
  | .decodePrimitive target data primitive, frame, _ =>
    (Resolves.framed (frame.target_framed target)).bind fun view =>
      (readScalar_resolves view primitive).bind fun value => set_resolves frame data value
  | .decodeArray target data primitive none, frame, _ =>
    (Resolves.framed (frame.target_framed target)).bind fun view =>
      (readArray_resolves view primitive none _).bind fun value => set_resolves frame data value
  | .decodeArray target data primitive (some length), frame, _ =>
    (Resolves.framed (frame.target_framed target)).bind fun view =>
      (countIn_resolves frame _ length).bind fun count =>
        (readArray_resolves view primitive (some count) _).bind fun value =>
          set_resolves frame data value
  | .loop _ (some _) (some _) _ _, _, _ => .throw id
  | .loop _ (some stop) none output body, frame, settled =>
    (countIn_resolves frame _ stop).bind fun count => newList_resolves.bind fun list =>
      (set_resolves frame output list).bind fun outer =>
        ((runBlock_resolves body 0 (outer.child none []) fun part member =>
          settled part (List.mem_cons_of_mem _ member)).discard.repeatBody count).bind
            fun _ => .pure outer
  | .loop target none (some terminator) output body, frame, settled => by
    refine (Resolves.framed (frame.target_framed target)).bind fun view =>
      (Resolves.framed (frame.get_framed terminator)).bind fun value =>
        (Resolves.look _).bind fun lists => (Resolves.look _).bind fun bound =>
          (Resolves.computed (Ends.found (value.toBytes_calm lists _))).bind fun ending => ?_
    split
    · exact .throw id
    · exact newList_resolves.bind fun list => (set_resolves frame output list).bind fun outer =>
        ((runBlock_resolves body 0 (outer.child none []) fun part member =>
          settled part (List.mem_cons_of_mem _ member)).discard.untilTerminator view ending _).bind
            fun _ => .pure outer
  | .loop target none none output body, frame, settled =>
    (Resolves.framed (frame.target_framed target)).bind fun view =>
      (Resolves.onStreams view.readToEnd_quiet).bind fun content =>
        (Resolves.onStreams (.openedBy _)).bind fun cursor => newList_resolves.bind fun list =>
          (set_resolves frame output list).bind fun outer =>
            ((runBlock_resolves body 0 (cursorFrame outer target cursor) fun part member =>
              settled part (List.mem_cons_of_mem _ member)).discard.throughCursor cursor _).bind
                fun _ => .pure outer
  | .loopOutput output item, frame, _ =>
    (addOutput_resolves frame output item).bind fun _ => .pure frame
  | .conditional target interior condition body, frame, settled => by
    refine (conditionHolds_resolves frame condition).bind fun holds => ?_
    split
    · exact (runBlock_resolves body 0 (frame.child none []) fun part member =>
        settled part (List.mem_cons_of_mem _ member)).bind fun inner =>
          (Resolves.framed (inner.get_framed interior)).bind fun value =>
            set_resolves frame target value
    · exact set_resolves frame target .none

/-- **A block** finds every name. -/
theorem runBlock_resolves : ∀ (block : List Instruction) (index : Nat) (frame : Frame),
    (∀ part ∈ blockParts block, part.Settled environment.types refer) →
      Resolves (runBlock environment refer block index frame)
  | [], _, frame, _ => .pure frame
  | instruction :: rest, index, frame, settled =>
    Resolves.bind (fun _ => .record _ _ _ _ _) fun _ =>
      ((instruction.run_resolves frame fun part member =>
        settled part (List.mem_append_left _ member)).guarded _ _ _).bind fun next =>
          runBlock_resolves rest (index + 1) next fun part member =>
            settled part (List.mem_append_right _ member)

end

theorem Environment.decode_resolves (environment : Environment)
    (settled : ∀ part ∈ blockParts environment.program.instructions,
      part.Settled environment.types refer)
    {opening : Except Fault View} (found : Found opening) (values : List Value) :
    Resolves (environment.decode refer opening values) :=
  (Resolves.framed (bindArguments_framed _ values)).bind fun frame =>
    (Resolves.computed found).bind fun view =>
      (runBlock_resolves _ 0 (frame.bindReader view) settled).bind fun inner =>
        (Resolves.computed (Ends.found environment.program.outputRegister_calm)).bind fun output =>
          .framed (inner.get_framed output)

end Blocks

/-! ### Whole runs -/

/-- A program that the check accepts. -/
def Linked.Accepted (mode : String) (linked : Linked) : Prop :=
  ∃ execution, compile linked.program linked.types mode = .ok execution

theorem Linked.Accepted.settled {mode : String} {linked : Linked} {refer : Referral}
    (accepted : linked.Accepted mode)
    (refers : ∀ message, linked.Names message → ∀ view values, Resolves (refer message view values)) :
    ∀ part ∈ blockParts linked.program.instructions, part.Settled linked.types refer := by
  obtain ⟨execution, accepted⟩ := accepted
  intro part member
  have resolved := resolved_of_compile accepted part member
  cases part with
  | decodeReference target data name arguments =>
    obtain ⟨message, required, -⟩ := resolved
    exact ⟨message, required, refers message ⟨target, data, name, arguments, member, required⟩⟩
  | decodeEnumeration name backing data target =>
    obtain ⟨enumeration, required⟩ := resolved
    exact ⟨_, required⟩
  | _ => trivial

/-- **A message** finds every name if the check accepts it and all that it reaches. -/
theorem decodeMessage_resolves (mode : String) (config : Config) (depth : Nat) (types : Types)
    (message : MessageType)
    (accepted : (Linked.ofMessage message types).Throughout (Linked.Accepted mode)) (view : View)
    (values : List Value) : Resolves (decodeMessage types mode config depth message view values) := by
  induction depth generalizing types message view values with
  | zero => exact .throw id
  | succ depth hypothesis =>
    exact Environment.decode_resolves
      ⟨message.program, message.visible types, mode, config⟩
      (accepted.here.settled fun other names => hypothesis _ other (accepted.message names))
      (show Found (.ok view) from trivial) values

/-- **Names that are registered.** A program is accepted for a mode and run over any source. Wherever
the run comes to, at any depth of blocks and of references, if the program that it stands in is
accepted as well, as that of the run is, then the instruction that it stands before finds its name: a
reference finds a message with the entry points that the run needs, and the type of an enumeration is
one. So a run that fails for a name that is not registered has come to a message whose program the
check refuses. -/
theorem decode_resolved (environment : Environment) (execution : Execution)
    (accepted : compile environment.program environment.types environment.mode = .ok execution)
    (source : RunSource) (values : List Value) (machine : Machine) :
    (∀ station, environment.Visits source values machine station →
      (station.environment.program = environment.program ∧
          station.environment.types = environment.types ∨
        compile station.environment.program station.environment.types environment.mode =
          .ok execution) →
        ∀ instruction rest, station.block = instruction :: rest →
          instruction.Resolved station.environment.types execution) ∧
      ∀ failure after, (decodeWith environment source values).run machine = (.error failure, after) →
        failure.fault.Unresolved → ∃ other : Linked,
          (Linked.mk environment.program environment.types).Reaches other ∧
            ¬other.Accepted environment.mode := by
  constructor
  · intro station visits here instruction rest block
    have inside := visits.placed.inside
    have checked : compile station.environment.program station.environment.types environment.mode =
        .ok execution := by
      rcases here with ⟨program, types⟩ | checked
      · rw [program, types]
        exact accepted
      · exact checked
    rw [block] at inside
    exact resolved_of_compile checked _
      (inside _ (List.mem_append_left _ (Instruction.mem_parts instruction)))
  · intro failure after failed unresolved
    by_contra none
    have all : (Linked.mk environment.program environment.types).Throughout
        (Linked.Accepted environment.mode) := by
      intro other reaches
      by_contra refused
      exact none ⟨other, reaches, refused⟩
    have resolves := environment.decode_resolves
      (all.here.settled fun message names => decodeMessage_resolves environment.mode
        environment.config (environment.types.length + nestingLimit) environment.types message
        (all.message names))
      (Ends.found (source.open_calm environment.mode)) values
    exact (resolves (machine, ())).error failed unresolved

/-! ### A name that is not registered -/

/-- A byte, and then a message that refers to a name under which nothing is registered. -/
def danglingReference : Environment where
  program := Examples.programOf 2
    [Examples.scalar 0 "u8", .decodeReference .direct (Examples.register 1) "Inner" []]
  types := [("Inner", .message
    { name := "Inner"
      program := Examples.programOf 1
        [.decodeReference .direct (Examples.register 0) "Missing" []] })]
  mode := "blocking"
  config := {}

/-- A source of one byte. -/
def oneByte : Machine where
  streams := (Streams.openSource {} .blocking ⟨[.bytes [7]], 0⟩).2

theorem compile_danglingReference : compile danglingReference.program danglingReference.types
    danglingReference.mode = .ok .blocking := rfl

theorem decode_danglingReference :
    ∃ after, (decodeWith danglingReference ⟨.source .blocking 0, true⟩ []).run oneByte =
      (.error ⟨.program (.unregisteredType "Missing"), []⟩, after) := ⟨_, rfl⟩

/-- The message that is referred to is one that the check refuses. -/
theorem decode_resolved_of_danglingReference :
    ∃ other : Linked, (Linked.mk danglingReference.program danglingReference.types).Reaches other ∧
      ¬other.Accepted "blocking" := by
  obtain ⟨after, failed⟩ := decode_danglingReference
  exact (decode_resolved danglingReference .blocking compile_danglingReference
    ⟨.source .blocking 0, true⟩ [] oneByte).2 _ after failed trivial

/-- **The check does not go into the messages that a program refers to:** it accepts a program whose
run reads a byte and then fails for a name that is not registered. -/
theorem compile_overlooks_references :
    compile danglingReference.program danglingReference.types danglingReference.mode =
        .ok .blocking ∧
      ∃ after, (decodeWith danglingReference ⟨.source .blocking 0, true⟩ []).run oneByte =
          (.error ⟨.program (.unregisteredType "Missing"), []⟩, after) ∧
        (View.source .blocking 0).position after.streams = 1 :=
  ⟨rfl, _, rfl, rfl⟩

end WireProgram
