/-
**Messages that delimit themselves.**

A program that reads nothing but scalars, enumerations, arrays and texts of a given length, and loops
only by a count, knows from the bytes that it consumed where its message ends. What follows the
message does not matter to it, and no part of the message that is not all of it is taken for a
message. The main definitions and statements:

* `Linked.SelfDelimiting`, such a program;
* `Instruction.run_delimited` and `runBlock_delimited`, one instruction and a block;
* `decodeMessage_delimited`, a message that is referred to;
* `decode_selfDelimiting`, whole runs.
-/

import WireProgram.Examples
import WireProgram.Proofs.Delimited.Step

namespace WireProgram

variable {α β : Type} {root : Nat} {cut : Prop} {machine after : Machine} {frame : Frame}
  {good : α → Machine → Prop} {better : β → Machine → Prop} {view : View}

/-! ### Frames of the first run -/

/-- A frame over a fair root whose streams do not run it through a codec. -/
structure Frame.Ready (root : Nat) (machine : Machine) (frame : Frame) : Prop where
  fair : (machine.streams.sources.get root).Fair
  steady : frame.Steady root machine

namespace Frame.Ready

theorem later {count : Nat} (ready : frame.Ready root machine)
    (spends : (Machine.pursuit root cut).spends count machine after) : frame.Ready root after :=
  ⟨spends.2.fair ready.fair, ready.steady.later spends.1⟩

theorem child (ready : frame.Ready root machine) : (frame.child none []).Ready root machine :=
  ⟨ready.fair, ready.steady.inner⟩

theorem target {target : Target} (ready : frame.Ready root machine)
    (found : frame.target target = .ok view) : view.Steady root machine.streams :=
  ready.steady.target found

end Frame.Ready

namespace Delimited

/-- Sequencing, with a frame that stays ready. -/
theorem bind_ready {step : Step α} {next : α → Step β}
    (first : Delimited (Machine.pursuit root cut) good step machine)
    (ready : frame.Ready root machine)
    (rest : ∀ value after, frame.Ready root after → good value after →
      Delimited (Machine.pursuit root cut) better (next value) after) :
    Delimited (Machine.pursuit root cut) better (step >>= next) machine :=
  first.bind fun value _ after spends holds => rest value after (ready.later spends) holds

/-- Writing a register. -/
theorem set (ready : frame.Ready root machine) {register : Register} {value : Value}
    (holds : value.Steady root machine) :
    Delimited (Machine.pursuit root cut) (fun frame after => frame.Ready root after)
      (Step.ofExcept (frame.set register value)) machine :=
  ofExcept fun _ same => ⟨ready.fair, ready.steady.set same holds⟩

end Delimited

/-! ### Reading -/

theorem readScalar_delimited (ready : frame.Ready root machine)
    (steady : view.Steady root machine.streams) (name : Json) :
    Delimited (Machine.pursuit root cut) (fun value _ => value.Inert) (readScalar view name)
      machine := by
  refine Delimited.ofExcept_bind fun primitive _ => ?_
  refine (Delimited.onStreams (View.readExact_delimited steady ready.fair _)).bind
    fun bytes _ _ _ _ => ?_
  exact Delimited.ofExcept fun _ same => (scalarOfBytes_inert primitive bytes).ok same

theorem readCounted_delimited (ready : frame.Ready root machine)
    (steady : view.Steady root machine.streams) (name : Json) (count : Nat)
    (allowPartialTail : Bool) :
    Delimited (Machine.pursuit root cut) (fun value _ => value.Inert)
      (readArray view name (some count) allowPartialTail) machine := by
  refine Delimited.ofExcept_bind fun primitive _ => ?_
  refine (Delimited.onStreams (View.readExact_delimited steady ready.fair _)).bind
    fun bytes _ _ _ _ => ?_
  exact Delimited.ofExcept fun _ same => (arrayOfBytes_inert primitive bytes).ok same

theorem readMember_delimited (ready : frame.Ready root machine)
    (steady : view.Steady root machine.streams) (entry : TypeEntry) (backing : Json) :
    Delimited (Machine.pursuit root cut) (fun value _ => value.Inert)
      (readMember view entry backing) machine := by
  refine Delimited.ofExcept_bind fun primitive _ => ?_
  split
  · refine (Delimited.onStreams (View.readExact_delimited steady ready.fair _)).bind
      fun bytes _ _ _ _ => ?_
    exact Delimited.ofExcept fun _ same => (entry.ofDiscriminant_inert _).ok same
  · split
    · exact .throw
    · exact .throw

/-- A type that knows where its value ends: an integer, or a text whose length is given. -/
def ForeignType.SelfDelimiting (foreign : ForeignType) (count : Nat) : Prop :=
  Prelude.hasType foreign = true ∧ ((∃ bits, foreign.action = .varint bits) ∨ 0 < count)

section Foreign

variable {streams : Streams Codec}

theorem readGroups_delimited (steady : view.Steady root streams)
    (fair : (streams.sources.get root).Fair) (name : String) (bits count index total : Nat) :
    Delimited (Streams.pursuit Codec root cut) (fun value _ => value.Inert)
      (readGroups name bits view count index total) streams := by
  induction count generalizing index total streams with
  | zero => exact .throw
  | succ count hypothesis =>
    refine (View.readExact_delimited steady fair 1).bind fun bytes _ after spends _ => ?_
    dsimp only
    split
    · exact hypothesis (steady.later spends.1) (spends.2.fair fair) _ _
    · split
      · exact .pure nofun
      · exact .throw

/-- Arguments give the length of a text, or there is a fault. -/
theorem textLength?_eq_ok {name : String} {arguments : List Value} (given : 0 < arguments.length)
    {length : Option Nat} (same : textLength? name arguments = .ok length) :
    ∃ count, length = some count := by
  match arguments with
  | [] => exact absurd given (Nat.lt_irrefl 0)
  | [argument] =>
    unfold textLength? at same
    dsimp only at same
    cases whole : argument.toInteger? with
    | none =>
      rw [whole] at same
      cases same
    | some value =>
      rw [whole] at same
      dsimp only at same
      split at same
      · cases same
      · cases same
        exact ⟨_, rfl⟩
  | first :: second :: rest => cases same

/-- A computation that does not touch the streams, before the rest. -/
theorem delimited_ofExcept_bind {result : Except Fault α} {next : α → StreamStep Codec β}
    {holds : β → Streams Codec → Prop}
    (rest : ∀ value, result = .ok value →
      Delimited (Streams.pursuit Codec root cut) holds (next value) streams) :
    Delimited (Streams.pursuit Codec root cut) holds (StreamStep.ofExcept result >>= next)
      streams := by
  cases result with
  | ok value =>
    have ran : ∀ streams : Streams Codec, (StreamStep.ofExcept (.ok value) >>= next).run streams =
        (next value).run streams := by
      intro streams
      rw [run_bind]
      rfl
    unfold Delimited
    simp only [ran]
    exact rest value rfl
  | error fault =>
    have ran : (StreamStep.ofExcept (.error fault) >>= next).run streams =
        (.error fault, streams) := by
      rw [run_bind]
      rfl
    exact Delimited.of_error ran

/-- **Built-in types** with a length, where they take one, know where they end. -/
theorem ForeignType.decode_delimited {foreign : ForeignType} {arguments : List Value}
    (closed : foreign.SelfDelimiting arguments.length) (steady : view.Steady root streams)
    (fair : (streams.sources.get root).Fair) (mode : String) :
    Delimited (Streams.pursuit Codec root cut) (fun value _ => value.Inert)
      (foreign.decode view arguments mode) streams := by
  obtain ⟨builtIn, closed⟩ := closed
  unfold ForeignType.decode
  rcases Prelude.hasType_cases builtIn with ⟨bits, action⟩ | action | action
  · simp only [action]
    split
    · exact readGroups_delimited steady fair _ _ _ _ _
    · exact .throw
  · have given : 0 < arguments.length := closed.resolve_left (by simp [action])
    simp only [action]
    refine delimited_ofExcept_bind fun length same => ?_
    obtain ⟨count, rfl⟩ := textLength?_eq_ok given same
    refine (View.readExact_delimited steady fair count).bind fun bytes _ _ _ _ => ?_
    split
    · exact .pure nofun
    · exact .throw
  · have given : 0 < arguments.length := closed.resolve_left (by simp [action])
    simp only [action]
    refine delimited_ofExcept_bind fun length same => ?_
    obtain ⟨count, rfl⟩ := textLength?_eq_ok given same
    refine (View.readExact_delimited steady fair (count * 2)).bind fun bytes _ _ _ _ => ?_
    split
    · exact .pure nofun
    · exact .throw

end Foreign

/-! ### Parts of instructions -/

theorem countIn_delimited (what : String) (register : Register) :
    Delimited (Machine.pursuit root cut) (fun _ _ => True) (countIn frame what register) machine :=
  Delimited.ofExcept_bind fun _ _ => Delimited.ofExcept fun _ _ => trivial

theorem conditionHolds_delimited (condition : Register) :
    Delimited (Machine.pursuit root cut) (fun _ _ => True) (conditionHolds frame condition)
      machine :=
  Delimited.ofExcept_bind fun _ _ => Delimited.look_bind (fun _ _ shares => shares.lists) <| by
    exact Delimited.ofExcept fun _ _ => trivial

theorem newList_delimited :
    Delimited (Machine.pursuit root cut) (fun value _ => value.Inert) newList machine :=
  Delimited.onLists fun _ same => by
    cases same
    exact nofun

theorem addOutput_delimited (output item : Register) :
    Delimited (Machine.pursuit root cut) (fun _ _ => True) (addOutput frame output item)
      machine := by
  refine Delimited.ofExcept_bind fun list _ => ?_
  split
  · exact Delimited.ofExcept_bind fun value _ => Delimited.onLists fun _ _ => trivial
  · exact .throw

theorem evaluate_delimited (ready : frame.Ready root machine) (program : Program)
    (expression : Expression) :
    Delimited (Machine.pursuit root cut) (fun value after => value.Steady root after)
      (Step.onLists (expression.evaluate (program.fieldValue frame))) machine := by
  refine Delimited.onLists fun result same => ?_
  rcases (expression.evaluate_inert _ _).ok same with inert | ⟨name, found⟩
  · exact inert.steady _
  · obtain ⟨register, -, holds⟩ := Program.fieldValue_eq_ok found
    exact fun view isStream => ready.steady.get (isStream ▸ holds)

theorem openTake_delimited (steady : view.Steady root machine.streams) (limit : Int) :
    Delimited (Machine.pursuit root cut) (fun opened after => opened.Steady root after.streams)
      (Step.onStreams (openedBy fun streams => streams.openTake view limit)) machine := by
  have opened : Delimited (Streams.pursuit Codec root cut)
      (fun opened streams => opened.Steady root streams)
      (openedBy fun streams => streams.openTake view limit) machine.streams := by
    refine Delimited.of_ok rfl ⟨⟨rfl, ?_⟩, .refl _⟩ (steady.openTake limit) ?_
    · show machine.streams.bounds.size ≤ (machine.streams.bounds.push _).size
      exact Nat.le_of_lt (Table.size_lt_push _ _)
    · intro shared right differ
      have same : (right.openTake view limit).1 = (machine.streams.openTake view limit).1 := by
        rw [Streams.openTake, Streams.openTake, differ.bounds]
      refine ⟨(right.openTake view limit).2, Prod.ext (congrArg Except.ok same) rfl, differ.driver,
        differ.source, differ.others, differ.cursors, ?_, differ.transforms⟩
      exact congrArg (Table.push · _) differ.bounds
  exact Delimited.onStreams opened

theorem repeatBody_delimited {body : Step Unit} (ready : frame.Ready root machine)
    (each : ∀ machine, frame.Ready root machine →
      Delimited (Machine.pursuit root cut) (fun _ _ => True) body machine) (count : Nat) :
    Delimited (Machine.pursuit root cut) (fun _ _ => True) (repeatBody body count) machine := by
  induction count generalizing machine with
  | zero => exact .pure trivial
  | succ count hypothesis =>
    exact (each machine ready).bind_ready ready fun _ _ ready' _ => hypothesis ready'

/-! ### Instructions and blocks -/

/-- How a message that is referred to must run: so that it knows where it ends. -/
def Referral.Delimited (root : Nat) (cut : Prop) (refer : Referral) (message : MessageType) : Prop :=
  ∀ view values machine, (machine.streams.sources.get root).Fair →
    view.Steady root machine.streams → (∀ value ∈ values, value.Steady root machine) →
      WireProgram.Delimited (Machine.pursuit root cut) (fun value after => value.Steady root after)
        (refer message view values) machine

/-- An instruction that reads no more than what the bytes before have told it to, and refers to
messages that are good. -/
def Instruction.SelfDelimiting (types : Types) (good : MessageType → Prop) : Instruction → Prop
  | .wrapStream .. | .conditionalWrapStream .. => False
  | .decodeForeign _ _ foreign arguments => foreign.SelfDelimiting arguments.length
  | .decodeArray _ _ _ length => length.isSome = true
  | .loop _ stop _ _ _ => stop.isSome = true
  | .decodeReference _ _ name _ =>
    ∀ message, types.require name = .ok (.message message) → good message
  | _ => True

section Blocks

variable {refer : Referral} {environment : Environment}

mutual

/-- **One instruction** knows where it ends. -/
theorem Instruction.run_delimited : ∀ (instruction : Instruction) (frame : Frame)
    (machine : Machine), (∀ part ∈ instruction.parts,
      part.SelfDelimiting environment.types (refer.Delimited root cut)) →
        frame.Ready root machine →
          Delimited (Machine.pursuit root cut) (fun frame after => frame.Ready root after)
            (instruction.run environment refer frame) machine
  | .eval target expression, frame, machine, closed, ready =>
    (evaluate_delimited ready environment.program expression).bind_ready ready
      fun _ _ ready' holds => .set ready' holds
  | .construct target constructable, frame, machine, closed, ready =>
    Delimited.ofExcept_bind fun value same =>
      .set ready (((constructable.build_inert _ _).ok same).steady machine)
  | .constrict stream newStream length, frame, machine, closed, ready => by
    refine Delimited.ofExcept_bind fun view found => ?_
    refine (countIn_delimited _ length).bind_ready ready fun count _ ready' _ => ?_
    refine (openTake_delimited (ready'.target found) count).bind_ready ready'
      fun opened _ ready'' holds => ?_
    exact .set ready'' fun view same => Value.stream.inj same ▸ holds
  | .wrapStream .., frame, machine, closed, ready =>
    (closed _ (Instruction.mem_parts _)).elim
  | .conditionalWrapStream .., frame, machine, closed, ready =>
    (closed _ (Instruction.mem_parts _)).elim
  | .decodeForeign target data foreign arguments, frame, machine, closed, ready => by
    refine Delimited.ofExcept_bind fun view found => ?_
    refine Delimited.ofExcept_bind fun values many => ?_
    have closedHere : foreign.SelfDelimiting arguments.length := closed _ (Instruction.mem_parts _)
    rw [← Frame.length_getMany many] at closedHere
    exact (Delimited.onStreams (foreign.decode_delimited closedHere (ready.target found) ready.fair
      environment.mode)).bind_ready ready fun _ after ready' inert => .set ready' (inert.steady after)
  | .decodeReference target data name arguments, frame, machine, closed, ready => by
    refine Delimited.ofExcept_bind fun view found => ?_
    refine Delimited.ofExcept_bind fun entry required => ?_
    refine Delimited.ofExcept_bind fun values many => ?_
    refine Delimited.ofExcept_bind fun message inPlace => ?_
    obtain rfl := TypeEntry.inPlace_eq_ok inPlace
    have delimited : refer.Delimited root cut message :=
      closed _ (Instruction.mem_parts _) message required
    exact (delimited view values machine ready.fair (ready.target found)
      (ready.steady.getMany many)).bind_ready ready fun _ _ ready' holds => .set ready' holds
  | .decodeEnumeration enumeration backing data target, frame, machine, closed, ready => by
    refine Delimited.ofExcept_bind fun view found => ?_
    refine Delimited.ofExcept_bind fun entry _ => ?_
    exact (readMember_delimited ready (ready.target found) entry backing).bind_ready ready
      fun _ after ready' inert => .set ready' (inert.steady after)
  | .decodePrimitive target data primitive, frame, machine, closed, ready => by
    refine Delimited.ofExcept_bind fun view found => ?_
    exact (readScalar_delimited ready (ready.target found) primitive).bind_ready ready
      fun _ after ready' inert => .set ready' (inert.steady after)
  | .decodeArray _ _ _ none, frame, machine, closed, ready =>
    absurd (closed _ (Instruction.mem_parts _)) Bool.false_ne_true
  | .decodeArray target data primitive (some length), frame, machine, closed, ready => by
    refine Delimited.ofExcept_bind fun view found => ?_
    refine (countIn_delimited _ length).bind_ready ready fun count _ ready' _ => ?_
    exact (readCounted_delimited ready' (ready'.target found) primitive count _).bind_ready ready'
      fun _ after ready'' inert => .set ready'' (inert.steady after)
  | .loop _ (some _) (some _) _ _, frame, machine, closed, ready => .throw
  | .loop target (some stop) none output body, frame, machine, closed, ready => by
    have closedBody : ∀ part ∈ blockParts body,
        part.SelfDelimiting environment.types (refer.Delimited root cut) :=
      fun part member => closed part (List.mem_cons_of_mem _ member)
    refine (countIn_delimited _ stop).bind_ready ready fun count _ ready' _ => ?_
    refine newList_delimited.bind_ready ready' fun list after ready'' inert => ?_
    refine (Delimited.set ready'' (inert.steady after)).bind fun outer _ _ _ readyOuter => ?_
    refine (repeatBody_delimited readyOuter (fun inner readyInner => ?_) count).bind_ready readyOuter
      fun _ _ readyLater _ => .pure readyLater
    exact (runBlock_delimited body 0 (outer.child none []) inner closedBody
      readyInner.child).discard
  | .loop _ none _ _ _, frame, machine, closed, ready =>
    absurd (closed _ (Instruction.mem_parts _)) Bool.false_ne_true
  | .loopOutput output item, frame, machine, closed, ready =>
    (addOutput_delimited output item).bind_ready ready fun _ _ ready' _ => .pure ready'
  | .conditional target interior condition body, frame, machine, closed, ready => by
    have closedBody : ∀ part ∈ blockParts body,
        part.SelfDelimiting environment.types (refer.Delimited root cut) :=
      fun part member => closed part (List.mem_cons_of_mem _ member)
    refine (conditionHolds_delimited condition).bind_ready ready fun holds asked ready' _ => ?_
    split
    · refine (runBlock_delimited body 0 (frame.child none []) asked closedBody
        ready'.child).bind fun inner _ _ spends readyInner => ?_
      refine Delimited.ofExcept_bind fun value found => ?_
      exact .set (ready'.later spends) fun view isStream => readyInner.steady.get (isStream ▸ found)
    · have inert : Value.Inert .none := nofun
      exact .set ready' (inert.steady asked)

/-- **A block** knows where it ends. -/
theorem runBlock_delimited : ∀ (block : List Instruction) (index : Nat) (frame : Frame)
    (machine : Machine), (∀ part ∈ blockParts block,
      part.SelfDelimiting environment.types (refer.Delimited root cut)) →
        frame.Ready root machine →
          Delimited (Machine.pursuit root cut) (fun frame after => frame.Ready root after)
            (runBlock environment refer block index frame) machine
  | [], index, frame, machine, closed, ready => .pure ready
  | instruction :: rest, index, frame, machine, closed, ready => by
    have closedHere : ∀ part ∈ instruction.parts,
        part.SelfDelimiting environment.types (refer.Delimited root cut) :=
      fun part member => closed part (List.mem_append_left _ member)
    have closedLater : ∀ part ∈ blockParts rest,
        part.SelfDelimiting environment.types (refer.Delimited root cut) :=
      fun part member => closed part (List.mem_append_right _ member)
    refine (Delimited.record _ _ _ _ _).bind_ready ready fun _ started ready' _ => ?_
    refine (Delimited.guarded _ _ _
      (Instruction.run_delimited instruction frame started closedHere ready')).bind
      fun next _ after _ ready'' => ?_
    exact runBlock_delimited rest (index + 1) next after closedLater ready''

end

/-! ### Whole programs -/

/-- **A program** knows where it ends. -/
theorem Environment.decode_delimited (environment : Environment)
    (closed : ∀ part ∈ blockParts environment.program.instructions,
      part.SelfDelimiting environment.types (refer.Delimited root cut))
    {opening : Except Fault View} {values : List Value}
    (fair : (machine.streams.sources.get root).Fair)
    (opened : ∀ view, opening = .ok view → view.Steady root machine.streams)
    (holds : ∀ value ∈ values, value.Steady root machine) :
    Delimited (Machine.pursuit root cut) (fun value after => value.Steady root after)
      (environment.decode refer opening values) machine := by
  refine Delimited.ofExcept_bind fun frame bound => ?_
  refine Delimited.ofExcept_bind fun view found => ?_
  have ready : (frame.bindReader view).Ready root machine :=
    ⟨fair, (Frame.Views.bindArguments holds bound).bindReader (opened view found)⟩
  refine (runBlock_delimited _ 0 _ machine closed ready).bind fun last _ _ _ readyLast => ?_
  refine Delimited.ofExcept_bind fun output _ => ?_
  exact Delimited.ofExcept fun value same view isStream => readyLast.steady.get (isStream ▸ same)

end Blocks

/-- A program whose instructions read no more than what the bytes before have told them to. -/
def Linked.SelfDelimiting (linked : Linked) : Prop :=
  ∀ part ∈ blockParts linked.program.instructions, part.SelfDelimiting linked.types fun _ => True

theorem Linked.SelfDelimiting.refers {linked : Linked} {good : MessageType → Prop}
    (closed : linked.SelfDelimiting) (refers : ∀ message, linked.Names message → good message) :
    ∀ part ∈ blockParts linked.program.instructions, part.SelfDelimiting linked.types good := by
  intro part member
  have holds := closed part member
  cases part with
  | decodeReference target data name arguments =>
    exact fun message required => refers message ⟨target, data, name, arguments, member, required⟩
  | _ => exact holds

/-- **A message** that is referred to knows where it ends. -/
theorem decodeMessage_delimited (root : Nat) (cut : Prop) (mode : String) (config : Config)
    (depth : Nat) (types : Types) (message : MessageType)
    (closed : (Linked.ofMessage message types).Throughout Linked.SelfDelimiting) :
    (decodeMessage types mode config depth).Delimited root cut message := by
  induction depth generalizing types message with
  | zero => exact fun _ _ _ _ _ _ => .throw
  | succ depth hypothesis =>
    intro view values machine fair steady holds
    refine Environment.decode_delimited ⟨message.program, message.visible types, mode, config⟩ ?_
      fair (fun _ same => Except.ok.inj same ▸ steady) holds
    exact closed.here.refers fun other names => hypothesis _ other (closed.message names)

/-! ### Runs -/

theorem decodeInput_delimited (cut : Prop) (environment : Environment)
    (closed : (Linked.mk environment.program environment.types).Throughout Linked.SelfDelimiting)
    {execution : Execution} {machine : Machine} (driven : machine.streams.driver = execution)
    {values : List Value}
    (opened : ∀ value ∈ values, ∀ view, value = .stream view → view.Opened machine.streams)
    {bytes : Bytes} {input : Input} (delivers : input.Delivers bytes) :
    Delimited (Machine.pursuit machine.streams.sources.size cut)
      (fun value after => value.Steady machine.streams.sources.size after)
      (decodeWith environment ⟨.source execution machine.streams.sources.size, true⟩ values)
      { machine with streams := (machine.streams.openSource execution input).2 } := by
  refine environment.decode_delimited ?_ ?_ ?_ ?_
  · exact closed.here.refers fun message names =>
      decodeMessage_delimited _ cut _ _ _ _ message (closed.message names)
  · show ((machine.streams.sources.push { input := input }).get machine.streams.sources.size).Fair
    rw [Table.get_push_self]
    exact (Source.opened_fair delivers).1
  · intro view same
    unfold RunSource.open? at same
    split at same
    · cases same
    · cases same
      exact Or.inr ⟨driven.symm, rfl⟩
  · exact fun value member view isStream => Or.inl (opened value member view isStream).apart

/-- Sources opened over two inputs that start with the same bytes. -/
theorem View.openSource_shares {cut : Prop} {shared : Nat} (machine : Machine) (own : Execution)
    {bytes bytes' : Bytes} {input input' : Input} (delivers : input.Delivers bytes)
    (delivers' : input'.Delivers bytes') (same : bytes'.take shared = bytes.take shared)
    (short : cut → bytes'.length ≤ shared) :
    Machine.Shares machine.streams.sources.size cut shared
      { machine with streams := (machine.streams.openSource own input).2 }
      { machine with streams := (machine.streams.openSource own input').2 } := by
  obtain ⟨fair, rest⟩ := Source.opened_fair delivers
  obtain ⟨fair', rest'⟩ := Source.opened_fair delivers'
  refine ⟨⟨rfl, ?_, fun cell different => ?_, rfl, rfl, rfl⟩, rfl, rfl, rfl⟩
  · show Source.Shares cut shared ((machine.streams.sources.push _).get _)
      ((machine.streams.sources.push _).get _)
    rw [Table.get_push_self, Table.get_push_self]
    exact ⟨⟨fair, fair'⟩, by rw [rest, rest', same], by rw [rest']; exact short, rfl⟩
  · show (machine.streams.sources.push _).get cell = (machine.streams.sources.push _).get cell
    rw [Table.get_push, Table.get_push, if_neg different, if_neg different]

/-- **Messages delimit themselves.** A program that reads nothing but what the bytes before have told
it to is run over a new source, and it gives a value. Over any source that starts with the bytes that
were consumed it gives the same value, consumes as many bytes of every stream, and leaves the same
lists, events and warnings. Over a source that ends before it fails in a read that falls short. -/
theorem decode_selfDelimiting (environment : Environment)
    (closed : (Linked.mk environment.program environment.types).Throughout Linked.SelfDelimiting)
    (execution : Execution) (machine : Machine) (driven : machine.streams.driver = execution)
    (values : List Value)
    (opened : ∀ value ∈ values, ∀ view, value = .stream view → view.Opened machine.streams)
    (bytes : Bytes) (input : Input) (delivers : input.Delivers bytes) (value : Value)
    (after : Machine)
    (ran : decodeInput environment execution input values machine = (.ok value, after)) :
    let source := View.source execution machine.streams.sources.size
    let consumed := source.position after.streams
    consumed ≤ bytes.length ∧
      (∀ bytes' input', input'.Delivers bytes' → bytes.take consumed <+: bytes' →
        ∃ after', decodeInput environment execution input' values machine = (.ok value, after') ∧
          (∀ view : View, view.position after'.streams = view.position after.streams) ∧
          after'.lists = after.lists ∧ after'.trace = after.trace ∧
          after'.warnings = after.warnings) ∧
      ∀ count < consumed, ∀ input', input'.Delivers (bytes.take count) →
        ∃ cause path after', decodeInput environment execution input' values machine =
          (.error ⟨.decode cause, path⟩, after') ∧ cause.family = .io := by
  intro source consumed
  obtain ⟨count, spends, -, again⟩ :=
    decodeInput_delimited False environment closed driven opened delivers value after ran
  obtain ⟨count', spends', -, against⟩ :=
    decodeInput_delimited True environment closed driven opened delivers value after ran
  have new : ((machine.streams.openSource execution input).2.sources.get
      machine.streams.sources.size) = { input := input } := Table.get_push_self _ _
  have rest : ((machine.streams.openSource execution input).2.sources.get
      machine.streams.sources.size).rest = bytes := by
    rw [new]
    exact (Source.opened_fair delivers).2
  have counted : ∀ number, Source.Gives number
      ((machine.streams.openSource execution input).2.sources.get machine.streams.sources.size)
      (after.streams.sources.get machine.streams.sources.size) → consumed = number := by
    intro number gives
    have position := gives.position
    rw [new] at position
    exact position.trans (Nat.zero_add number)
  obtain rfl := counted count spends.2
  obtain rfl := counted count' spends'.2
  have within : consumed ≤ bytes.length := rest ▸ spends.2.within
  refine ⟨within, fun bytes' input' delivers' front => ?_, fun fewer less input' delivers' => ?_⟩
  · have same : bytes'.take consumed = bytes.take consumed := by
      obtain ⟨others, rfl⟩ := front
      rw [List.take_append_of_le_length (by rw [List.length_take]; omega), List.take_take,
        Nat.min_self]
    obtain ⟨after', ran', shares⟩ := (again consumed _ (View.openSource_shares machine execution
      delivers delivers' same False.elim)).1 (Nat.le_refl _)
    refine ⟨after', ran', fun view => ?_, shares.lists, shares.trace, shares.warnings⟩
    exact View.position_differ shares.streams shares.streams.source.position view
  · have same : (bytes.take fewer).take fewer = bytes.take fewer := by
      rw [List.take_take, Nat.min_self]
    obtain ⟨failure, after', ran', cause, decode, io⟩ := (against fewer _ (View.openSource_shares
      machine execution delivers delivers' same fun _ => List.length_take_le _ _)).2 less trivial
    obtain ⟨fault, path⟩ := failure
    obtain rfl : fault = .decode cause := decode
    exact ⟨cause, path, after', ran', io⟩

/-- A text of a given length with the bytes that pad it. -/
def paddedText : Environment where
  program := Examples.paddedBlock
  types := []
  mode := "blocking"
  config := {}

theorem paddedText_selfDelimiting :
    (Linked.mk paddedText.program paddedText.types).Throughout Linked.SelfDelimiting := by
  refine .of_unlinked (fun part member => ?_) (Linked.not_names rfl)
  have cases : part ∈ Examples.paddedBlock.instructions := member
  simp only [Examples.paddedBlock, Examples.programOf, List.mem_cons, List.not_mem_nil,
    or_false] at cases
  rcases cases with rfl | rfl | rfl | rfl | rfl
  · trivial
  · trivial
  · exact ⟨by decide, Or.inr Nat.one_pos⟩
  · rfl
  · trivial

/-- Three characters and a byte that pads them; what follows is left alone, and without the padding
the read falls short. -/
theorem decode_selfDelimiting_of_paddedText :
    ∃ value after, decodeInput paddedText .blocking (Input.ofBytes 2 [3, 97, 98, 99, 0, 7]) [] {} =
        (.ok value, after) ∧
      (∃ after', decodeInput paddedText .blocking (Input.ofBytes 1 [3, 97, 98, 99, 0, 8, 9]) [] {} =
        (.ok value, after')) ∧
      ∃ cause path after', decodeInput paddedText .blocking (Input.ofBytes 4 [3, 97, 98, 99]) [] {} =
        (.error ⟨.decode cause, path⟩, after') ∧ cause.family = .io := by
  have succeeds : (decodeInput paddedText .blocking (Input.ofBytes 2 [3, 97, 98, 99, 0, 7]) []
      {}).1.isOk = true := by
    decide +kernel
  have five : (View.source .blocking 0).position (decodeInput paddedText .blocking
      (Input.ofBytes 2 [3, 97, 98, 99, 0, 7]) [] {}).2.streams = 5 := by
    decide +kernel
  rcases ran : decodeInput paddedText .blocking (Input.ofBytes 2 [3, 97, 98, 99, 0, 7]) [] {} with
    ⟨fault | value, after⟩
  · rw [ran] at succeeds
    cases succeeds
  · rw [ran] at five
    have consumed : (View.source .blocking ({} : Machine).streams.sources.size).position
        after.streams = 5 := five
    obtain ⟨-, longer, shorter⟩ := decode_selfDelimiting paddedText paddedText_selfDelimiting
      .blocking {} rfl [] nofun [3, 97, 98, 99, 0, 7] _
      (Input.ofBytes_delivers 2 _ (by decide)) value after ran
    rw [consumed] at longer shorter
    refine ⟨value, after, rfl, ?_, shorter 4 (by decide) _ (Input.ofBytes_delivers 4 _ (by decide))⟩
    obtain ⟨after', ran', -⟩ := longer [3, 97, 98, 99, 0, 8, 9] _
      (Input.ofBytes_delivers 1 _ (by decide)) ⟨[8, 9], rfl⟩
    exact ⟨after', ran'⟩

end WireProgram
