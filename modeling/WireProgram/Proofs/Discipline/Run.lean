/-
**A program that passes the checker keeps to the discipline.**

The scope that the checker reaches at a point of a program and the frame that a run reaches there
hold the same registers. The runs of an instruction, of a block and of a whole program keep this up.
So none of them changes a list but those of the loops around it, however it ends, and none that uses
no field breaks the discipline. The main definitions and statements:

* `Instruction.Sober`, an instruction that refers to messages that keep to the discipline;
* `Instruction.run_sound` and `runBlock_sound`, one instruction and a block;
* `Linked.Valid`, `Linked.Checked` and `decodeMessage_sound`, a message that passes the checker.
-/

import WireProgram.Proofs.Discipline.Compute
import WireProgram.Proofs.Reach

namespace WireProgram

/-! ### Instructions and blocks -/

/-- How a message that is referred to must run: without a change to the lists of its caller and, if
it is strict, without breaking the discipline. -/
def Referral.Sound (strict : Prop) (refer : Referral) (message : MessageType) : Prop :=
  ∀ view values machine, Spares strict [] (fun _ => True) (refer message view values) machine

/-- An instruction that refers to messages that keep to the discipline and, if it is strict, uses no
field. -/
def Instruction.Sober (strict : Prop) (types : Types) (refer : Referral) : Instruction → Prop
  | .eval _ expression => strict → expression.isFieldless = true
  | .decodeReference _ _ name _ =>
    ∀ message, types.require name = .ok (.message message) → refer.Sound strict message
  | _ => True

/-- An instruction that spares all lists but those of the loops around it wherever it passes, and
whose frame is followed. -/
def Instruction.Sound (strict : Prop) (environment : Environment) (refer : Referral)
    (extent : Extent) (instruction : Instruction) : Prop :=
  ∀ scope place loops frame machine, (checkInstruction extent scope place instruction).1 = [] →
    Tracks loops scope frame →
      Spares strict loops
        (fun next => Tracks loops (checkInstruction extent scope place instruction).2 next)
        (instruction.run environment refer frame) machine

/-- A block that spares all lists but those of the loops around it wherever it passes, and whose frame
is followed. -/
def BlockSound (strict : Prop) (environment : Environment) (refer : Referral) (extent : Extent)
    (block : List Instruction) : Prop :=
  ∀ scope placeOf index loops frame machine,
    (checkInstructions extent scope placeOf index block).1 = [] → Tracks loops scope frame →
      Spares strict loops
        (fun next => Tracks loops (checkInstructions extent scope placeOf index block).2 next)
        (runBlock environment refer block index frame) machine

section Blocks

variable {strict : Prop} {environment : Environment} {refer : Referral} {extent : Extent}

theorem reads_passed {scope : CheckScope} {place : Place} {first second : List Register}
    (passed : (first ++ second).flatMap (checkRead extent scope place) = []) :
    first.flatMap (checkRead extent scope place) = [] ∧
      second.flatMap (checkRead extent scope place) = [] := by
  rwa [List.flatMap_append, List.append_eq_nil_iff] at passed

theorem read_cons_passed {scope : CheckScope} {place : Place} {register : Register}
    {others : List Register}
    (passed : (register :: others).flatMap (checkRead extent scope place) = []) :
    checkRead extent scope place register = [] ∧
      others.flatMap (checkRead extent scope place) = [] := by
  rwa [List.flatMap_cons, List.append_eq_nil_iff] at passed

theorem read_passed {scope : CheckScope} {place : Place} {register : Register}
    (passed : [register].flatMap (checkRead extent scope place) = []) :
    checkRead extent scope place register = [] :=
  List.flatMap_eq_nil_iff.mp passed register (List.mem_singleton_self register)

/-- A test of membership that passes. -/
theorem mem_of_passed {slots : List Slot} {slot : Slot} {finding : Finding}
    (passed : (if slots.contains slot then [] else [finding]) = []) : slot ∈ slots := by
  by_contra absent
  rw [if_neg (by rwa [List.contains_iff_mem])] at passed
  cases passed

/-- A loop collects items in a new list: what its rounds need, for all loops alike. What holds after
its rounds holds after the loop. -/
theorem listLoop_keeps {γ : Type} {streams : Contract Fault (Streams Codec) γ} {loops : List Nat}
    {state : Machine × γ} {scope : CheckScope} {place : Place} {frame : Frame} {output : Register}
    (tracks : Tracks loops scope frame)
    (passed : (checkWrite extent scope place output).1 = []) {rounds : Frame → Step Unit}
    {holds : Frame → Machine × γ → Prop}
    (each : ∀ cell listed outer,
      (Contract.run streams (cell :: loops)).later state listed →
      frame.set output (.list cell) = .ok outer →
      Tracks (cell :: loops) ((checkWrite extent scope place output).2.child (some output))
        (outer.child none []) →
        Keeps (.run streams (cell :: loops)) (fun _ after => holds outer after) (rounds outer)
          listed) :
    Keeps (.run streams loops)
      (fun next after => Tracks loops (checkWrite extent scope place output).2 next ∧
        holds next after)
      (newList >>= fun list => Step.ofExcept (frame.set output list) >>= fun outer =>
        rounds outer >>= fun _ => pure outer) state := by
  refine Keeps.of_new (Nat.le_refl state.1.lists.size) (Keeps.newList.bind ?_)
  rintro list listed later ⟨cell, rfl, rfl, -⟩
  obtain ⟨outer, written, tracksOuter⟩ := tracks.exists_set passed (.list _)
  refine Keeps.ofExcept_ok written ?_
  refine (each _ listed outer later written (tracksOuter.loopChild (Frame.get_set written))).bind
    fun _ _ _ found => ?_
  exact .pure ⟨tracksOuter, found⟩

/-- What the rounds of a loop need, for all loops alike: they may change the new list as well. -/
theorem listLoop_sound {loops : List Nat} {machine : Machine} {scope : CheckScope}
    {place : Place} {frame : Frame} {output : Register} (tracks : Tracks loops scope frame)
    (passed : (checkWrite extent scope place output).1 = []) {rounds : Frame → Step Unit}
    (each : ∀ cell outer, frame.set output (.list cell) = .ok outer →
      Tracks (cell :: loops) ((checkWrite extent scope place output).2.child (some output))
        (outer.child none []) →
      ∀ listed, Spares strict (cell :: loops) (fun _ => True) (rounds outer) listed) :
    Spares strict loops (fun next => Tracks loops (checkWrite extent scope place output).2 next)
      (newList >>= fun list => Step.ofExcept (frame.set output list) >>= fun outer =>
        rounds outer >>= fun _ => pure outer) machine := by
  obtain ⟨outer, written, tracksOuter⟩ := tracks.exists_set passed (.list machine.lists.size)
  have set : Ends (frame.set output (.list machine.lists.size)) (fun next => next = outer)
      fun fault => ¬fault.Breaks := by
    rw [written]
    exact rfl
  refine Spares.newList_bind (Spares.ofExcept_bind set ?_)
  rintro _ - rfl
  exact (each _ _ written (tracksOuter.loopChild (Frame.get_set written)) _).bind
    fun _ _ _ _ => .pure tracksOuter

namespace Instruction.Sound

variable {target : Target} {register length condition terminator item interior : Register}
  {arguments : List Register} {name backing : Json} {expression : Expression}
  {constructable : Constructable} {transform : Transform} {foreign : ForeignType}
  {prelude body : List Instruction}

theorem eval (fieldless : strict → expression.isFieldless = true) :
    (Instruction.eval register expression).Sound strict environment refer extent := by
  intro scope place loops frame machine passed tracks
  simp only [checkInstruction, List.append_eq_nil_iff] at passed ⊢
  exact (evaluate_sound _ fieldless).bind fun value _ _ _ =>
    .ofExcept (tracks.set passed.2 value)

theorem construct :
    (Instruction.construct register constructable).Sound strict environment refer extent := by
  intro scope place loops frame machine passed tracks
  simp only [checkInstruction, List.append_eq_nil_iff] at passed ⊢
  exact Spares.ofExcept_bind (constructable.build_harmless tracks _ passed.1) fun value _ _ =>
    .ofExcept (tracks.set passed.2 value)

theorem constrict :
    (Instruction.constrict target register length).Sound strict environment refer extent := by
  intro scope place loops frame machine passed tracks
  simp only [checkInstruction, List.append_eq_nil_iff] at passed ⊢
  obtain ⟨streamPassed, lengthPassed⟩ := reads_passed passed.1
  refine Spares.ofExcept_bind (tracks.target streamPassed) fun view _ _ => ?_
  refine (countIn_sound tracks (read_passed lengthPassed) _).bind fun count _ _ _ => ?_
  refine (Spares.onStreams (.openedBy _)).bind fun bounded _ _ _ => ?_
  exact .ofExcept (tracks.set passed.2 _)

theorem wrapStream :
    (Instruction.wrapStream target register transform arguments).Sound strict environment refer
      extent := by
  intro scope place loops frame machine passed tracks
  simp only [checkInstruction, List.append_eq_nil_iff] at passed ⊢
  obtain ⟨streamPassed, argumentsPassed⟩ := reads_passed passed.1
  refine Spares.ofExcept_bind (tracks.target streamPassed) fun view _ _ => ?_
  refine Spares.ofExcept_bind (tracks.getMany argumentsPassed) fun values _ _ => ?_
  refine (Spares.onStreams (transform.wrap_quiet view values)).bind fun wrapped _ _ _ => ?_
  exact .ofExcept (tracks.set passed.2 _)

theorem conditionalWrapStream (runs : BlockSound strict environment refer extent prelude) :
    (Instruction.conditionalWrapStream condition prelude target register transform arguments).Sound
      strict environment refer extent := by
  intro scope place loops frame machine passed tracks
  simp only [checkInstruction, List.append_eq_nil_iff] at passed ⊢
  obtain ⟨⟨⟨readsPassed, preludePassed⟩, argumentsPassed⟩, writePassed⟩ := passed
  obtain ⟨conditionPassed, streamPassed⟩ := read_cons_passed readsPassed
  refine Spares.ofExcept_bind (tracks.target streamPassed) fun view _ _ => ?_
  refine (conditionHolds_sound tracks conditionPassed).bind fun holds _ _ _ => ?_
  split
  · refine (runs _ _ 0 loops _ _ preludePassed
      tracks.child).bind fun inner _ _ tracksInner => ?_
    refine Spares.ofExcept_bind (tracksInner.getMany argumentsPassed) fun values _ _ => ?_
    refine (Spares.onStreams (transform.wrap_quiet view values)).bind fun wrapped _ _ _ => ?_
    exact .ofExcept (tracks.set writePassed _)
  · exact .ofExcept (tracks.set writePassed _)

theorem decodeForeign :
    (Instruction.decodeForeign target register foreign arguments).Sound strict environment refer
      extent := by
  intro scope place loops frame machine passed tracks
  simp only [checkInstruction, List.append_eq_nil_iff] at passed ⊢
  obtain ⟨targetPassed, argumentsPassed⟩ := reads_passed passed.1
  refine Spares.ofExcept_bind (tracks.target targetPassed) fun view _ _ => ?_
  refine Spares.ofExcept_bind (tracks.getMany argumentsPassed) fun values _ _ => ?_
  refine (Spares.onStreams (foreign.decode_quiet view values _)).bind fun value _ _ _ => ?_
  exact .ofExcept (tracks.set passed.2 value)

theorem decodeReference
    (refers : ∀ message, environment.types.require name = .ok (.message message) →
      refer.Sound strict message) :
    (Instruction.decodeReference target register name arguments).Sound strict environment refer
      extent := by
  intro scope place loops frame machine passed tracks
  simp only [checkInstruction, List.append_eq_nil_iff] at passed ⊢
  obtain ⟨targetPassed, argumentsPassed⟩ := reads_passed passed.1
  refine Spares.ofExcept_bind (tracks.target targetPassed) fun view _ _ => ?_
  refine Spares.ofExcept_bind (environment.types.require_harmless name) fun entry required _ => ?_
  refine Spares.ofExcept_bind (tracks.getMany argumentsPassed) fun values _ _ => ?_
  refine Spares.ofExcept_bind entry.inPlace_calm.harmless fun message inPlace _ => ?_
  obtain rfl := TypeEntry.inPlace_eq_ok inPlace
  refine (refers message required view values machine).of_none.bind fun value _ _ _ => ?_
  exact .ofExcept (tracks.set passed.2 value)

theorem decodeEnumeration :
    (Instruction.decodeEnumeration name backing register target).Sound strict environment refer
      extent := by
  intro scope place loops frame machine passed tracks
  simp only [checkInstruction, List.append_eq_nil_iff] at passed ⊢
  refine Spares.ofExcept_bind (tracks.target passed.1) fun view _ _ => ?_
  refine Spares.ofExcept_bind (environment.types.require_harmless name)
    fun entry _ _ => ?_
  exact (readMember_sound view entry backing).bind fun value _ _ _ =>
    .ofExcept (tracks.set passed.2 value)

theorem decodePrimitive :
    (Instruction.decodePrimitive target register name).Sound strict environment refer extent := by
  intro scope place loops frame machine passed tracks
  simp only [checkInstruction, List.append_eq_nil_iff] at passed ⊢
  refine Spares.ofExcept_bind (tracks.target passed.1) fun view _ _ => ?_
  exact (readScalar_sound view name).bind fun value _ _ _ =>
    .ofExcept (tracks.set passed.2 value)

theorem decodeArray :
    (Instruction.decodeArray target register name none).Sound strict environment refer extent := by
  intro scope place loops frame machine passed tracks
  simp only [checkInstruction, List.append_eq_nil_iff] at passed ⊢
  obtain ⟨targetPassed, -⟩ := reads_passed passed.1
  refine Spares.ofExcept_bind (tracks.target targetPassed) fun view _ _ => ?_
  exact (readArray_sound view name none _).bind fun value _ _ _ =>
    .ofExcept (tracks.set passed.2 value)

theorem decodeCounted :
    (Instruction.decodeArray target register name (some length)).Sound strict environment refer
      extent := by
  intro scope place loops frame machine passed tracks
  simp only [checkInstruction, List.append_eq_nil_iff] at passed ⊢
  obtain ⟨targetPassed, lengthPassed⟩ := reads_passed passed.1
  refine Spares.ofExcept_bind (tracks.target targetPassed) fun view _ _ => ?_
  refine (countIn_sound tracks (read_passed lengthPassed) _).bind fun count _ _ _ => ?_
  exact (readArray_sound view name (some count) _).bind fun value _ _ _ =>
    .ofExcept (tracks.set passed.2 value)

theorem twoRules :
    (Instruction.loop target (some length) (some terminator) register body).Sound strict environment refer
      extent := by
  intro scope place loops frame machine passed tracks
  exact (checkInstruction_twoRules_ne_nil _ _ _ _ _ passed).elim

theorem countedLoop (runs : BlockSound strict environment refer extent body) :
    (Instruction.loop target (some length) none register body).Sound strict environment refer extent := by
  intro scope place loops frame machine passed tracks
  simp only [checkInstruction, List.append_eq_nil_iff] at passed ⊢
  obtain ⟨⟨⟨readsPassed, -⟩, writePassed⟩, bodyPassed⟩ := passed
  have lengthPassed := (reads_passed (reads_passed readsPassed).1).2
  refine (countIn_sound tracks (read_passed lengthPassed) _).bind fun count _ _ _ => ?_
  refine listLoop_sound tracks writePassed fun cell outer written tracksBody listed => ?_
  refine Spares.repeatBody (fun inner => ?_) count
  exact (runs _ _ 0 _ _ inner bodyPassed tracksBody).discard

theorem terminatedLoop (runs : BlockSound strict environment refer extent body) :
    (Instruction.loop target none (some terminator) register body).Sound strict environment refer
      extent := by
  intro scope place loops frame machine passed tracks
  simp only [checkInstruction, List.append_eq_nil_iff] at passed ⊢
  obtain ⟨⟨⟨readsPassed, -⟩, writePassed⟩, bodyPassed⟩ := passed
  obtain ⟨targetPassed, terminatorPassed⟩ := reads_passed readsPassed
  refine Spares.ofExcept_bind (tracks.target (reads_passed targetPassed).1) fun view _ _ => ?_
  refine Spares.ofExcept_bind (tracks.get (read_passed terminatorPassed)) fun value _ _ => ?_
  refine Spares.look_bind (Spares.look_bind ?_)
  refine Spares.ofExcept_bind (value.toBytes_calm _ _).harmless fun ending _ _ => ?_
  split
  · exact .throw id
  · refine listLoop_sound tracks writePassed fun cell outer written tracksBody listed => ?_
    refine Spares.untilTerminator view ending (fun inner => ?_) _
    exact (runs _ _ 0 _ _ inner bodyPassed tracksBody).discard

theorem cursorLoop (runs : BlockSound strict environment refer extent body) :
    (Instruction.loop target none none register body).Sound strict environment refer extent := by
  intro scope place loops frame machine passed tracks
  simp only [checkInstruction, List.append_eq_nil_iff] at passed ⊢
  obtain ⟨⟨⟨readsPassed, -⟩, writePassed⟩, bodyPassed⟩ := passed
  have targetPassed := (reads_passed (reads_passed readsPassed).1).1
  refine Spares.ofExcept_bind (tracks.target targetPassed) fun view found _ => ?_
  refine (Spares.onStreams view.readToEnd_quiet).bind fun content _ _ _ => ?_
  refine (Spares.onStreams (.openedBy _)).bind fun cursor _ _ _ => ?_
  refine listLoop_sound tracks writePassed fun cell outer written tracksBody listed => ?_
  have kept := Frame.target_of_set written found
  refine Spares.throughCursor cursor (fun inner => ?_) _
  exact (runs _ _ 0 _ _ inner bodyPassed (tracksBody.cursorFrame kept cursor)).discard

theorem loopOutput : (Instruction.loopOutput register item).Sound strict environment refer extent := by
  intro scope place loops frame machine passed tracks
  simp only [checkInstruction, List.append_eq_nil_iff] at passed ⊢
  obtain ⟨outputPassed, itemPassed⟩ := read_cons_passed passed.1
  refine (addOutput_sound tracks outputPassed (read_passed itemPassed)
    (mem_of_passed passed.2)).bind fun _ _ _ _ => .pure tracks

theorem conditional (runs : BlockSound strict environment refer extent body) :
    (Instruction.conditional register interior condition body).Sound strict environment refer extent := by
  intro scope place loops frame machine passed tracks
  simp only [checkInstruction, List.append_eq_nil_iff] at passed ⊢
  obtain ⟨⟨⟨conditionPassed, bodyPassed⟩, keptPassed⟩, writePassed⟩ := passed
  refine (conditionHolds_sound tracks (read_passed conditionPassed)).bind fun holds _ _ _ => ?_
  split
  · refine (runs _ _ 0 loops _ _ bodyPassed tracks.child).bind
      fun inner _ _ tracksInner => ?_
    have written := tracksInner.get_written (Or.inl (mem_of_passed keptPassed))
    refine Spares.ofExcept_bind written fun value _ _ => ?_
    exact .ofExcept (tracks.set writePassed value)
  · exact .ofExcept (tracks.set writePassed .none)

end Instruction.Sound

theorem BlockSound.cons {instruction : Instruction} {rest : List Instruction}
    (first : instruction.Sound strict environment refer extent)
    (others : BlockSound strict environment refer extent rest) :
    BlockSound strict environment refer extent (instruction :: rest) := by
  intro scope placeOf index loops frame machine passed tracks
  simp only [checkInstructions, List.append_eq_nil_iff] at passed ⊢
  refine (Spares.record _ _ _ _ _).bind fun _ started _ _ => ?_
  refine (Spares.guarded _ _ _ (first _ _ loops frame started passed.1 tracks)).bind
    fun next after _ tracksNext => ?_
  exact others _ placeOf (index + 1) loops next after passed.2 tracksNext

mutual

/-- **One instruction** that passes does not break the discipline, and its frame is followed. -/
theorem Instruction.run_sound : ∀ instruction : Instruction,
    (∀ part ∈ instruction.parts, part.Sober strict environment.types refer) →
      instruction.Sound strict environment refer extent
  | .eval .., sober => .eval (sober _ (Instruction.mem_parts _))
  | .construct .., _ => .construct
  | .constrict .., _ => .constrict
  | .wrapStream .., _ => .wrapStream
  | .conditionalWrapStream _ prelude _ _ _ _, sober =>
    .conditionalWrapStream (runBlock_sound prelude fun part member =>
      sober part (List.mem_cons_of_mem _ member))
  | .decodeForeign .., _ => .decodeForeign
  | .decodeReference .., sober => .decodeReference (sober _ (Instruction.mem_parts _))
  | .decodeEnumeration .., _ => .decodeEnumeration
  | .decodePrimitive .., _ => .decodePrimitive
  | .decodeArray _ _ _ none, _ => .decodeArray
  | .decodeArray _ _ _ (some _), _ => .decodeCounted
  | .loop _ (some _) (some _) _ _, _ => .twoRules
  | .loop _ (some _) none _ body, sober =>
    .countedLoop (runBlock_sound body fun part member =>
      sober part (List.mem_cons_of_mem _ member))
  | .loop _ none (some _) _ body, sober =>
    .terminatedLoop (runBlock_sound body fun part member =>
      sober part (List.mem_cons_of_mem _ member))
  | .loop _ none none _ body, sober =>
    .cursorLoop (runBlock_sound body fun part member =>
      sober part (List.mem_cons_of_mem _ member))
  | .loopOutput .., _ => .loopOutput
  | .conditional _ _ _ body, sober =>
    .conditional (runBlock_sound body fun part member =>
      sober part (List.mem_cons_of_mem _ member))

/-- **A block** that passes does not break the discipline, and its frame is followed. -/
theorem runBlock_sound : ∀ block : List Instruction,
    (∀ part ∈ blockParts block, part.Sober strict environment.types refer) →
      BlockSound strict environment refer extent block
  | [], _ => fun _ _ _ _ _ _ _ tracks => .pure tracks
  | instruction :: rest, sober =>
    .cons
      (Instruction.run_sound instruction fun part member =>
        sober part (List.mem_append_left _ member))
      (runBlock_sound rest fun part member => sober part (List.mem_append_right _ member))

end

end Blocks

/-! ### Whole programs -/

/-- What the checker has against the instructions of a program, and the scope after them. -/
def Program.checkedBody (program : Program) (extent : Extent) : List Finding × CheckScope :=
  checkInstructions extent (checkArguments extent {} program.arguments).2 .instruction 0
    program.instructions

/-- A program that the checker has passed, for its number of registers and the last one. -/
structure Program.Passed (program : Program) (extent : Extent) : Prop where
  numbered : blockIsNumbered program.instructions = true
  output : program.outputRegister = .ok extent.last
  arguments : (checkArguments extent {} program.arguments).1 = []
  body : (program.checkedBody extent).1 = []
  written : extent.last.slot ∈ (program.checkedBody extent).2.own

theorem Program.passed_of_validate {program : Program} (valid : program.validate = .ok []) :
    ∃ extent, program.Passed extent := by
  unfold Program.validate at valid
  rcases registers : program.hasRegisters with fault | has
  · rw [registers] at valid
    cases valid
  rw [registers] at valid
  cases has with
  | false => cases valid
  | true =>
    rcases output : program.outputRegister with fault | last
    · rw [output] at valid
      cases valid
    rw [output] at valid
    cases numbered : program.isNumbered with
    | false =>
      rw [numbered] at valid
      cases valid
    | true =>
      rw [numbered] at valid
      have none : program.findings ⟨program.registerCount, last⟩ = [] := Except.ok.inj valid
      simp only [Program.findings, List.append_eq_nil_iff] at none
      obtain ⟨⟨⟨arguments, -⟩, body⟩, written⟩ := none
      exact ⟨⟨program.registerCount, last⟩, (Bool.and_eq_true_iff.mp numbered).2, output, arguments,
        body, mem_of_passed written⟩

/-- Arguments in the right number go to their registers. -/
theorem exists_bindArguments {program : Program} {extent : Extent}
    (passed : (checkArguments extent {} program.arguments).1 = []) {values : List Value}
    (many : values.length = program.arguments.length) :
    ∃ frame, bindArguments program values = .ok frame ∧
      Tracks [] (checkArguments extent {} program.arguments).2 frame := by
  have written : ∀ (registers : List Register) (values : List Value) (scope : CheckScope)
      (frame : Frame), values.length = registers.length →
        (checkArguments extent scope registers).1 = [] → Tracks [] scope frame →
          ∃ next, (registers.zip values).foldlM (fun frame entry => frame.set entry.1 entry.2)
            frame = .ok next ∧ Tracks [] (checkArguments extent scope registers).2 next := by
    intro registers
    induction registers with
    | nil => exact fun _ _ frame _ _ tracks => ⟨frame, rfl, tracks⟩
    | cons register rest hypothesis =>
      intro values scope frame same passed tracks
      cases values with
      | nil => cases same
      | cons value values =>
        simp only [checkArguments, List.append_eq_nil_iff] at passed ⊢
        obtain ⟨next, here, tracksNext⟩ := tracks.exists_set passed.1 value
        rw [List.zip_cons_cons, List.foldlM_cons, here]
        exact hypothesis values _ next (Nat.succ.inj same) passed.2 tracksNext
  unfold bindArguments
  rw [if_pos many]
  exact written _ _ _ _ many passed .start

theorem bindArguments_sound {program : Program} {extent : Extent}
    (passed : (checkArguments extent {} program.arguments).1 = []) (values : List Value) :
    Ends (bindArguments program values)
      (fun frame => Tracks [] (checkArguments extent {} program.arguments).2 frame)
      fun fault => ¬fault.Breaks := by
  by_cases many : values.length = program.arguments.length
  · obtain ⟨frame, bound, tracks⟩ := exists_bindArguments passed many
    rw [bound]
    exact tracks
  · unfold bindArguments
    rw [if_neg many]
    exact id

/-- **A program** that passes the checker spares all lists that are there and does not break the
discipline, whatever it reads. -/
theorem Environment.decode_sound (environment : Environment) {refer : Referral}
    (valid : environment.program.validate = .ok [])
    (sober : ∀ part ∈ blockParts environment.program.instructions,
      part.Sober strict environment.types refer) {opening : Except Fault View}
    (opened : Harmless opening) (values : List Value) (machine : Machine) :
    Spares strict [] (fun _ => True) (environment.decode refer opening values) machine := by
  obtain ⟨extent, passed⟩ := Program.passed_of_validate valid
  refine Spares.ofExcept_bind (bindArguments_sound passed.arguments values) fun frame _ tracks => ?_
  refine Spares.ofExcept_bind opened fun view _ _ => ?_
  refine (runBlock_sound _ sober _ _ 0 [] _ machine passed.body (tracks.bindReader view)).bind
    fun frame _ _ tracksFrame => ?_
  have output : Ends environment.program.outputRegister (fun register => register = extent.last)
      fun fault => ¬fault.Breaks := by
    rw [passed.output]
    exact rfl
  refine Spares.ofExcept_bind output fun register _ same => ?_
  rw [same]
  exact .ofExcept (tracksFrame.get_written (Or.inl passed.written))

/-- A program that the checker has nothing against, and that uses no field in its expressions. -/
structure Linked.Valid (linked : Linked) : Prop where
  passes : linked.program.validate = .ok []
  fieldless : ∀ target expression,
    Instruction.eval target expression ∈ blockParts linked.program.instructions →
      expression.isFieldless = true

/-- A program that the checker has nothing against. A strict one also uses no field in its
expressions. -/
structure Linked.Checked (strict : Prop) (linked : Linked) : Prop where
  passes : linked.program.validate = .ok []
  fieldless : strict → ∀ target expression,
    Instruction.eval target expression ∈ blockParts linked.program.instructions →
      expression.isFieldless = true

theorem Linked.Valid.checked {linked : Linked} (valid : linked.Valid) (strict : Prop) :
    linked.Checked strict :=
  ⟨valid.passes, fun _ => valid.fieldless⟩

theorem Linked.Checked.sober {strict : Prop} {linked : Linked} {refer : Referral}
    (checked : linked.Checked strict)
    (refers : ∀ message, linked.Names message → refer.Sound strict message) :
    ∀ part ∈ blockParts linked.program.instructions, part.Sober strict linked.types refer := by
  intro part member
  cases part with
  | eval target expression => exact fun holds => checked.fieldless holds target expression member
  | decodeReference target data name arguments =>
    exact fun message required => refers message ⟨target, data, name, arguments, member, required⟩
  | _ => trivial

/-- **A message** that passes the checker, with all that it refers to, spares the lists of its caller
and does not break the discipline. -/
theorem decodeMessage_sound {strict : Prop} (mode : String) (config : Config) (depth : Nat)
    (types : Types) (message : MessageType)
    (checked : (Linked.ofMessage message types).Throughout (Linked.Checked strict)) :
    (decodeMessage types mode config depth).Sound strict message := by
  induction depth generalizing types message with
  | zero => exact fun _ _ _ => .throw id
  | succ depth hypothesis =>
    intro view values machine
    have opened : Harmless (.ok view) := trivial
    refine Environment.decode_sound ⟨message.program, message.visible types, mode, config⟩
      checked.here.passes ?_ opened values machine
    exact checked.here.sober fun other names => hypothesis _ other (checked.message names)

end WireProgram
