/-
**What the checker says of a run.**

A run and the checker go through a program by the same way. Wherever the run stands, the registers that
the checker takes for written are those that the frame sees, whether or not the program passes; and an
instruction with a finding on the order of reads and writes does not complete. The main definitions and
statements:

* `Station.Stands`, where the checker stands when a run stands at a station;
* `Station.Stands.agrees` and `Station.Stands.finds`, what is kept up on the way;
* `Station.Skips`, a read that a run leaves out;
* `Station.Stands.exists_fieldValue_iff`, the fields of expressions, which the checker does not follow;
* `decode_agrees`, whole runs.
-/

import WireProgram.Proofs.Discipline.Exact
import WireProgram.Proofs.Discipline.Place
import WireProgram.Proofs.Station

namespace WireProgram

/-! ### The extent of a program -/

/-- The extent that the checker gives a program. -/
def Program.extent (program : Program) : Extent :=
  ⟨program.registerCount, program.outputRegister.toOption.getD (.index 0)⟩

/-- What the checker reports: that there are no registers, or what is wrong with them. -/
theorem Program.findings_of_validate {program : Program} {findings : List Finding}
    (checked : program.validate = .ok findings) :
    findings = [⟨.program, .noRegisters⟩] ∨ findings = program.findings program.extent := by
  unfold validate at checked
  obtain ⟨has, -, checked⟩ := bind_eq_ok checked
  cases has with
  | false => exact .inl (Except.ok.inj checked).symm
  | true =>
    obtain ⟨last, output, checked⟩ := bind_eq_ok checked
    cases numbered : program.isNumbered with
    | false =>
      rw [numbered] at checked
      cases checked
    | true =>
      rw [numbered] at checked
      unfold extent
      rw [output]
      exact .inr (Except.ok.inj checked).symm

namespace CheckScope

variable {extent : Extent} {scope : CheckScope} {place : Place} {register other : Register}

/-! ### Registers stay written -/

theorem isWritten_checkWrite (written : scope.isWritten register = true) :
    (checkWrite extent scope place other).2.isWritten register = true := by
  unfold checkWrite
  split
  · exact written
  · split
    · exact written
    · rw [isWritten_iff] at written ⊢
      exact written.imp_left (List.mem_cons_of_mem _)

theorem isWritten_checkInstruction {instruction : Instruction}
    (written : scope.isWritten register = true) :
    (checkInstruction extent scope place instruction).2.isWritten register = true := by
  cases instruction with
  | loopOutput output item => exact written
  | _ => exact isWritten_checkWrite written

theorem isWritten_checkInstructions {placeOf : Nat → String → Place} {index : Nat}
    {block : List Instruction} (written : scope.isWritten register = true) :
    (checkInstructions extent scope placeOf index block).2.isWritten register = true := by
  induction block generalizing scope index with
  | nil => exact written
  | cons instruction rest hypothesis => exact hypothesis (isWritten_checkInstruction written)

theorem isWritten_child (output : Option Register) :
    (scope.child output).isWritten register = true ↔ scope.isWritten register = true := by
  rw [isWritten_iff, Tracks.child_iff, ← isWritten_iff]

end CheckScope

/-- A register in range is written just if the frame sees it. -/
theorem Agrees.sees_iff {extent : Extent} {scope : CheckScope} {frame : Frame} {register : Register}
    (agrees : Agrees extent scope frame) (within : inCount extent.count register = true) :
    scope.isWritten register = true ↔ frame.Sees register := by
  constructor
  · intro written
    obtain ⟨slot, addressed⟩ := Option.isSome_iff_exists.mp (slot?_isSome_of_inCount within)
    have seen := (agrees register within).mp written
    rw [Register.slot_of_slot? addressed] at seen
    obtain ⟨value, found⟩ := Option.isSome_iff_exists.mp seen
    exact ⟨value, Frame.get_eq_ok.mpr ⟨slot, addressed, found⟩⟩
  · intro sees
    by_contra unwritten
    exact agrees.not_sees within (Bool.eq_false_iff.mpr unwritten) sees

namespace Station

variable {station next : Station} {point : CheckPoint} {instruction : Instruction}
  {rest : List Instruction} {entry : Entry}

/-! ### Where the checker stands -/

/-- Where the checker stands when a run stands at a station: it comes there by the same way, from the
start of the program on. -/
inductive Stands : Station → CheckPoint → Prop
  | start {station : Station} {view : View} {values : List Value}
    (starts : station.Starts view values) :
    Stands station (.start station.environment.program.extent station.environment.program)
  | later {station : Station} {point : CheckPoint} {instruction : Instruction}
    {rest : List Instruction} {frame : Frame} {machine : Machine} (stands : Stands station point)
    (block : station.block = instruction :: rest)
    (ran : (instruction.run station.environment station.refer station.frame).run
      (station.started instruction) = (.ok frame, machine)) :
    Stands
      { station with block := rest, index := station.index + 1, frame := frame, machine := machine }
      (point.past station.environment.program.extent station.index instruction)
  | inside {station : Station} {point : CheckPoint} {instruction : Instruction}
    {rest : List Instruction} {entry : Entry} (stands : Stands station point)
    (block : station.block = instruction :: rest) (opens : station.Opens instruction entry) :
    Stands (station.enter entry)
      (.into point.scope station.environment.program.extent (point.place station.index instruction)
        instruction)

/-- **The checker comes** wherever a run does. -/
theorem Follows.exists_stands (follows : station.Follows next) (stands : station.Stands point) :
    ∃ point, next.Stands point := by
  cases follows with
  | later block ran => exact ⟨_, stands.later block ran⟩
  | inside block opens => exact ⟨_, stands.inside block opens⟩
  | message block targeted required read entered depth environment machine starts =>
    exact ⟨_, .start starts⟩

/-! ### What is kept up on the way -/

theorem Opens.block_eq (opens : station.Opens instruction entry) : entry.block = instruction.body := by
  cases opens <;> rfl

/-- A block that is opened starts in a frame that the checker agrees with. -/
theorem Opens.agrees {extent : Extent} {scope : CheckScope} {place : Place}
    (opens : station.Opens instruction entry) (agrees : Agrees extent scope station.frame) :
    Agrees extent (CheckPoint.into scope extent place instruction).scope entry.frame := by
  cases opens with
  | prelude target holds => exact agrees.child none
  | conditional holds => exact agrees.child none
  | counted counts lists written rounds within => exact (agrees.set written).child _
  | terminated targeted read ends lists written rounds => exact (agrees.set written).child _
  | throughout targeted read opens lists written rounds =>
    exact (agrees.set written).cursorFrame _ (Frame.target_of_set written targeted) _

/-- **The checker agrees with the frame** wherever a run stands. -/
theorem Stands.agrees (stands : station.Stands point) :
    Agrees station.environment.program.extent point.scope station.frame := by
  induction stands with
  | start starts =>
    obtain ⟨frame, bound, same, -⟩ := starts
    rw [same]
    exact (bindArguments_agrees bound).bindReader _
  | @later station point instruction rest frame machine stands block ran hypothesis =>
    exact instruction.run_agrees _ _ (point.place station.index instruction) hypothesis _ _ _ ran
  | inside stands block opens hypothesis => exact opens.agrees hypothesis

/-- **All findings** of what comes next are made where the checker stands. -/
theorem Stands.finds (stands : station.Stands point) :
    point.Finds station.environment.program.extent
      (station.environment.program.findings station.environment.program.extent) station.index
      station.block := by
  induction stands with
  | start starts =>
    obtain ⟨frame, -, -, -, index, block⟩ := starts
    rw [index, block]
    exact .start _ _
  | later stands block ran hypothesis =>
    rw [block] at hypothesis
    exact hypothesis.past
  | @inside station point instruction rest entry stands block opens hypothesis =>
    rw [block] at hypothesis
    show CheckPoint.Finds _ _ _ 0 entry.block
    rw [opens.block_eq]
    exact hypothesis.into

/-! ### Reads that a run leaves out -/

/-- A read that a run leaves out: of the target of a loop with a count, or of an argument of a transform
whose condition does not hold. -/
def Skips (station : Station) (register : Register) : Instruction → Prop
  | .loop target (some stop) none _ _ => register ∈ target.reads ∧ register ≠ stop
  | .conditionalWrapStream condition prelude stream newStream transform arguments =>
    register ∈ arguments ∧ register ∉ condition :: stream.reads ∧
      ∃ asked, (conditionHolds station.frame condition).run
        (station.started (.conditionalWrapStream condition prelude stream newStream transform
          arguments)) = (.ok false, asked)
  | _ => False

/-- A register that an instruction reads is one that it needs, unless a run leaves it out. -/
theorem mem_needs_of_reads {register : Register} (member : register ∈ instruction.reads) :
    register ∈ instruction.needs ∨ station.Skips register instruction := by
  cases instruction with
  | loop target stop terminator output body =>
    cases stop with
    | none => exact .inl member
    | some stop =>
      cases terminator with
      | some terminator => exact .inl member
      | none =>
        by_cases same : register = stop
        · exact .inl (List.mem_singleton.mpr same)
        · rcases List.mem_append.mp member with member | nothing
          · rcases List.mem_append.mp member with target | stops
            · exact .inr ⟨target, same⟩
            · exact absurd (List.mem_singleton.mp stops) same
          · cases nothing
  | _ => exact .inl member

/-- **A transform under a condition** that completes has read its arguments, unless the condition does
not hold: where its prelude ends the checker takes them for written. -/
theorem isWritten_of_lateReads {extent : Extent} {scope : CheckScope} {place : Place}
    {frame : Frame} {after : Machine} {register : Register}
    (agrees : Agrees extent scope station.frame)
    (ran : (instruction.run station.environment station.refer station.frame).run
      (station.started instruction) = (.ok frame, after))
    (listed : register ∈ instruction.lateReads) (within : inCount extent.count register = true) :
    (checkBody extent scope place instruction).2.isWritten register = true ∨
      station.Skips register instruction := by
  cases instruction with
  | conditionalWrapStream condition prelude stream newStream transform arguments =>
    obtain ⟨needed, -⟩ := Instruction.run_yields _ _ _ _ _ _ _ ran
    by_cases early : register ∈ condition :: stream.reads
    · -- one that is read before the prelude as well is written before it, and stays written
      have written := (agrees.sees_iff within).mpr (needed register early)
      exact .inl (CheckScope.isWritten_checkInstructions
        ((CheckScope.isWritten_child none).mpr written))
    · obtain ⟨view, _, found, ran⟩ := run_bind_eq_ok ran
      rw [Step.run_ofExcept] at found
      cases (Prod.mk.inj found).2
      obtain ⟨holds, _, asked, ran⟩ := run_bind_eq_ok ran
      cases holds with
      | false => exact .inr ⟨listed, early, _, asked⟩
      | true =>
        obtain ⟨inner, _, block, ran⟩ := run_bind_eq_ok ran
        obtain ⟨values, _, read, -⟩ := run_bind_eq_ok ran
        have inside := runBlock_agrees _ _ (.inside place "prelude") 0 0 prelude
          (agrees.child none) _ _ _ block
        have sees := Frame.sees_of_getMany (Yields.ofExcept _ _ _ _ read) register listed
        exact .inl ((inside.sees_iff within).mpr sees)
  | _ => cases listed

/-- **An instruction that is blamed does not complete**, unless it is for a read that the run leaves
out. -/
theorem not_completes {extent : Extent} {scope : CheckScope} (place : Place) {frame : Frame}
    {after : Machine} (agrees : Agrees extent scope station.frame)
    (ran : (instruction.run station.environment station.refer station.frame).run
      (station.started instruction) = (.ok frame, after)) :
    (∀ register, ¬instruction.Blamed extent scope place (.writtenTwice register)) ∧
      ∀ register, instruction.Blamed extent scope place (.readBeforeWritten register) →
        station.Skips register instruction := by
  obtain ⟨needed, wrote⟩ := Instruction.run_yields _ _ _ _ _ _ _ ran
  constructor
  · rintro register ⟨writer, rfl, within, written⟩
    cases instruction with
    | loopOutput output item => cases writer
    | _ =>
      obtain ⟨value, set⟩ := wrote
      exact agrees.not_set within written set
  · rintro register ⟨within, ⟨listed, unwritten⟩ | ⟨listed, unwritten⟩⟩
    · rcases mem_needs_of_reads listed with needs | skips
      · exact absurd (needed register needs) (agrees.not_sees within unwritten)
      · exact skips
    · rcases isWritten_of_lateReads agrees ran listed within with written | skips
      · exact absurd (unwritten.symm.trans written) Bool.false_ne_true
      · exact skips

end Station

/-! ### Fields -/

/-- **A field has a value** just if its register is written. This is all that there is to it: the
checker looks at the range of the registers of fields, and not into the expressions. -/
theorem Station.Stands.exists_fieldValue_iff {station : Station} {point : CheckPoint}
    (stands : station.Stands point) {name : Json} {register : Register}
    (mapped : station.environment.program.field name = .ok register)
    (within : inCount station.environment.program.registerCount register = true) :
    (∃ value, station.environment.program.fieldValue station.frame name = .ok value) ↔
      point.scope.isWritten register = true := by
  unfold Program.fieldValue
  rw [mapped]
  exact (stands.agrees.sees_iff within).symm

/-- A program whose first expression uses a field before the register of the field is written. -/
def hastyField : Environment where
  program :=
    { instructions := [.eval (.index 0) (.field (.string "length")),
        .decodePrimitive .direct (.index 1) "u8"]
      registerCount := .int 2
      fields := [(.string "length", .index 1)] }
  types := []
  mode := "blocking"
  config := {}

/-- The program passes the checker, and its run fails for the register of the field. -/
theorem validate_overlooks_fields : hastyField.program.validate = .ok [] ∧
    ∃ after, (decodeWith hastyField ⟨.cursor 0, false⟩ []).run {} =
      (.error ⟨.program (.notPopulated (.index 1)), []⟩, after) :=
  ⟨rfl, _, rfl⟩

/-! ### Whole runs -/

/-- The checker comes wherever a run of a whole program does. -/
theorem Environment.Visits.exists_stands {environment : Environment} {source : RunSource}
    {values : List Value} {machine : Machine} {station : Station}
    (visits : environment.Visits source values machine station) : ∃ point, station.Stands point := by
  obtain ⟨view, start, -, -, -, -, starts, follows⟩ := visits
  induction follows with
  | refl => exact ⟨_, .start starts⟩
  | tail _ step hypothesis =>
    obtain ⟨point, stands⟩ := hypothesis
    exact step.exists_stands stands

/-- **What the checker says of a run holds of it**, whether or not the program passes. Wherever a run
stands, in a block at any depth and in the program itself or in a message that it comes to, a register
in range is written for the checker just if the frame sees it. If the checker reports that the next
instruction reads a register before it is written or writes one that is written already, then the
instruction does not complete, unless it is for a read that this run leaves out. -/
theorem decode_agrees (environment : Environment) (source : RunSource) (values : List Value)
    (machine : Machine) (station : Station)
    (visits : environment.Visits source values machine station) :
    (∃ point, station.Stands point) ∧ ∀ point, station.Stands point →
      (∀ register, inCount station.environment.program.registerCount register = true →
        (point.scope.isWritten register = true ↔ station.frame.Sees register)) ∧
      ∀ findings, station.environment.program.validate = .ok findings →
        ∀ instruction rest, station.block = instruction :: rest → ∀ register,
          ⟨point.place station.index instruction, .writtenTwice register⟩ ∈ findings ∨
            ⟨point.place station.index instruction, .readBeforeWritten register⟩ ∈ findings ∧
              ¬station.Skips register instruction →
          ∀ frame after, (instruction.run station.environment station.refer station.frame).run
            (station.started instruction) ≠ (.ok frame, after) := by
  refine ⟨visits.exists_stands, fun point stands => ⟨fun register within =>
    stands.agrees.sees_iff within, ?_⟩⟩
  intro findings checked instruction rest block register reported frame after ran
  obtain ⟨once, reads⟩ :=
    Station.not_completes (point.place station.index instruction) stands.agrees ran
  rcases Program.findings_of_validate checked with rfl | rfl
  · -- a program without registers has no finding at an instruction
    rcases reported with reported | ⟨reported, -⟩ <;>
      cases congrArg Finding.problem (List.mem_singleton.mp reported)
  · have finds := stands.finds
    rw [block] at finds
    rcases reported with reported | ⟨reported, counts⟩
    · exact once register (finds.blamed reported rfl)
    · exact counts (reads register (finds.blamed reported rfl))

/-- A program that writes a register twice and reads another one that nothing writes. -/
def rewritten : Environment where
  program :=
    { instructions := [.construct (.index 0) (.tuple []),
        .construct (.index 0) (.tuple [.index 1])]
      registerCount := .int 2 }
  types := []
  mode := "blocking"
  config := {}

/-- Where a run of the program starts, and where it stands after the first instruction. -/
def rewrittenFirst : Station where
  environment := rewritten
  depth := nestingLimit
  loops := []
  block := rewritten.program.instructions
  index := 0
  frame := { scope := { reader := some (.cursor 0) } }
  machine := {}

def rewrittenAgain : Station where
  environment := rewritten
  depth := nestingLimit
  loops := []
  block := [.construct (.index 0) (.tuple [.index 1])]
  index := 1
  frame := { scope := { reader := some (.cursor 0), slots := [(.index 0, .tuple [])] } }
  machine := rewrittenFirst.started (.construct (.index 0) (.tuple []))

theorem rewrittenFirst_starts : rewrittenFirst.Starts (.cursor 0) [] :=
  ⟨{}, rfl, rfl, rfl, rfl, rfl⟩

theorem rewrittenFirst_completes :
    (Instruction.run rewritten rewrittenFirst.refer (.construct (.index 0) (.tuple []))
      rewrittenFirst.frame).run (rewrittenFirst.started (.construct (.index 0) (.tuple []))) =
        (.ok rewrittenAgain.frame, rewrittenAgain.machine) :=
  rfl

/-- Both breaches are reported of the second instruction, which a run comes to and does not complete. -/
theorem decode_agrees_of_rewritten :
    rewritten.Visits ⟨.cursor 0, false⟩ [] {} rewrittenAgain ∧
      ∃ point findings, rewrittenAgain.Stands point ∧ rewritten.program.validate = .ok findings ∧
        (findings.map Finding.text).take 2 = ["#1 Construct: reads r1 before it is written",
          "#1 Construct: register r0 written twice"] ∧
        rewrittenAgain.frame.Sees (.index 0) ∧
        ∀ frame after, (Instruction.run rewritten rewrittenAgain.refer
          (.construct (.index 0) (.tuple [.index 1])) rewrittenAgain.frame).run
            (rewrittenAgain.started (.construct (.index 0) (.tuple [.index 1]))) ≠
              (.ok frame, after) := by
  have stands : rewrittenAgain.Stands
      ((CheckPoint.start rewritten.program.extent rewritten.program).past rewritten.program.extent 0
        (.construct (.index 0) (.tuple []))) :=
    .later (.start rewrittenFirst_starts) rfl rewrittenFirst_completes
  have visits : rewritten.Visits ⟨.cursor 0, false⟩ [] {} rewrittenAgain :=
    ⟨.cursor 0, rewrittenFirst, rfl, rfl, rfl, rfl, rewrittenFirst_starts,
      .single (.later rfl rewrittenFirst_completes)⟩
  obtain ⟨sees, breaches⟩ := (decode_agrees rewritten _ [] {} rewrittenAgain visits).2 _ stands
  exact ⟨visits, _, _, stands, rfl, by decide +kernel, (sees (.index 0) rfl).mp rfl,
    breaches _ rfl _ [] rfl (.index 0) (.inl (.tail _ (.head _)))⟩

end WireProgram
