/-
**What the checker knows of a frame.**

The checker goes on after a finding, and so may a run: what the checker takes for written is what the
frame of a run sees, whether or not the program passes. The registers out of range are left out, since
a run may write them and the checker does not. The main definitions and statements:

* `Yields`, what holds of the value of a step, if it gives one;
* `Instruction.run_yields`, **an instruction that completes** has read what it needs, and written;
* `Agrees`, a scope of the checker that agrees with a frame;
* `Instruction.run_agrees` and `runBlock_agrees`, an instruction and a block;
* `bindArguments_agrees`, the arguments of a program.
-/

import WireProgram.Proofs.Discipline.Range
import WireProgram.Proofs.Discipline.Track

namespace WireProgram

/-! ### What a step yields -/

/-- A step whose value is good, if it gives one. -/
def Yields {α : Type} (good : α → Prop) (step : Step α) : Prop :=
  ∀ before value after, step.run before = (.ok value, after) → good value

namespace Yields

variable {α β : Type} {good : α → Prop} {better : β → Prop} {step : Step α}

theorem any (step : Step α) : Yields (fun _ => True) step :=
  fun _ _ _ _ => trivial

theorem pure {value : α} (holds : good value) : Yields good (Pure.pure value : Step α) := by
  intro before found after ran
  cases ran
  exact holds

theorem throw (failure : Failure) : Yields good (MonadExcept.throw failure : Step α) := by
  intro before found after ran
  cases ran

theorem mono {more : α → Prop} (yields : Yields good step)
    (implied : ∀ value, good value → more value) : Yields more step :=
  fun before value after ran => implied value (yields before value after ran)

/-- **Sequencing.** -/
theorem bind {next : α → Step β} (first : Yields good step)
    (second : ∀ value, good value → Yields better (next value)) :
    Yields better (step >>= next) := by
  intro before value after ran
  obtain ⟨found, middle, one, two⟩ := run_bind_eq_ok ran
  exact second found (first before found middle one) middle value after two

theorem ofExcept (result : Except Fault α) :
    Yields (fun value => result = .ok value) (Step.ofExcept result) := by
  intro before value after ran
  rw [Step.run_ofExcept] at ran
  cases result with
  | ok found =>
    cases ran
    rfl
  | error fault => cases ran

theorem guarded (config : Config) (depth : Nat) (site : Site) (yields : Yields good step) :
    Yields good (Step.guarded config depth site step) := by
  intro before value after ran
  rw [Step.run_guarded] at ran
  rcases same : step.run before with ⟨failure | found, middle⟩
  · rw [same] at ran
    cases ran
  · rw [same] at ran
    cases ran
    exact yields before _ _ same

end Yields

/-! ### What an instruction needs -/

/-- A register that a frame sees. -/
def Frame.Sees (frame : Frame) (register : Register) : Prop :=
  ∃ value, frame.get register = .ok value

/-- The registers that a run of an instruction reads in its own scope. A loop with a count leaves its
target alone. -/
def Instruction.needs : Instruction → List Register
  | .loop _ (some stop) none _ _ => [stop]
  | instruction => instruction.reads

/-- What an instruction that completes has written: its register, unless it adds to a list. -/
def Instruction.Wrote (frame : Frame) : Instruction → Frame → Prop
  | .loopOutput _ _, next => next = frame
  | instruction, next => ∃ value, frame.set instruction.labelRegister value = .ok next

/-- A frame in which an instruction may complete, and the frame after it. -/
def Instruction.Completed (instruction : Instruction) (frame next : Frame) : Prop :=
  (∀ register ∈ instruction.needs, frame.Sees register) ∧ instruction.Wrote frame next

section Reads

variable {frame : Frame}

theorem Frame.sees_of_target {target : Target} {view : View}
    (found : frame.target target = .ok view) : ∀ register ∈ target.reads, frame.Sees register := by
  cases target with
  | direct => exact fun register member => absurd member List.not_mem_nil
  | stream register =>
    exact List.forall_mem_singleton.mpr ⟨_, Frame.streamIn_eq_ok.mp found⟩
  | buffer register =>
    exact List.forall_mem_singleton.mpr ⟨_, Frame.streamIn_eq_ok.mp found⟩

/-- Results that are computed one after another are all there if the last one is. -/
theorem forall_of_mapM_eq_ok {α β : Type} {act : α → Except Fault β} {items : List α}
    {results : List β} (same : items.mapM act = .ok results) :
    ∀ item ∈ items, ∃ result, act item = .ok result := by
  induction items generalizing results with
  | nil => exact fun item member => absurd member List.not_mem_nil
  | cons first items hypothesis =>
    rw [List.mapM_cons] at same
    obtain ⟨result, here, same⟩ := bind_eq_ok same
    obtain ⟨others, later, -⟩ := bind_eq_ok same
    exact List.forall_mem_cons.mpr ⟨⟨result, here⟩, hypothesis later⟩

theorem Frame.sees_of_getMany {registers : List Register} {values : List Value}
    (found : frame.getMany registers = .ok values) :
    ∀ register ∈ registers, frame.Sees register :=
  forall_of_mapM_eq_ok found

theorem Constructable.sees_of_build {types : Types} {constructable : Constructable} {value : Value}
    (built : constructable.build types frame = .ok value) :
    ∀ register ∈ constructable.reads, frame.Sees register := by
  cases constructable with
  | tuple items =>
    have mapped : (frame.getMany items).map Value.tuple = .ok value := built
    cases read : frame.getMany items with
    | ok values => exact Frame.sees_of_getMany read
    | error fault =>
      rw [read] at mapped
      cases mapped
  | tagged name items =>
    obtain ⟨values, read, -⟩ := bind_eq_ok built
    exact Frame.sees_of_getMany read
  | struct name fields =>
    obtain ⟨values, read, -⟩ := bind_eq_ok built
    intro register member
    obtain ⟨field, listed, rfl⟩ := List.mem_map.mp member
    obtain ⟨named, same⟩ := forall_of_mapM_eq_ok read field listed
    cases found : frame.get field.2 with
    | ok value => exact ⟨value, found⟩
    | error fault =>
      rw [found] at same
      cases same

theorem countIn_yields (frame : Frame) (what : String) (register : Register) :
    Yields (fun _ => frame.Sees register) (countIn frame what register) :=
  (Yields.ofExcept _).bind fun value found => (Yields.any _).mono fun _ _ => ⟨value, found⟩

theorem conditionHolds_yields (frame : Frame) (condition : Register) :
    Yields (fun _ => frame.Sees condition) (conditionHolds frame condition) :=
  (Yields.ofExcept _).bind fun value found => (Yields.any _).mono fun _ _ => ⟨value, found⟩

theorem addOutput_yields (frame : Frame) (output item : Register) :
    Yields (fun _ => frame.Sees output ∧ frame.Sees item) (addOutput frame output item) := by
  refine (Yields.ofExcept _).bind fun list found => ?_
  split
  · exact (Yields.ofExcept _).bind fun value read =>
      (Yields.any _).mono fun _ _ => ⟨⟨_, found⟩, ⟨value, read⟩⟩
  · exact .throw _

theorem forall_mem_append_singleton {good : Register → Prop} {front : List Register}
    {last : Register} (each : ∀ register ∈ front, good register) (holds : good last) :
    ∀ register ∈ front ++ [last], good register :=
  List.forall_mem_append.mpr ⟨each, List.forall_mem_singleton.mpr holds⟩

end Reads

/-- **An instruction that completes** has read the registers that it needs, and written its own. -/
theorem Instruction.run_yields (environment : Environment) (refer : Referral)
    (instruction : Instruction) (frame : Frame) :
    Yields (instruction.Completed frame) (instruction.run environment refer frame) := by
  have wrote : ∀ (register : Register) (value : Value), Yields
      (fun next => ∃ value, frame.set register value = .ok next)
      (Step.ofExcept (frame.set register value)) :=
    fun register value => (Yields.ofExcept _).mono fun next same => ⟨value, same⟩
  cases instruction with
  | eval target expression =>
    exact (Yields.any _).bind fun value _ => (wrote target value).mono fun next written =>
      ⟨fun register member => absurd member List.not_mem_nil, written⟩
  | construct target constructable =>
    exact (Yields.ofExcept _).bind fun value built => (wrote target value).mono fun next written =>
      ⟨constructable.sees_of_build built, written⟩
  | constrict stream newStream length =>
    exact (Yields.ofExcept _).bind fun view found => (countIn_yields frame _ length).bind
      fun count read => (Yields.any _).bind fun bounded _ => (wrote newStream _).mono
        fun next written =>
          ⟨forall_mem_append_singleton (Frame.sees_of_target found) read, written⟩
  | wrapStream stream newStream transform arguments =>
    exact (Yields.ofExcept _).bind fun view found => (Yields.ofExcept _).bind fun values read =>
      (Yields.any _).bind fun wrapped _ => (wrote newStream _).mono fun next written =>
        ⟨List.forall_mem_append.mpr ⟨Frame.sees_of_target found, Frame.sees_of_getMany read⟩,
          written⟩
  | conditionalWrapStream condition prelude stream newStream transform arguments =>
    refine (Yields.ofExcept _).bind fun view found =>
      (conditionHolds_yields frame condition).bind fun holds read => ?_
    have needs : ∀ register ∈ condition :: stream.reads, frame.Sees register :=
      List.forall_mem_cons.mpr ⟨read, Frame.sees_of_target found⟩
    split
    · exact (Yields.any _).bind fun inner _ => (Yields.any _).bind fun values _ =>
        (Yields.any _).bind fun wrapped _ => (wrote newStream _).mono fun next written =>
          ⟨needs, written⟩
    · exact (wrote newStream _).mono fun next written => ⟨needs, written⟩
  | decodeForeign target data foreign arguments =>
    exact (Yields.ofExcept _).bind fun view found => (Yields.ofExcept _).bind fun values read =>
      (Yields.any _).bind fun value _ => (wrote data value).mono fun next written =>
        ⟨List.forall_mem_append.mpr ⟨Frame.sees_of_target found, Frame.sees_of_getMany read⟩,
          written⟩
  | decodeReference target data name arguments =>
    exact (Yields.ofExcept _).bind fun view found => (Yields.any _).bind fun entry _ =>
      (Yields.ofExcept _).bind fun values read => (Yields.any _).bind fun message _ =>
        (Yields.any _).bind fun value _ => (wrote data value).mono fun next written =>
          ⟨List.forall_mem_append.mpr ⟨Frame.sees_of_target found, Frame.sees_of_getMany read⟩,
            written⟩
  | decodeEnumeration name backing data target =>
    exact (Yields.ofExcept _).bind fun view found => (Yields.any _).bind fun entry _ =>
      (Yields.any _).bind fun value _ => (wrote data value).mono fun next written =>
        ⟨Frame.sees_of_target found, written⟩
  | decodePrimitive target data primitive =>
    exact (Yields.ofExcept _).bind fun view found => (Yields.any _).bind fun value _ =>
      (wrote data value).mono fun next written => ⟨Frame.sees_of_target found, written⟩
  | decodeArray target data primitive length =>
    cases length with
    | none =>
      exact (Yields.ofExcept _).bind fun view found => (Yields.any _).bind fun value _ =>
        (wrote data value).mono fun next written =>
          ⟨List.forall_mem_append.mpr ⟨Frame.sees_of_target found,
            fun register member => absurd member List.not_mem_nil⟩, written⟩
    | some length =>
      exact (Yields.ofExcept _).bind fun view found => (countIn_yields frame _ length).bind
        fun count read => (Yields.any _).bind fun value _ => (wrote data value).mono
          fun next written =>
            ⟨forall_mem_append_singleton (Frame.sees_of_target found) read, written⟩
  | loop target stop terminator output body =>
    have collected : ∀ (list : Value) (rounds : Frame → Step Unit), Yields
        (fun next => ∃ value, frame.set output value = .ok next)
        (Step.ofExcept (frame.set output list) >>= fun outer =>
          rounds outer >>= fun _ => Pure.pure outer) :=
      fun list rounds => (wrote output list).bind fun outer written =>
        (Yields.any _).bind fun _ _ => .pure written
    cases stop with
    | some stop =>
      cases terminator with
      | some terminator => exact .throw _
      | none =>
        exact (countIn_yields frame _ stop).bind fun count read => (Yields.any _).bind
          fun list _ => (collected list _).mono fun next written =>
            ⟨List.forall_mem_singleton.mpr read, written⟩
    | none =>
      cases terminator with
      | some terminator =>
        refine (Yields.ofExcept _).bind fun view found => (Yields.ofExcept _).bind
          fun value read => (Yields.any _).bind fun lists _ => (Yields.any _).bind fun bound _ =>
            (Yields.any _).bind fun ending _ => ?_
        split
        · exact .throw _
        · refine (Yields.any _).bind fun list _ => (collected list _).mono fun next written => ?_
          refine ⟨forall_mem_append_singleton ?_ ⟨value, read⟩, written⟩
          exact List.forall_mem_append.mpr ⟨Frame.sees_of_target found,
            fun register member => absurd member List.not_mem_nil⟩
      | none =>
        refine (Yields.ofExcept _).bind fun view found => (Yields.any _).bind fun content _ =>
          (Yields.any _).bind fun cursor _ => (Yields.any _).bind fun list _ =>
            (collected list _).mono fun next written => ⟨?_, written⟩
        show ∀ register ∈ target.reads ++ [] ++ [], frame.Sees register
        rw [List.append_nil, List.append_nil]
        exact Frame.sees_of_target found
  | loopOutput output item =>
    exact (addOutput_yields frame output item).bind fun _ ⟨list, read⟩ => .pure
      ⟨List.forall_mem_cons.mpr ⟨list, List.forall_mem_singleton.mpr read⟩, rfl⟩
  | conditional target interior condition body =>
    refine (conditionHolds_yields frame condition).bind fun holds read => ?_
    split
    · exact (Yields.any _).bind fun inner _ => (Yields.any _).bind fun value _ =>
        (wrote target value).mono fun next written =>
          ⟨List.forall_mem_singleton.mpr read, written⟩
    · exact (wrote target _).mono fun next written =>
        ⟨List.forall_mem_singleton.mpr read, written⟩

/-! ### Scopes and frames -/

/-- A scope of the checker that agrees with a frame: of the registers in range, what the one takes for
written the other sees. -/
def Agrees (extent : Extent) (scope : CheckScope) (frame : Frame) : Prop :=
  ∀ register, inCount extent.count register = true →
    (scope.isWritten register = true ↔ (frame.find? register.slot).isSome = true)

namespace Agrees

variable {extent : Extent} {scope : CheckScope} {frame next : Frame} {register : Register}
  {place : Place} {value : Value}

theorem start : Agrees extent {} {} :=
  fun _ _ => iff_of_false Bool.false_ne_true Bool.false_ne_true

theorem bindReader (agrees : Agrees extent scope frame) (view : View) :
    Agrees extent scope (frame.bindReader view) :=
  agrees

/-- A register in range that is not written cannot be read. -/
theorem not_sees (agrees : Agrees extent scope frame)
    (within : inCount extent.count register = true) (unwritten : scope.isWritten register = false) :
    ¬frame.Sees register := by
  rintro ⟨value, read⟩
  obtain ⟨slot, addressed, found⟩ := Frame.get_eq_ok.mp read
  have seen : (frame.find? register.slot).isSome = true := by
    rw [Register.slot_of_slot? addressed, found]
    rfl
  rw [← agrees register within, unwritten] at seen
  cases seen

/-- A register in range that is written cannot be written again. -/
theorem not_set (agrees : Agrees extent scope frame)
    (within : inCount extent.count register = true) (written : scope.isWritten register = true) :
    frame.set register value ≠ .ok next := by
  intro set
  obtain ⟨slot, addressed, free, -⟩ := Frame.set_eq_ok.mp set
  have seen := (agrees register within).mp written
  rw [Register.slot_of_slot? addressed, free] at seen
  cases seen

/-- **A write** keeps a scope and a frame in agreement: one in range is new to both, and one out of
range is none of the registers that they agree on. -/
theorem set (agrees : Agrees extent scope frame) (set : frame.set register value = .ok next) :
    Agrees extent (checkWrite extent scope place register).2 next := by
  obtain ⟨slot, addressed, free, rfl⟩ := Frame.set_eq_ok.mp set
  have slotted := Register.slot_of_slot? addressed
  cases range : inCount extent.count register with
  | false =>
    have same : (checkWrite extent scope place register).2 = scope := by
      unfold checkWrite
      rw [range]
      rfl
    intro other within
    rw [same, Frame.find?_write]
    have apart : other.slot ≠ slot := by
      intro equal
      obtain ⟨found, addressed'⟩ := Option.isSome_iff_exists.mp (slot?_isSome_of_inCount within)
      rw [Register.slot_of_slot? addressed'] at equal
      rw [inCount_eq_of_slot? (equal ▸ addressed') addressed, range] at within
      cases within
    rw [if_neg apart]
    exact agrees other within
  | true =>
    have unwritten : scope.isWritten register = false := by
      rw [← Bool.not_eq_true, agrees register range, slotted, free]
      exact Bool.false_ne_true
    have same : (checkWrite extent scope place register).2 =
        { scope with own := register.slot :: scope.own } := by
      unfold checkWrite
      rw [range, unwritten]
      rfl
    intro other within
    have before := agrees other within
    rw [CheckScope.isWritten_iff] at before
    rw [same, Frame.find?_write, CheckScope.isWritten_iff, slotted]
    by_cases equal : other.slot = slot
    · rw [if_pos equal]
      exact iff_of_true (.inl (equal ▸ List.mem_cons_self ..)) rfl
    · rw [if_neg equal, ← before]
      simp only [List.mem_cons, equal, false_or]

/-- A nested block sees what the block around it sees. -/
theorem child (agrees : Agrees extent scope frame) (output : Option Register) :
    Agrees extent (scope.child output) (frame.child none []) := by
  intro register within
  rw [CheckScope.isWritten_iff, Tracks.child_iff, ← CheckScope.isWritten_iff, Frame.find?_child]
  exact agrees register within

/-- The body of a loop over a cursor sees the cursor in a register that was seen before. -/
theorem cursorFrame (agrees : Agrees extent scope frame) (output : Option Register)
    {target : Target} {view : View} (found : frame.target target = .ok view) (cursor : View) :
    Agrees extent (scope.child output) (WireProgram.cursorFrame frame target cursor) := by
  have inner := agrees.child output
  rcases cursorFrame_cases frame target cursor with same | same | ⟨register, slot, read, addressed,
    same⟩
  · rw [same]
    exact inner
  · rw [same]
    exact inner
  · have sees : frame.Sees register := by
      rcases read with rfl | rfl <;>
        exact Frame.sees_of_target found register (List.mem_singleton_self _)
    obtain ⟨value, held⟩ := sees
    obtain ⟨asked, addressed', holds⟩ := Frame.get_eq_ok.mp held
    obtain rfl : asked = slot := Option.some.inj (addressed'.symm.trans addressed)
    intro other within
    rw [inner other within, same, Frame.find?_child, Frame.find?_child, List.lookup_nil,
      Option.none_or, List.lookup_cons, List.lookup_nil]
    by_cases equal : other.slot = asked
    · rw [equal, holds, beq_self_eq_true]
      rfl
    · rw [beq_eq_false_iff_ne.mpr equal]
      rfl

end Agrees

/-! ### Instructions and blocks -/

section Blocks

variable {extent : Extent} {scope : CheckScope} {frame : Frame}

/-- After an instruction the checker takes its register for written, if it writes one. -/
theorem checkInstruction_wrote {place : Place} {instruction : Instruction} {next : Frame}
    (agrees : Agrees extent scope frame) (wrote : instruction.Wrote frame next) :
    Agrees extent (checkInstruction extent scope place instruction).2 next := by
  cases instruction with
  | loopOutput output item =>
    obtain rfl : next = frame := wrote
    exact agrees
  | _ =>
    obtain ⟨value, set⟩ := wrote
    exact agrees.set set

/-- **An instruction** that completes keeps the checker and the run in agreement. -/
theorem Instruction.run_agrees (environment : Environment) (refer : Referral)
    (instruction : Instruction) (place : Place) (agrees : Agrees extent scope frame) :
    Yields (Agrees extent (checkInstruction extent scope place instruction).2)
      (instruction.run environment refer frame) :=
  (instruction.run_yields environment refer frame).mono fun _ completed =>
    checkInstruction_wrote agrees completed.2

/-- **A block** that completes keeps the checker and the run in agreement. -/
theorem runBlock_agrees (environment : Environment) (refer : Referral)
    (placeOf : Nat → String → Place) (checked index : Nat) (block : List Instruction)
    (agrees : Agrees extent scope frame) :
    Yields (Agrees extent (checkInstructions extent scope placeOf checked block).2)
      (runBlock environment refer block index frame) := by
  induction block generalizing scope frame checked index with
  | nil => exact .pure agrees
  | cons instruction rest hypothesis =>
    exact (Yields.any _).bind fun _ _ => ((instruction.run_agrees environment refer
      (placeOf checked instruction.kind) agrees).guarded _ _ _).bind fun next agrees' =>
        hypothesis (checked + 1) (index + 1) agrees'

end Blocks

/-- The arguments of a program are written, in the checker as in the run. -/
theorem bindArguments_agrees {extent : Extent} {program : Program} {values : List Value}
    {frame : Frame} (bound : bindArguments program values = .ok frame) :
    Agrees extent (checkArguments extent {} program.arguments).2 frame := by
  have written : ∀ (registers : List Register) (values : List Value) (scope : CheckScope)
      (start : Frame), values.length = registers.length → Agrees extent scope start →
        (registers.zip values).foldlM (fun frame entry => frame.set entry.1 entry.2) start =
          .ok frame → Agrees extent (checkArguments extent scope registers).2 frame := by
    intro registers
    induction registers with
    | nil =>
      intro values scope start same agrees folded
      cases folded
      exact agrees
    | cons register registers hypothesis =>
      intro values scope start same agrees folded
      cases values with
      | nil => cases same
      | cons value values =>
        rw [List.zip_cons_cons, List.foldlM_cons] at folded
        obtain ⟨next, set, folded⟩ := bind_eq_ok folded
        exact hypothesis values _ next (Nat.succ.inj same) (agrees.set set) folded
  unfold bindArguments at bound
  split at bound
  · rename_i same
    exact written _ _ _ _ same .start bound
  · cases bound

end WireProgram
