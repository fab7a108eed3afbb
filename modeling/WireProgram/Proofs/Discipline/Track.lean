/-
**Frames that the checker has followed.**

The checker knows the registers that are written at a point of the program and the lists of the
enclosing loops. A run is followed if the frame holds exactly these registers and these lists:

* `Tracks`, the frame of a run at a point that the checker has reached;
* `Tracks.get` and `Tracks.exists_set`, a read and a write that the checker has passed;
* `Tracks.child`, `Tracks.loopChild` and `Tracks.cursorFrame`, the frames of nested blocks.
-/

import WireProgram.Program.Discipline
import WireProgram.Proofs.Discipline.Quiet
import WireProgram.Proofs.Frame

namespace WireProgram

variable {extent : Extent} {scope : CheckScope} {place : Place} {register : Register} {slot : Slot}
  {frame next : Frame} {loops : List Nat}

/-! ### What the checker passes -/

/-- A loop with two rules does not pass. -/
theorem checkInstruction_twoRules_ne_nil (target : Target) (length terminator output : Register)
    (body : List Instruction) :
    (checkInstruction extent scope place
      (.loop target (some length) (some terminator) output body)).1 ≠ [] := by
  simp [checkInstruction]

theorem Register.slot_of_slot? (addresses : register.slot? = some slot) : register.slot = slot := by
  unfold Register.slot
  rw [addresses]
  rfl

theorem CheckScope.isWritten_iff :
    scope.isWritten register = true ↔ register.slot ∈ scope.own ∨ register.slot ∈ scope.outer := by
  unfold CheckScope.isWritten
  rw [Bool.or_eq_true, List.contains_iff_mem, List.contains_iff_mem]

theorem checkRange_ne_nil (outside : inCount extent.count register = false) :
    checkRange extent place register ≠ [] := by
  unfold checkRange
  rw [outside]
  exact List.cons_ne_nil _ _

theorem Json.slot?_float_isSome (value : Binary64) : (Json.float value).slot?.isSome = true := by
  unfold slot?
  dsimp only
  split <;> rfl

/-- A register below a count addresses a slot. -/
theorem slot?_isSome_of_inCount {count : Json} (within : inCount count register = true) :
    register.slot?.isSome = true := by
  have less := (Bool.and_eq_true_iff.mp within).2
  unfold Register.slot?
  cases document : register.toJson with
  | float value => exact Json.slot?_float_isSome value
  | array items =>
    rw [document] at less
    cases less
  | object fields =>
    rw [document] at less
    cases less
  | _ => rfl

/-- A read that passes is of a register that is in range and written. -/
theorem checkRead_passed (passed : checkRead extent scope place register = []) :
    inCount extent.count register = true ∧ scope.isWritten register = true := by
  unfold checkRead at passed
  cases range : inCount extent.count register with
  | false =>
    rw [range] at passed
    exact absurd passed (checkRange_ne_nil range)
  | true =>
    cases written : scope.isWritten register with
    | true => exact ⟨rfl, rfl⟩
    | false =>
      rw [range, written] at passed
      exact absurd passed (List.cons_ne_nil _ _)

/-- A write that passes is to a register that is not written, and writes it. -/
theorem checkWrite_passed (passed : (checkWrite extent scope place register).1 = []) :
    scope.isWritten register = false ∧ (checkWrite extent scope place register).2 =
      { scope with own := register.slot :: scope.own } := by
  unfold checkWrite at passed ⊢
  cases range : inCount extent.count register with
  | false =>
    rw [range] at passed
    exact absurd passed (checkRange_ne_nil range)
  | true =>
    cases written : scope.isWritten register with
    | true =>
      rw [range, written] at passed
      exact absurd passed (List.cons_ne_nil _ _)
    | false => exact ⟨rfl, rfl⟩

/-- A write that passes is to a register that addresses a slot. -/
theorem slot?_isSome_of_checkWrite (passed : (checkWrite extent scope place register).1 = []) :
    register.slot?.isSome = true := by
  unfold checkWrite at passed
  cases range : inCount extent.count register with
  | false =>
    rw [range] at passed
    exact absurd passed (checkRange_ne_nil range)
  | true => exact slot?_isSome_of_inCount range

/-! ### Frames that are followed -/

/-- A frame that holds the registers that a scope knows; those of the enclosing loops hold the lists
of these loops. -/
structure Tracks (loops : List Nat) (scope : CheckScope) (frame : Frame) : Prop where
  visible : ∀ slot, (frame.find? slot).isSome = true ↔ slot ∈ scope.own ∨ slot ∈ scope.outer
  outputs : ∀ slot ∈ scope.outputs, ∃ cell ∈ loops, frame.find? slot = some (.list cell)

namespace Tracks

theorem start : Tracks loops {} {} := by
  refine ⟨fun slot => ?_, fun slot member => absurd member List.not_mem_nil⟩
  have nothing : Frame.find? {} slot = none := rfl
  simp [nothing]

theorem bindReader (tracks : Tracks loops scope frame) (view : View) :
    Tracks loops scope (frame.bindReader view) :=
  ⟨tracks.visible, tracks.outputs⟩

/-- A register that is written can be read. -/
theorem get_written (tracks : Tracks loops scope frame)
    (written : register.slot ∈ scope.own ∨ register.slot ∈ scope.outer) :
    Harmless (frame.get register) := by
  unfold Frame.get Frame.slotOf
  cases addressed : register.slot? with
  | none => exact id
  | some slot =>
    rw [Register.slot_of_slot? addressed] at written
    obtain ⟨value, found⟩ := Option.isSome_iff_exists.mp ((tracks.visible slot).mpr written)
    simp only [bind, Except.bind, found]
    trivial

/-- **A read** that passes does not fail for want of a value. -/
theorem get (tracks : Tracks loops scope frame)
    (passed : checkRead extent scope place register = []) : Harmless (frame.get register) :=
  tracks.get_written (CheckScope.isWritten_iff.mp (checkRead_passed passed).2)

/-- A register that addresses a slot and is written gives a value. -/
theorem exists_get_written (tracks : Tracks loops scope frame)
    (addresses : register.slot?.isSome = true)
    (written : register.slot ∈ scope.own ∨ register.slot ∈ scope.outer) :
    ∃ value, frame.get register = .ok value := by
  obtain ⟨slot, addressed⟩ := Option.isSome_iff_exists.mp addresses
  rw [Register.slot_of_slot? addressed] at written
  obtain ⟨value, found⟩ := Option.isSome_iff_exists.mp ((tracks.visible slot).mpr written)
  exact ⟨value, Frame.get_eq_ok.mpr ⟨slot, addressed, found⟩⟩

/-- A read that passes gives a value. -/
theorem exists_get (tracks : Tracks loops scope frame)
    (passed : checkRead extent scope place register = []) :
    ∃ value, frame.get register = .ok value := by
  obtain ⟨within, written⟩ := checkRead_passed passed
  exact tracks.exists_get_written (slot?_isSome_of_inCount within)
    (CheckScope.isWritten_iff.mp written)

theorem getMany (tracks : Tracks loops scope frame) {registers : List Register}
    (passed : registers.flatMap (checkRead extent scope place) = []) :
    Harmless (frame.getMany registers) := by
  rw [List.flatMap_eq_nil_iff] at passed
  have each : Ends (registers.mapM frame.get) _ fun fault => ¬fault.Breaks :=
    Ends.mapM fun register member => tracks.get (passed register member)
  exact each.mono (fun _ _ => trivial) fun _ harmless => harmless

theorem streamIn (tracks : Tracks loops scope frame)
    (passed : checkRead extent scope place register = []) : Harmless (frame.streamIn register) := by
  refine (tracks.get passed).bind fun value _ => ?_
  cases value with
  | stream view => trivial
  | _ => exact id

theorem target (tracks : Tracks loops scope frame) {target : Target}
    (passed : target.reads.flatMap (checkRead extent scope place) = []) :
    Harmless (frame.target target) := by
  cases target with
  | direct =>
    show Harmless frame.reader
    unfold Frame.reader
    split
    · trivial
    · exact id
  | stream register =>
    exact tracks.streamIn (List.flatMap_eq_nil_iff.mp passed register (List.mem_singleton_self _))
  | buffer register =>
    exact tracks.streamIn (List.flatMap_eq_nil_iff.mp passed register (List.mem_singleton_self _))

/-- A write beside the lists of the enclosing loops. -/
theorem write (tracks : Tracks loops scope frame) (free : frame.find? slot = none) (value : Value) :
    Tracks loops { scope with own := slot :: scope.own }
      { frame with scope := { frame.scope with slots := (slot, value) :: frame.scope.slots } } := by
  constructor
  · intro other
    rw [Frame.find?_write]
    by_cases same : other = slot
    · simp [same]
    · rw [if_neg same, tracks.visible other, List.mem_cons, or_iff_right same]
  · intro other member
    obtain ⟨cell, running, found⟩ := tracks.outputs other member
    refine ⟨cell, running, ?_⟩
    have apart : other ≠ slot := by
      rintro rfl
      rw [free] at found
      cases found
    rw [Frame.find?_write, if_neg apart, found]

/-- **A write** that passes works, and is followed. -/
theorem exists_set (tracks : Tracks loops scope frame)
    (passed : (checkWrite extent scope place register).1 = []) (value : Value) :
    ∃ next, frame.set register value = .ok next ∧
      Tracks loops (checkWrite extent scope place register).2 next := by
  obtain ⟨slot, addressed⟩ := Option.isSome_iff_exists.mp (slot?_isSome_of_checkWrite passed)
  obtain ⟨unwritten, after⟩ := checkWrite_passed passed
  have same := Register.slot_of_slot? addressed
  have free : frame.find? slot = none := by
    rw [← Option.not_isSome_iff_eq_none, tracks.visible slot, ← same, ← CheckScope.isWritten_iff,
      unwritten]
    exact Bool.false_ne_true
  rw [after, same]
  exact ⟨_, Frame.set_eq_ok.mpr ⟨slot, addressed, free, rfl⟩, tracks.write free value⟩

theorem set (tracks : Tracks loops scope frame)
    (passed : (checkWrite extent scope place register).1 = []) (value : Value) :
    Ends (frame.set register value)
      (fun next => Tracks loops (checkWrite extent scope place register).2 next)
      fun fault => ¬fault.Breaks := by
  obtain ⟨next, written, tracksNext⟩ := tracks.exists_set passed value
  rw [written]
  exact tracksNext

theorem exists_getMany (tracks : Tracks loops scope frame) {registers : List Register}
    (passed : registers.flatMap (checkRead extent scope place) = []) :
    ∃ values, frame.getMany registers = .ok values ∧ values.length = registers.length := by
  rw [List.flatMap_eq_nil_iff] at passed
  exact exists_mapM_eq_ok fun register member => tracks.exists_get (passed register member)

/-! ### Nested blocks -/

theorem child_iff (scope : CheckScope) (output : Option Register) (slot : Slot) :
    slot ∈ (scope.child output).own ∨ slot ∈ (scope.child output).outer ↔
      slot ∈ scope.own ∨ slot ∈ scope.outer := by
  simp [CheckScope.child]

theorem child (tracks : Tracks loops scope frame) :
    Tracks loops (scope.child none) (frame.child none []) := by
  constructor
  · intro slot
    rw [child_iff, Frame.find?_child]
    exact tracks.visible slot
  · intro slot member
    rw [Frame.find?_child]
    exact tracks.outputs slot member

/-- The body of a loop, with the list of the loop in its register. -/
theorem loopChild (tracks : Tracks loops scope frame) {output : Register} {cell : Nat}
    (holds : frame.get output = .ok (.list cell)) :
    Tracks (cell :: loops) (scope.child (some output)) (frame.child none []) := by
  obtain ⟨slot, addressed, found⟩ := Frame.get_eq_ok.mp holds
  constructor
  · intro other
    rw [child_iff, Frame.find?_child]
    exact tracks.visible other
  · intro other member
    rw [Frame.find?_child, List.lookup_nil, Option.none_or]
    rcases List.mem_cons.mp member with rfl | member
    · rw [Register.slot_of_slot? addressed]
      exact ⟨cell, List.mem_cons_self .., found⟩
    · obtain ⟨running, inside, found⟩ := tracks.outputs other member
      exact ⟨running, List.mem_cons_of_mem _ inside, found⟩

/-- The body of a loop over a cursor, which takes the place of the stream of the loop. A register
that holds a stream is none of those with the lists of loops. -/
theorem cursorFrame (tracks : Tracks loops scope (frame.child none [])) {target : Target}
    {view : View} (found : frame.target target = .ok view) (cursor : View) :
    Tracks loops scope (WireProgram.cursorFrame frame target cursor) := by
  rcases cursorFrame_cases frame target cursor with same | same | ⟨register, slot, read, addressed,
    same⟩
  · rw [same]
    exact ⟨tracks.visible, tracks.outputs⟩
  · rw [same]
    exact tracks
  · have held : frame.get register = .ok (.stream view) := by
      rcases read with rfl | rfl
      · exact Frame.streamIn_eq_ok.mp found
      · exact Frame.streamIn_eq_ok.mp found
    obtain ⟨asked, addressed', holds⟩ := Frame.get_eq_ok.mp held
    obtain rfl : asked = slot := Option.some.inj (addressed'.symm.trans addressed)
    have before : ∀ other, (frame.child none []).find? other = frame.find? other :=
      fun other => Frame.find?_child frame none [] other
    rw [same]
    constructor
    · intro other
      rw [← tracks.visible other, before, Frame.find?_child, List.lookup_cons, List.lookup_nil]
      by_cases same : other = asked
      · simp [same, holds]
      · simp [beq_eq_false_iff_ne.mpr same]
    · intro other member
      obtain ⟨cell, running, list⟩ := tracks.outputs other member
      rw [before] at list
      have apart : other ≠ asked := by
        rintro rfl
        rw [holds] at list
        cases list
      refine ⟨cell, running, ?_⟩
      rw [Frame.find?_child, List.lookup_cons, beq_eq_false_iff_ne.mpr apart]
      exact list

end Tracks

end WireProgram
