/-
**Computations that do not break the discipline.**

Values are computed from constants, from registers that the checker has followed and from bytes. None
of it breaks the discipline, and none of it changes a list that is there:

* `Constructable.build_harmless`, values that are put together;
* `readScalar_sound` and its like, the steps that read a value.
-/

import WireProgram.Proofs.Discipline.Spare
import WireProgram.Proofs.Discipline.Track

namespace WireProgram

/-! ### Values that are put together -/

section Tracked

variable {extent : Extent} {scope : CheckScope} {place : Place} {frame : Frame} {loops : List Nat}

theorem Constructable.build_harmless (tracks : Tracks loops scope frame) (types : Types)
    {constructable : Constructable}
    (passed : constructable.reads.flatMap (checkRead extent scope place) = []) :
    Harmless (constructable.build types frame) := by
  refine Constructable.build_ends (fun _ computed => Fault.not_breaks computed.not_structural) types
    constructable fun register member =>
      tracks.get (List.flatMap_eq_nil_iff.mp passed register member)

/-! ### Steps -/

variable {strict : Prop} {machine : Machine}

/-- **An expression** changes no list that is there. If it uses no field, it breaks no discipline. -/
theorem evaluate_sound (field : Json → Except Fault Value) {expression : Expression}
    (fieldless : strict → expression.isFieldless = true) :
    Spares strict loops (fun _ => True) (Step.onLists (expression.evaluate field)) machine := by
  have ends : Ends (expression.evaluate field machine.lists)
      (fun result => Lists.Kept loops machine.lists result.2) fun fault => strict → ¬fault.Breaks := by
    refine expression.evaluate_ends
      (fun _ computed _ => Fault.not_breaks computed.not_structural) field _ fun uses name => ?_
    cases field name with
    | ok value => trivial
    | error fault => exact fun holds => absurd (fieldless holds) (by rw [uses]; decide)
  exact .onLists (ends.mono (fun _ kept => ⟨kept, trivial⟩) fun _ harmless => harmless)

theorem readScalar_sound (view : View) (name : Json) :
    Spares strict loops (fun _ => True) (readScalar view name) machine := by
  refine Spares.ofExcept_bind (requirePrimitive_calm name).harmless fun primitive _ _ => ?_
  refine (Spares.onStreams (view.readExact_quiet _)).bind fun bytes _ _ _ => ?_
  exact Spares.ofExcept (scalarOfBytes_calm primitive bytes).harmless

theorem readArray_sound (view : View) (name : Json) (count : Option Nat)
    (allowPartialTail : Bool) :
    Spares strict loops (fun _ => True) (readArray view name count allowPartialTail)
      machine := by
  refine Spares.ofExcept_bind (requirePrimitive_calm name).harmless fun primitive _ _ => ?_
  cases count with
  | some count =>
    exact (Spares.onStreams (view.readExact_quiet _)).bind fun bytes _ _ _ =>
      .ofExcept (arrayOfBytes_calm primitive bytes).harmless
  | none =>
    refine (Spares.onStreams view.readToEnd_quiet).bind fun bytes _ _ _ => ?_
    dsimp only
    split
    · exact (Spares.warn _).bind fun _ _ _ _ => .ofExcept (arrayOfBytes_calm primitive _).harmless
    · exact .ofExcept (arrayOfBytes_calm primitive bytes).harmless

theorem readMember_sound (view : View) (entry : TypeEntry) (backing : Json) :
    Spares strict loops (fun _ => True) (readMember view entry backing) machine := by
  refine Spares.ofExcept_bind (requirePrimitive_calm backing).harmless fun primitive _ _ => ?_
  split
  · exact (Spares.onStreams (view.readExact_quiet _)).bind fun bytes _ _ _ =>
      .ofExcept (entry.ofDiscriminant_calm _).harmless
  · split
    · exact .throw id
    · exact .throw id

theorem countIn_sound (tracks : Tracks loops scope frame) {register : Register}
    (passed : checkRead extent scope place register = []) (what : String) :
    Spares strict loops (fun _ => True) (countIn frame what register) machine :=
  Spares.ofExcept_bind (tracks.get passed) fun value _ _ => .ofExcept (countOf_calm what value).harmless

theorem conditionHolds_sound (tracks : Tracks loops scope frame) {condition : Register}
    (passed : checkRead extent scope place condition = []) :
    Spares strict loops (fun _ => True) (conditionHolds frame condition) machine := by
  refine Spares.ofExcept_bind (tracks.get passed) fun value _ _ => ?_
  exact Spares.look_bind (.ofExcept (value.truth_calm _).harmless)

/-- An item that passes goes from its register to the list of an enclosing loop. -/
theorem Tracks.output (tracks : Tracks loops scope frame) {output item : Register}
    (outputPassed : checkRead extent scope place output = [])
    (itemPassed : checkRead extent scope place item = [])
    (member : output.slot ∈ scope.outputs) :
    ∃ cell ∈ loops, ∃ value, frame.get output = .ok (.list cell) ∧ frame.get item = .ok value := by
  obtain ⟨list, same⟩ := tracks.exists_get outputPassed
  obtain ⟨value, read⟩ := tracks.exists_get itemPassed
  obtain ⟨slot, addressed, found⟩ := Frame.get_eq_ok.mp same
  obtain ⟨cell, running, holds⟩ := tracks.outputs output.slot member
  rw [Register.slot_of_slot? addressed, found] at holds
  cases holds
  exact ⟨cell, running, value, same, read⟩

/-- **An item** changes no list but that of an enclosing loop. -/
theorem addOutput_sound (tracks : Tracks loops scope frame) {output item : Register}
    (outputPassed : checkRead extent scope place output = [])
    (itemPassed : checkRead extent scope place item = [])
    (member : output.slot ∈ scope.outputs) :
    Spares strict loops (fun _ => True) (addOutput frame output item) machine := by
  obtain ⟨cell, running, value, list, read⟩ := tracks.output outputPassed itemPassed member
  have kept : Lists.Kept loops machine.lists
      (machine.lists.modify cell fun items => items ++ [value]) := .modify running _ _
  exact Leads.of_ok (run_addOutput list read) ⟨kept, trivial⟩

end Tracked

end WireProgram
