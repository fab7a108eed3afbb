/-
**Computations on values, and frames.**

Only frames, loops and references raise the faults of structure; no computation on values does. The
main statements:

* `Value.truth_calm` and its like, computations that raise no fault of structure;
* `Fault.OfFrame` and `Frame.get_framed` and its like, the faults that frames raise themselves.
-/

import WireProgram.Proofs.Run.Computes

namespace WireProgram

/-! ### Computations on values -/

theorem Value.truth_calm (lists : Lists) (value : Value) : Calm (value.truth lists) :=
  (value.truth_computes lists).calm

theorem Value.toBytes_calm (lists : Lists) (enough : Nat) (value : Value) :
    Calm (value.toBytes lists enough) :=
  (value.toBytes_computes lists enough).calm

theorem countOf_calm (what : String) (value : Value) : Calm (countOf what value) :=
  (countOf_computes what value).calm

theorem Types.require_harmless (types : Types) (name : Json) : Harmless (types.require name) :=
  types.require_ends (fun _ ofValues => Fault.not_breaks ofValues.not_structural) name id

theorem Types.require_contained (types : Types) (name : Json) : Contained (types.require name) :=
  types.require_ends (fun _ ofValues => Fault.not_exceeds ofValues.not_structural) name id

theorem requirePrimitive_calm (name : Json) : Calm (requirePrimitive name) :=
  (requirePrimitive_computes name).calm

theorem TypeEntry.inPlace_calm (entry : TypeEntry) : Calm entry.inPlace :=
  entry.inPlace_computes.calm

theorem TypeEntry.ofDiscriminant_calm (entry : TypeEntry) (value : Int) :
    Calm (entry.ofDiscriminant value) :=
  (entry.ofDiscriminant_computes value).calm

theorem scalarOfBytes_calm (primitive : Primitive) (bytes : Bytes) :
    Calm (scalarOfBytes primitive bytes) :=
  (scalarOfBytes_computes primitive bytes).calm

theorem arrayOfBytes_calm (primitive : Primitive) (bytes : Bytes) :
    Calm (arrayOfBytes primitive bytes) := by
  unfold arrayOfBytes
  split
  · trivial
  · exact id

theorem textLength_calm (name : String) (arguments : List Value) :
    Calm (textLength? name arguments) :=
  (textLength_computes name arguments).calm

theorem Program.outputRegister_calm (program : Program) : Calm program.outputRegister :=
  program.outputRegister_computes.calm

theorem RunSource.open_calm (source : RunSource) (mode : String) : Calm (source.open? mode) :=
  (source.open_computes mode).calm

/-! ### Frames -/

/-- The faults of frames: of their registers, of their streams, and of the fields and arguments that
stand for registers. -/
def Fault.OfFrame : Fault → Prop
  | .misuse .wrongType | .program (.notPopulated _) | .program (.writtenTwice _)
  | .program .noReader | .program (.notStream _ _) | .program (.unmappedField _)
  | .program (.argumentCount _ _) => True
  | _ => False

namespace Fault.OfFrame

variable {fault : Fault}

theorem not_exceeds (ofFrame : fault.OfFrame) : ¬fault.Exceeds := by
  unfold OfFrame at ofFrame
  split at ofFrame
  all_goals first | exact id | exact ofFrame.elim

theorem not_unresolved (ofFrame : fault.OfFrame) : ¬fault.Unresolved := by
  unfold OfFrame at ofFrame
  split at ofFrame
  all_goals first | exact id | exact ofFrame.elim

theorem undecoded (ofFrame : fault.OfFrame) : fault.isDecode = false := by
  unfold OfFrame at ofFrame
  split at ofFrame
  all_goals first | rfl | exact ofFrame.elim

theorem not_partial (ofFrame : fault.OfFrame) : ¬fault.Partial := by
  unfold OfFrame at ofFrame
  split at ofFrame
  all_goals first | exact id | exact ofFrame.elim

end Fault.OfFrame

/-- A result that is no fault but one of frames. -/
abbrev Framed {α : Type} (result : Except Fault α) : Prop :=
  Ends result (fun _ => True) Fault.OfFrame

section Frames

variable {α : Type} {result : Except Fault α}

theorem Ends.framed_contained (framed : Framed result) : Contained result :=
  framed.mono (fun _ holds => holds) fun _ => Fault.OfFrame.not_exceeds

theorem Register.slotOf_framed (register : Register) : Framed (Frame.slotOf register) := by
  unfold Frame.slotOf
  split
  · trivial
  · trivial

theorem Frame.get_framed (frame : Frame) (register : Register) : Framed (frame.get register) := by
  refine register.slotOf_framed.bind fun slot _ => ?_
  split
  · trivial
  · trivial

theorem Frame.set_framed (frame : Frame) (register : Register) (value : Value) :
    Framed (frame.set register value) := by
  refine register.slotOf_framed.bind fun slot _ => ?_
  split
  · trivial
  · trivial

theorem Frame.getMany_framed (frame : Frame) (registers : List Register) :
    Framed (frame.getMany registers) :=
  (Ends.mapM fun register _ => frame.get_framed register).mono (fun _ _ => trivial)
    fun _ holds => holds

theorem Frame.target_framed (frame : Frame) (target : Target) : Framed (frame.target target) := by
  have streamIn : ∀ register, Framed (frame.streamIn register) := by
    intro register
    refine (frame.get_framed register).bind fun value _ => ?_
    split
    · trivial
    · trivial
  cases target with
  | direct =>
    show Framed frame.reader
    unfold Frame.reader
    split
    · trivial
    · trivial
  | stream register => exact streamIn register
  | buffer register => exact streamIn register

theorem Program.fieldValue_framed (program : Program) (frame : Frame) (name : Json) :
    Framed (program.fieldValue frame name) := by
  have found : Framed (findField program.fields name) := by
    unfold findField Json.requireSlot
    cases name.slot? with
    | some slot => trivial
    | none => trivial
  have register : Framed (program.field name) := by
    refine found.bind fun register _ => ?_
    cases register with
    | some register => trivial
    | none => trivial
  exact register.bind fun register _ => frame.get_framed register

theorem bindArguments_framed (program : Program) (values : List Value) :
    Framed (bindArguments program values) := by
  have written : ∀ (entries : List (Register × Value)) (start : Frame),
      Framed (entries.foldlM (fun frame entry => frame.set entry.1 entry.2) start) := by
    intro entries
    induction entries with
    | nil => exact fun start => trivial
    | cons entry entries hypothesis =>
      intro start
      rw [List.foldlM_cons]
      exact (start.set_framed entry.1 entry.2).bind fun next _ => hypothesis next
  unfold bindArguments
  split
  · exact written _ _
  · trivial

theorem Frame.get_contained (frame : Frame) (register : Register) : Contained (frame.get register) :=
  Ends.framed_contained (frame.get_framed register)

theorem Frame.set_contained (frame : Frame) (register : Register) (value : Value) :
    Contained (frame.set register value) :=
  Ends.framed_contained (frame.set_framed register value)

theorem Frame.getMany_contained (frame : Frame) (registers : List Register) :
    Contained (frame.getMany registers) :=
  Ends.framed_contained (frame.getMany_framed registers)

theorem Frame.target_contained (frame : Frame) (target : Target) : Contained (frame.target target) :=
  Ends.framed_contained (frame.target_framed target)

theorem Program.fieldValue_contained (program : Program) (frame : Frame) (name : Json) :
    Contained (program.fieldValue frame name) :=
  Ends.framed_contained (program.fieldValue_framed frame name)

theorem bindArguments_contained (program : Program) (values : List Value) :
    Contained (bindArguments program values) :=
  Ends.framed_contained (bindArguments_framed program values)

end Frames

end WireProgram
