/-
**Reading that fails only for its input.**

The contract of a well-kinded run: views stay in order, time passes on each of them, and a fault is
one of the input. The built-in transforms and types keep to it. The main definitions and statements:

* `Contract.honest`, the contract, and `Contract.honestRun`, that of a whole machine;
* `Transform.wrap_honest` and `ForeignType.decode_honest`, the built-in capabilities;
* `readScalar_honest` and its like, the steps that read a value.
-/

import WireProgram.Proofs.Stream.Passing
import WireProgram.Resolver.Prelude

namespace WireProgram

/-- Operations that only fail for their input. A view that is in order stays so, and gains nothing. -/
abbrev Contract.honest : Contract Fault (Streams Codec) (Layout true) :=
  .passing true

/-- The contract of a run that only fails for its input. -/
abbrev Contract.honestRun (loops : List Nat) : Contract Failure Machine (Layout true) :=
  .run .honest loops

/-- A result that is a value or a fault of the input. -/
abbrev Honest {α : Type} (result : Except Fault α) : Prop :=
  Ends result (fun _ => True) fun fault => fault.isDecode = true

/-! ### Capabilities -/

section Capabilities

variable {α : Type} {layout : Layout true} {streams : Streams Codec} {view : View}

theorem Keeps.honest_ofExcept {result : Except Fault α} (honest : Honest result) :
    Keeps .honest (fun _ after => after = (streams, layout)) (StreamStep.ofExcept result)
      (streams, layout) := by
  cases result with
  | ok value =>
    have ran : (StreamStep.ofExcept (.ok value) : StreamStep Codec α).run streams =
        (.ok value, streams) := rfl
    exact Leads.of_ok ran ⟨layout, Contract.honest.refl _, rfl⟩
  | error fault => exact Keeps.of_refused rfl honest

/-- A built-in transform without arguments opens a view. -/
theorem Transform.wrap_honest {transform : Transform}
    (builtIn : Prelude.hasTransform transform = true) (fits : layout.Fits streams view) :
    Keeps .honest (fun wrapped after => after.2.Fits after.1 wrapped) (transform.wrap view [])
      (streams, layout) := by
  rcases Prelude.hasTransform_cases builtIn with rfl | rfl
  · exact openTransformed_keeps fits trivial rfl
  · exact openTransformed_keeps fits trivial rfl

theorem readGroups_honest (fits : layout.Fits streams view) (name : String)
    (bits count index total : Nat) :
    Keeps .honest (fun _ _ => True) (readGroups name bits view count index total)
      (streams, layout) := by
  induction count generalizing streams layout index total with
  | zero => exact .throw rfl
  | succ count hypothesis =>
    refine (view.readExact_keeps fits 1).bind fun bytes after later _ => ?_
    dsimp only
    split
    · exact hypothesis (later view fits).1 _ _
    · split
      · exact .pure trivial
      · exact .throw rfl

theorem textLength_honest (name : String) {arguments : List Value}
    (few : arguments.length ≤ 1) : Honest (textLength? name arguments) := by
  unfold textLength?
  split
  · trivial
  · split
    · rfl
    · split
      · rfl
      · trivial
  · rename_i none one
    match arguments with
    | [] => exact absurd rfl none
    | [argument] => exact absurd rfl (one argument)
    | first :: second :: rest => simp at few

theorem readLength_honest (fits : layout.Fits streams view) (length : Option Nat) :
    Keeps .honest (fun _ _ => True) (readLength view length) (streams, layout) := by
  cases length with
  | none => exact view.readToEnd_keeps fits
  | some length => exact view.readExact_keeps fits length

/-- The arguments that a type takes: at most one for a text, and none for a number. -/
def ForeignType.Takes (foreign : ForeignType) (count : Nat) : Prop :=
  count ≤ 1 ∧ ∀ bits, foreign.action = .varint bits → count = 0

/-- **A built-in type** fails only for its input. -/
theorem ForeignType.decode_honest {foreign : ForeignType}
    (builtIn : Prelude.hasType foreign = true) {arguments : List Value}
    (takes : foreign.Takes arguments.length) (fits : layout.Fits streams view) (mode : String) :
    Keeps .honest (fun _ _ => True) (foreign.decode view arguments mode) (streams, layout) := by
  unfold ForeignType.decode
  rcases Prelude.hasType_cases builtIn with ⟨bits, action⟩ | action | action
  · have none : arguments = [] := List.length_eq_zero_iff.mp (takes.2 bits action)
    rw [action, none]
    exact readGroups_honest fits _ _ _ _ _
  · rw [action]
    refine (Keeps.honest_ofExcept (textLength_honest _ takes.1)).bind fun length after _ same => ?_
    subst same
    refine (readLength_honest fits _).bind fun bytes _ _ _ => ?_
    split
    · exact .pure trivial
    · exact .throw rfl
  · rw [action]
    refine (Keeps.honest_ofExcept (textLength_honest _ takes.1)).bind fun length after _ same => ?_
    subst same
    refine (readLength_honest fits _).bind fun bytes _ _ _ => ?_
    split
    · exact .pure trivial
    · exact .throw rfl

end Capabilities

/-! ### Steps -/

section Steps

variable {loops : List Nat} {state : Machine × Layout true} {view : View}

theorem countOf_honest (what : String) (value : Value) : Honest (countOf what value) := by
  unfold countOf
  split
  · rfl
  · split
    · rfl
    · trivial

theorem readScalar_honest (fits : state.2.Fits state.1.streams view) {name : Json}
    {primitive : Primitive} (known : requirePrimitive name = .ok primitive) :
    Keeps (.honestRun loops) (fun value _ => ∃ scalar : Scalar, value = scalar.toValue)
      (readScalar view name) state := by
  refine Keeps.ofExcept_ok known ?_
  refine (Keeps.onStreams (view.readExact_keeps fits primitive.width)).bind fun bytes _ _ _ => ?_
  refine Keeps.ofExcept ?_
  unfold scalarOfBytes
  split
  · exact ⟨_, rfl⟩
  · rfl

theorem arrayOfBytes_honest (primitive : Primitive) (bytes : Bytes) :
    Honest (arrayOfBytes primitive bytes) := by
  unfold arrayOfBytes
  split
  · trivial
  · rfl

theorem readArray_honest (fits : state.2.Fits state.1.streams view) {name : Json}
    {primitive : Primitive} (known : requirePrimitive name = .ok primitive) (count : Option Nat)
    (allowPartialTail : Bool) :
    Keeps (.honestRun loops) (fun _ _ => True) (readArray view name count allowPartialTail)
      state := by
  refine Keeps.ofExcept_ok known ?_
  cases count with
  | some count =>
    exact (Keeps.onStreams (view.readExact_keeps fits _)).bind fun bytes _ _ _ =>
      .ofExcept (arrayOfBytes_honest primitive bytes)
  | none =>
    refine (Keeps.onStreams (view.readToEnd_keeps fits)).bind fun bytes _ _ _ => ?_
    dsimp only
    split
    · exact (Keeps.warn _).bind fun _ _ _ _ => .ofExcept (arrayOfBytes_honest primitive _)
    · exact .ofExcept (arrayOfBytes_honest primitive bytes)

theorem readMember_honest (fits : state.2.Fits state.1.streams view) {backing : Json}
    {primitive : Primitive} (known : requirePrimitive backing = .ok primitive)
    (integer : primitive.isInteger = true) (named : Enumeration) :
    Keeps (.honestRun loops) (fun _ _ => True) (readMember view (.enumeration named) backing)
      state := by
  refine Keeps.ofExcept_ok known ?_
  rw [if_pos integer]
  refine (Keeps.onStreams (view.readExact_keeps fits _)).bind fun bytes _ _ _ => .ofExcept ?_
  unfold TypeEntry.ofDiscriminant
  dsimp only
  split
  · trivial
  · rfl

end Steps

end WireProgram
