/-
**What is computed or read is no stream.**

A stream comes into a register by an instruction that opens one or by a copy of another register. A
constant, a call, a value that is put together and a value that is read are never streams:

* `Value.Inert`, a value that is no stream;
* `Function.call_inert`, `Constructable.build_inert` and their like, one for each way to a value;
* `Expression.evaluate_inert`, an expression is inert or it is a field.
-/

import WireProgram.Proofs.Outcome
import WireProgram.Run

namespace WireProgram

/-- A value that is no stream. -/
def Value.Inert (value : Value) : Prop :=
  ∀ view, value ≠ .stream view

theorem Value.Inert.int (value : Int) : (Value.int value).Inert := by
  intro view same
  cases same

theorem Value.Inert.text (value : String) : (Value.text value).Inert := by
  intro view same
  cases same

theorem Value.Inert.bytes (content : Bytes) : (Value.bytes content).Inert := by
  intro view same
  cases same

/-! ### Expressions -/

theorem Literal.toValue_inert (literal : Literal) : literal.toValue.Inert := by
  intro view
  cases literal <;> exact nofun

theorem Function.call_inert (function : Function) (arguments : List Value) (lists : Lists) :
    Ends (function.call arguments lists) (fun result => result.1.Inert) fun _ => True := by
  refine .of_ok fun result same => ?_
  unfold Function.call at same
  intro view
  cases action : function.action <;> simp only [action] at same
  · split at same
    · rename_i argument
      rcases found : argument.length lists with fault | length <;> rw [found] at same
      · cases same
      · cases same
        exact nofun
    · cases same
  · split at same
    · rename_i first second
      rcases left : integerOf first with fault | value <;> rw [left] at same
      · cases same
      · rcases right : integerOf second with fault | alignment <;> rw [right] at same
        · cases same
        · by_cases positive : alignment ≤ 0
          · simp [bind, Except.bind, positive, throw, throwThe, MonadExceptOf.throw] at same
          · simp [bind, Except.bind, positive, pure, Except.pure] at same
            rw [← same]
            exact nofun
    · cases same
  · cases same
    exact nofun
  · cases same
    exact nofun
  · rcases all : arguments.mapM integerOf with fault | values <;> rw [all] at same
    · cases same
    · cases same
      exact nofun
  · cases same

/-- An expression gives the value of a field, or one that is inert. -/
theorem Expression.evaluate_inert (field : Json → Except Fault Value) (expression : Expression)
    (lists : Lists) :
    Ends (expression.evaluate field lists)
      (fun result => result.1.Inert ∨ ∃ name, field name = .ok result.1) fun _ => True := by
  cases expression with
  | field name =>
    refine .of_ok fun result same => ?_
    unfold Expression.evaluate at same
    cases found : field name with
    | error fault =>
      rw [found] at same
      cases same
    | ok value =>
      rw [found] at same
      cases same
      exact Or.inr ⟨name, found⟩
  | constant literal => exact Or.inl literal.toValue_inert
  | call function arguments =>
    unfold Expression.evaluate
    have any : Ends (evaluateAll field arguments lists) (fun _ => True) fun _ => True :=
      .of_ok fun _ _ => trivial
    refine any.bind fun evaluated _ => ?_
    exact (function.call_inert evaluated.1 evaluated.2).mono (fun _ inert => Or.inl inert)
      fun _ _ => trivial

/-! ### Registered types -/

theorem Enumeration.find?_inert (enumeration : Enumeration) {value member : Value}
    (found : enumeration.find? value = some member) : member.Inert := by
  obtain ⟨entry, -, rfl⟩ := Option.map_eq_some_iff.mp found
  exact nofun

theorem Enumeration.ofValue_inert (enumeration : Enumeration) (value : Value) :
    Ends (enumeration.ofValue value) Value.Inert fun _ => True := by
  unfold Enumeration.ofValue
  extract_lets found
  have inert : ∀ member, found = some member → member.Inert := by
    intro member same
    unfold found at same
    split at same
    · -- a member stands for itself
      split at same
      · cases same
        exact nofun
      · cases same
    · exact enumeration.find?_inert same
    · exact enumeration.find?_inert same
  clear_value found
  cases found with
  | some member => exact inert member rfl
  | none => trivial

theorem ObjectClass.ofItems_inert (objectClass : ObjectClass) (items : List Value) :
    Ends (objectClass.ofItems items) Value.Inert fun _ => True := by
  unfold ObjectClass.ofItems
  split
  · exact nofun
  · trivial

theorem ObjectClass.ofFields_inert (objectClass : ObjectClass) (fields : List (String × Value)) :
    Ends (objectClass.ofFields fields) Value.Inert fun _ => True := by
  unfold ObjectClass.ofFields
  split
  · split
    · exact nofun
    · trivial
  · trivial

theorem TypeEntry.construct_inert (entry : TypeEntry) (items : List Value) :
    Ends (entry.construct items) Value.Inert fun _ => True := by
  unfold TypeEntry.construct
  split
  · exact Enumeration.ofValue_inert _ _
  · exact Enumeration.ofValue_inert _ _
  · trivial
  · exact ObjectClass.ofItems_inert _ _
  · trivial

theorem TypeEntry.constructNamed_inert (entry : TypeEntry) (fields : List (String × Value)) :
    Ends (entry.constructNamed fields) Value.Inert fun _ => True := by
  unfold TypeEntry.constructNamed
  split
  · split
    · exact Enumeration.ofValue_inert _ _
    · trivial
  · exact ObjectClass.ofFields_inert _ _
  · trivial

theorem TypeEntry.ofDiscriminant_inert (entry : TypeEntry) (value : Int) :
    Ends (entry.ofDiscriminant value) Value.Inert fun _ => True := by
  unfold TypeEntry.ofDiscriminant
  split
  · split
    · rename_i found
      exact Enumeration.find?_inert _ found
    · trivial
  · exact TypeEntry.construct_inert _ _

theorem Constructable.build_inert (types : Types) (frame : Frame) (constructable : Constructable) :
    Ends (constructable.build types frame) Value.Inert fun _ => True := by
  have any : ∀ {α : Type} (result : Except Fault α), Ends result (fun _ => True) fun _ => True :=
    fun _ => .of_ok fun _ _ => trivial
  cases constructable with
  | tuple items => exact (any _).map fun _ _ => nofun
  | tagged name items =>
    refine (any _).bind fun values _ => (any _).bind fun entry _ => ?_
    cases entry with
    | some entry => exact entry.construct_inert values
    | none => exact nofun
  | struct name fields =>
    refine (any _).bind fun values _ => (any _).bind fun entry _ => ?_
    cases entry with
    | some entry =>
      cases named : stringNamed? values with
      | some named => exact entry.constructNamed_inert _
      | none => trivial
    | none => exact nofun

/-! ### Scalars -/

theorem Scalar.toValue_inert (scalar : Scalar) : scalar.toValue.Inert := by
  intro view
  cases scalar <;> exact nofun

theorem scalarOfBytes_inert (primitive : Primitive) (bytes : Bytes) :
    Ends (scalarOfBytes primitive bytes) Value.Inert fun _ => True := by
  unfold scalarOfBytes
  split
  · exact Scalar.toValue_inert _
  · trivial

theorem arrayOfBytes_inert (primitive : Primitive) (bytes : Bytes) :
    Ends (arrayOfBytes primitive bytes) Value.Inert fun _ => True := by
  unfold arrayOfBytes
  split
  · exact nofun
  · trivial

end WireProgram
