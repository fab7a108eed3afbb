/-
**The faults of computations on values.**

What computes with values, names and types can fail in some ways only, which are listed here once.
None of them is a fault of structure, and none is that of an array that ends inside an element. The
main definitions and statements:

* `Fault.OfValues`, these faults, and `Computes`, a result that is no other fault;
* `Value.truth_computes` and its like, one for each computation;
* `Function.call_kept`, `Expression.evaluate_ends` and `Constructable.build_ends`, calls, expressions
  and values that are put together from registers.
-/

import WireProgram.Program.Discipline
import WireProgram.Proofs.Contract
import WireProgram.Proofs.Fault

namespace WireProgram

/-! ### The faults -/

/-- The faults of computations on values: a value is of the wrong type, out of range or without an
operation, or a name stands for nothing. -/
def Fault.OfValues : Fault → Prop
  | .misuse .wrongType | .misuse .wrongValue | .misuse .tooManyBytes | .misuse .noRoom
  | .misuse .noSuchOperation | .misuse .missingArgument | .misuse (.missingKey _)
  | .program (.unknownPrimitive _) | .program (.unknownMode _) | .program (.alignment _)
  | .program (.functionArguments _ _ _) | .program (.lengthArguments _ _)
  | .decode (.countNotInteger _ _) | .decode (.countNegative _ _) | .decode (.lengthNotInteger _)
  | .decode (.lengthNegative _ _) | .decode (.wrongWidth _ _) | .decode (.noVariant _ _)
  | .decode .refusedByFunction => True
  | _ => False

/-- A byte string ends inside an element of an array. -/
def Fault.Partial : Fault → Prop
  | .decode (.partialElement _ _) => True
  | _ => False

namespace Fault.OfValues

variable {fault : Fault}

theorem not_structural (ofValues : fault.OfValues) : ¬fault.Structural := by
  unfold OfValues at ofValues
  split at ofValues
  all_goals first | exact id | exact ofValues.elim

theorem not_partial (ofValues : fault.OfValues) : ¬fault.Partial := by
  unfold OfValues at ofValues
  split at ofValues
  all_goals first | exact id | exact ofValues.elim

end Fault.OfValues

/-- A result that is no fault but one of values. -/
abbrev Computes {α : Type} (result : Except Fault α) : Prop :=
  Ends result (fun _ => True) Fault.OfValues

theorem Ends.calm {α : Type} {result : Except Fault α} {good : α → Prop}
    (ends : Ends result good Fault.OfValues) : Ends result good fun fault => ¬fault.Structural :=
  ends.mono (fun _ holds => holds) fun _ => Fault.OfValues.not_structural

/-! ### Values -/

theorem Value.truth_computes (lists : Lists) (value : Value) : Computes (value.truth lists) := by
  unfold Value.truth
  split
  case h_13 => split <;> trivial
  all_goals trivial

theorem Value.length_computes (lists : Lists) (value : Value) : Computes (value.length lists) := by
  unfold Value.length
  split <;> trivial

theorem Value.bytesOfItems_computes (items : List Value) : Computes (Value.bytesOfItems items) := by
  induction items with
  | nil => trivial
  | cons item rest hypothesis =>
    unfold Value.bytesOfItems
    split
    · trivial
    · split
      · exact hypothesis.map fun _ _ => trivial
      · trivial

theorem Value.recordMisuse_ofValues (fields : List (Json × Value)) (fuel index : Nat) :
    (Fault.misuse (Value.recordMisuse fields fuel index)).OfValues := by
  induction fuel generalizing index with
  | zero => trivial
  | succ fuel hypothesis =>
    unfold Value.recordMisuse
    split
    · trivial
    · split
      · trivial
      · split
        · exact hypothesis (index + 1)
        · trivial

theorem Value.toBytes_computes (lists : Lists) (enough : Nat) (value : Value) :
    Computes (value.toBytes lists enough) := by
  unfold Value.toBytes
  split
  · trivial
  · exact Value.bytesOfItems_computes _
  · exact Value.bytesOfItems_computes _
  · exact Value.bytesOfItems_computes _
  · trivial
  · exact Value.recordMisuse_ofValues _ _ _
  · split
    · split
      · trivial
      · split
        · trivial
        · split <;> trivial
    · trivial

theorem countOf_computes (what : String) (value : Value) : Computes (countOf what value) := by
  unfold countOf
  split
  · trivial
  · split <;> trivial

theorem integerOf_computes (value : Value) : Computes (integerOf value) := by
  unfold integerOf
  split <;> trivial

/-! ### Names and types -/

theorem findNamed_computes {α : Type} (table : String → Option α) (name : Json) :
    Computes (findNamed table name) := by
  cases name <;> trivial

theorem requirePrimitive_computes (name : Json) : Computes (requirePrimitive name) := by
  refine (findNamed_computes _ name).bind fun found _ => ?_
  cases found <;> trivial

/-- A look-up among the registered types fails for a name that is not registered, or as a computation
does. -/
theorem Types.require_ends {bad : Fault → Prop} (computed : ∀ fault, fault.OfValues → bad fault)
    (types : Types) (name : Json) (unregistered : bad (.program (.unregisteredType name))) :
    Ends (types.require name) (fun _ => True) bad := by
  refine ((findNamed_computes _ name).mono (fun _ holds => holds) computed).bind fun found _ => ?_
  cases found with
  | some entry => trivial
  | none => exact unregistered

theorem TypeEntry.inPlace_computes (entry : TypeEntry) : Computes entry.inPlace := by
  unfold TypeEntry.inPlace
  split
  · split <;> trivial
  · trivial

theorem Enumeration.ofValue_computes (enumeration : Enumeration) (value : Value) :
    Computes (enumeration.ofValue value) := by
  unfold Enumeration.ofValue
  extract_lets found
  clear_value found
  cases found <;> trivial

theorem ObjectClass.ofItems_computes (objectClass : ObjectClass) (items : List Value) :
    Computes (objectClass.ofItems items) := by
  unfold ObjectClass.ofItems
  split <;> trivial

theorem ObjectClass.ofFields_computes (objectClass : ObjectClass)
    (fields : List (String × Value)) : Computes (objectClass.ofFields fields) := by
  unfold ObjectClass.ofFields
  split
  · split <;> trivial
  · trivial

theorem TypeEntry.construct_computes (entry : TypeEntry) (items : List Value) :
    Computes (entry.construct items) := by
  unfold TypeEntry.construct
  split
  · exact Enumeration.ofValue_computes _ _
  · exact Enumeration.ofValue_computes _ _
  · trivial
  · exact ObjectClass.ofItems_computes _ _
  · trivial

theorem TypeEntry.constructNamed_computes (entry : TypeEntry) (fields : List (String × Value)) :
    Computes (entry.constructNamed fields) := by
  unfold TypeEntry.constructNamed
  split
  · split
    · exact Enumeration.ofValue_computes _ _
    · trivial
  · exact ObjectClass.ofFields_computes _ _
  · trivial

theorem TypeEntry.ofDiscriminant_computes (entry : TypeEntry) (value : Int) :
    Computes (entry.ofDiscriminant value) := by
  unfold TypeEntry.ofDiscriminant
  split
  · split <;> trivial
  · exact TypeEntry.construct_computes _ _

/-! ### Bytes and arguments -/

theorem scalarOfBytes_computes (primitive : Primitive) (bytes : Bytes) :
    Computes (scalarOfBytes primitive bytes) := by
  unfold scalarOfBytes
  split <;> trivial

/-- A whole number of elements is an array. -/
theorem arrayOfBytes_whole {primitive : Primitive} {bytes : Bytes}
    (whole : bytes.length % primitive.width = 0) :
    arrayOfBytes primitive bytes = .ok (.array primitive (primitive.decodeAll bytes)) :=
  if_pos whole

theorem firstInteger_computes (arguments : List Value) : Computes (firstInteger arguments) := by
  unfold firstInteger
  split
  · trivial
  · split <;> trivial

theorem textLength_computes (name : String) (arguments : List Value) :
    Computes (textLength? name arguments) := by
  unfold textLength?
  split
  · trivial
  · split
    · trivial
    · split <;> trivial
  · trivial

theorem Program.outputRegister_computes (program : Program) : Computes program.outputRegister := by
  unfold Program.outputRegister
  split <;> trivial

theorem RunSource.open_computes (source : RunSource) (mode : String) :
    Computes (source.open? mode) := by
  unfold RunSource.open?
  split <;> trivial

/-! ### Expressions -/

section Lists

variable {loops : List Nat}

theorem Function.call_kept (function : Function) (arguments : List Value) (lists : Lists) :
    Ends (function.call arguments lists) (fun result => Lists.Kept loops lists result.2)
      Fault.OfValues := by
  unfold Function.call
  cases function.action with
  | length =>
    dsimp only
    split
    · exact (Value.length_computes lists _).bind fun _ _ => .refl loops lists
    · trivial
  | padding =>
    dsimp only
    split
    · refine (integerOf_computes _).bind fun value _ => ?_
      refine (integerOf_computes _).bind fun alignment _ => ?_
      split
      · trivial
      · exact .refl loops lists
    · trivial
  | tuple => exact .refl loops lists
  | list => exact .push loops lists arguments
  | sum =>
    have each : Ends (arguments.mapM integerOf) _ Fault.OfValues :=
      Ends.mapM fun argument _ => integerOf_computes argument
    exact each.bind fun _ _ => .refl loops lists
  | refuse => trivial

mutual

/-- Whether an expression uses no field. -/
def Expression.isFieldless : Expression → Bool
  | .field _ => false
  | .constant _ => true
  | .call _ arguments => areFieldless arguments

/-- Whether no expression of a list uses a field. -/
def areFieldless : List Expression → Bool
  | [] => true
  | expression :: rest => expression.isFieldless && areFieldless rest

end

end Lists

section Registers

variable {bad : Fault → Prop} {loops : List Nat}

mutual

/-- **An expression** changes no list that is there. It fails as its fields do, if it uses any, or as a
computation does. -/
theorem Expression.evaluate_ends (computed : ∀ fault, fault.OfValues → bad fault)
    (field : Json → Except Fault Value) : ∀ (expression : Expression) (lists : Lists),
      (expression.isFieldless = false → ∀ name, Ends (field name) (fun _ => True) bad) →
        Ends (expression.evaluate field lists) (fun result => Lists.Kept loops lists result.2) bad
  | .field name, lists, fields => (fields rfl name).map fun _ _ => .refl loops lists
  | .constant _, lists, _ => .refl loops lists
  | .call function arguments, lists, fields => by
    refine (evaluateAll_ends computed field arguments lists fields).bind fun evaluated kept => ?_
    exact (function.call_kept evaluated.1 evaluated.2).mono (fun _ more => kept.trans more) computed

theorem evaluateAll_ends (computed : ∀ fault, fault.OfValues → bad fault)
    (field : Json → Except Fault Value) : ∀ (expressions : List Expression) (lists : Lists),
      (areFieldless expressions = false → ∀ name, Ends (field name) (fun _ => True) bad) →
        Ends (evaluateAll field expressions lists)
          (fun result => Lists.Kept loops lists result.2) bad
  | [], lists, _ => .refl loops lists
  | expression :: rest, lists, fields => by
    have here : expression.isFieldless = false →
        ∀ name, Ends (field name) (fun _ => True) bad :=
      fun uses => fields (Bool.and_eq_false_iff.mpr (.inl uses))
    have later : areFieldless rest = false → ∀ name, Ends (field name) (fun _ => True) bad :=
      fun uses => fields (Bool.and_eq_false_iff.mpr (.inr uses))
    refine (Expression.evaluate_ends computed field expression lists here).bind fun first kept => ?_
    exact (evaluateAll_ends computed field rest first.2 later).bind fun others more => kept.trans more

end

/-! ### Values that are put together -/

/-- A value that is put together fails as the reads of its registers do, or as a
computation does. -/
theorem Constructable.build_ends (computed : ∀ fault, fault.OfValues → bad fault) (types : Types)
    {frame : Frame} (constructable : Constructable)
    (reads : ∀ register ∈ constructable.reads, Ends (frame.get register) (fun _ => True) bad) :
    Ends (constructable.build types frame) (fun _ => True) bad := by
  have many : ∀ registers ⊆ constructable.reads, Ends (frame.getMany registers) (fun _ => True) bad :=
    fun registers among => (Ends.mapM fun register member => reads register (among member)).mono
      (fun _ _ => trivial) fun _ holds => holds
  cases constructable with
  | tuple items => exact (many items (List.Subset.refl _)).map fun _ _ => trivial
  | tagged name items =>
    refine (many items (List.Subset.refl _)).bind fun values _ => ?_
    refine ((findNamed_computes _ name).mono (fun _ holds => holds) computed).bind fun entry _ => ?_
    cases entry with
    | some entry => exact (entry.construct_computes values).mono (fun _ holds => holds) computed
    | none => trivial
  | struct name fields =>
    have named : ∀ field ∈ fields,
        Ends ((frame.get field.2).map (field.1, ·)) (fun _ => True) bad :=
      fun field member => (reads field.2 (List.mem_map_of_mem member)).map fun _ _ => trivial
    refine (Ends.mapM named).bind fun values _ => ?_
    refine ((findNamed_computes _ name).mono (fun _ holds => holds) computed).bind fun entry _ => ?_
    cases entry with
    | some entry =>
      cases stringNamed? values with
      | some named => exact (entry.constructNamed_computes _).mono (fun _ holds => holds) computed
      | none => exact computed _ trivial
    | none => trivial

end Registers

end WireProgram
