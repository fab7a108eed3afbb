/-
**Computing values under other names.**

Whatever is made of values is the same under other names, and whatever is read from a frame too. A
constant is taken to have its own names: its lists are those of the program. Only where a value is
wanted as a count and is none, the class of a stream is seen. The main definitions and statements:

* `Function.call_named` and `Expression.evaluate_named`, computations without input;
* `TypeEntry.construct_named` and `Constructable.build_named`, values of registered types;
* `Frame.named`, with `Frame.get_named`, `Frame.set_named` and `Frame.target_named`;
* `countOf_named`, a value as a count.
-/

import WireProgram.Proofs.Ensemble.Naming

namespace WireProgram

/-! ### Results -/

section Results

variable {ε α β γ : Type}

theorem map_ok (change : α → β) (value : α) :
    (Except.ok value : Except ε α).map change = .ok (change value) := rfl

theorem map_error (change : α → β) (fault : ε) :
    (Except.error fault : Except ε α).map change = .error fault := rfl

/-- A result that is changed before the rest. -/
theorem map_bind_eq (change : α → β) (result : Except ε α) (next : β → Except ε γ) :
    (result.map change >>= next) = result >>= fun value => next (change value) := by
  cases result <;> rfl

/-- A result that is changed after the rest. -/
theorem bind_map_eq (change : β → γ) (result : Except ε α) (next : α → Except ε β) :
    (result >>= next).map change = result >>= fun value => (next value).map change := by
  cases result <;> rfl

/-- Results that are all changed in one way. -/
theorem mapM_map_eq (change : α → β) (act : γ → Except ε α) (items : List γ) :
    (items.mapM fun item => (act item).map change) = (items.mapM act).map (List.map change) := by
  induction items with
  | nil => rfl
  | cons item rest hypothesis =>
    rw [List.mapM_cons, List.mapM_cons, hypothesis, map_bind_eq, bind_map_eq]
    refine congrArg _ (funext fun value => ?_)
    rw [map_bind_eq, bind_map_eq]
    rfl

end Results

variable {naming : Naming}

/-- Two computations with the lists: both give values and lists that are the same under the names, or
both the same fault. -/
inductive Computed (naming : Naming) {α : Type} (put : α → α) :
    Except Fault (α × Lists) → Except Fault (α × Lists) → Prop
  | ok {value : α} {lists lists' : Lists} (named : Lists.Named naming lists lists') :
    Computed naming put (.ok (value, lists)) (.ok (put value, lists'))
  | error (fault : Fault) : Computed naming put (.error fault) (.error fault)

theorem Computed.of_ok {α : Type} {put : α → α} (value : α) {lists lists' : Lists}
    (named : Lists.Named naming lists lists') :
    Computed naming put (.ok (value, lists)) (.ok (put value, lists')) :=
  .ok named

theorem Computed.bind {α β : Type} {put : α → α} {put' : β → β}
    {result result' : Except Fault (α × Lists)} {next next' : α × Lists → Except Fault (β × Lists)}
    (first : Computed naming put result result')
    (second : ∀ value lists lists', Lists.Named naming lists lists' →
      Computed naming put' (next (value, lists)) (next' (put value, lists'))) :
    Computed naming put' (result >>= next) (result' >>= next') := by
  cases first with
  | ok named => exact second _ _ _ named
  | error fault => exact .error fault

/-! ### Functions and expressions -/

/-- **A function** makes the same of the same arguments. -/
theorem Function.call_named (function : Function) (arguments : List Value) {lists lists' : Lists}
    (named : Lists.Named naming lists lists') :
    Computed naming (Value.named naming) (function.call arguments lists)
      (function.call (arguments.map (Value.named naming)) lists') := by
  unfold Function.call
  cases function.action with
  | length =>
    rcases arguments with _ | ⟨argument, _ | ⟨second, rest⟩⟩
    · exact .error _
    · simp only [List.map_cons, List.map_nil, Value.length_named named]
      cases argument.length lists with
      | ok length => exact .of_ok (Value.int length) named
      | error fault => exact .error fault
    · simp only [List.map_cons, List.length_cons, List.length_map]
      exact .error _
  | padding =>
    rcases arguments with _ | ⟨first, _ | ⟨second, _ | ⟨third, rest⟩⟩⟩
    · exact .error _
    · exact .error _
    · simp only [List.map_cons, List.map_nil, integerOf, Value.toInteger?_named]
      cases first.toInteger? with
      | none => exact .error _
      | some value =>
        cases second.toInteger? with
        | none => exact .error _
        | some alignment =>
          simp only [bind, Except.bind]
          split
          · exact .error _
          · exact .of_ok (Value.int _) named
    · simp only [List.map_cons, List.length_cons, List.length_map]
      exact .error _
  | tuple =>
    rw [← itemsNamed_eq]
    exact .of_ok (Value.tuple arguments) named
  | list =>
    rw [← named.size]
    exact .of_ok (Value.list lists.size) (named.push arguments)
  | sum =>
    have same : (arguments.map (Value.named naming)).mapM integerOf = arguments.mapM integerOf := by
      induction arguments with
      | nil => rfl
      | cons argument rest hypothesis =>
        simp only [List.map_cons, List.mapM_cons, hypothesis, integerOf, Value.toInteger?_named]
    simp only [same]
    cases arguments.mapM integerOf with
    | ok values => exact .of_ok (Value.int _) named
    | error fault => exact .error fault
  | refuse => exact .error _

mutual

/-- The cells of the lists in a constant. -/
def Literal.cells : Literal → List Nat
  | .list cell _ => [cell]
  | .dict entries => entriesCells entries
  | _ => []

/-- The cells of the lists in the entries of a constant dictionary. -/
def entriesCells : List (String × Literal) → List Nat
  | [] => []
  | (_, literal) :: rest => literal.cells ++ entriesCells rest

end

mutual

/-- The cells of the lists in the constants of an expression. -/
def Expression.cells : Expression → List Nat
  | .field _ => []
  | .constant literal => literal.cells
  | .call _ arguments => expressionsCells arguments

/-- The cells of the lists in the constants of expressions. -/
def expressionsCells : List Expression → List Nat
  | [] => []
  | expression :: rest => expression.cells ++ expressionsCells rest

end

mutual

/-- A constant has its own names. -/
theorem Literal.toValue_named : ∀ literal : Literal,
    (∀ cell ∈ literal.cells, naming.cells cell = cell) →
      literal.toValue.named naming = literal.toValue
  | .dict entries, fixed => by
    simp only [Literal.toValue, Value.named, literalEntries_named entries fixed]
  | .list cell _, fixed => by
    simp only [Literal.toValue, Value.named, fixed cell (List.mem_singleton_self cell)]
  | .null, _ | .bool _, _ | .int _, _ | .float _, _ | .string _, _ | .bytes _, _ => rfl

theorem literalEntries_named : ∀ entries : List (String × Literal),
    (∀ cell ∈ entriesCells entries, naming.cells cell = cell) →
      entriesNamed naming (literalEntries entries) = literalEntries entries
  | [], _ => rfl
  | (key, literal) :: rest, fixed => by
    have here := literal.toValue_named fun cell member => fixed cell (List.mem_append_left _ member)
    have others := literalEntries_named rest fun cell member =>
      fixed cell (List.mem_append_right _ member)
    simp only [literalEntries, entriesNamed, here, others]
    rfl

end

mutual

/-- **An expression** computes the same of the same fields. -/
theorem Expression.evaluate_named {field field' : Json → Except Fault Value}
    (fields : ∀ name, field' name = (field name).map (Value.named naming)) :
    ∀ (expression : Expression) {lists lists' : Lists},
      (∀ cell ∈ expression.cells, naming.cells cell = cell) → Lists.Named naming lists lists' →
        Computed naming (Value.named naming) (expression.evaluate field lists)
          (expression.evaluate field' lists')
  | .field name, lists, lists', fixed, named => by
    simp only [Expression.evaluate, fields]
    cases field name with
    | ok value => exact .ok named
    | error fault => exact .error fault
  | .constant literal, lists, lists', fixed, named => by
    have made : Computed naming (Value.named naming) (.ok (literal.toValue, lists)) _ := .ok named
    simpa only [Expression.evaluate, literal.toValue_named fixed] using made
  | .call function arguments, lists, lists', fixed, named => by
    simp only [Expression.evaluate]
    exact (evaluateAll_named fields arguments fixed named).bind
      fun values _ _ named => function.call_named values named

theorem evaluateAll_named {field field' : Json → Except Fault Value}
    (fields : ∀ name, field' name = (field name).map (Value.named naming)) :
    ∀ (expressions : List Expression) {lists lists' : Lists},
      (∀ cell ∈ expressionsCells expressions, naming.cells cell = cell) →
        Lists.Named naming lists lists' →
          Computed naming (List.map (Value.named naming)) (evaluateAll field expressions lists)
            (evaluateAll field' expressions lists')
  | [], lists, lists', fixed, named => .of_ok [] named
  | expression :: rest, lists, lists', fixed, named => by
    simp only [evaluateAll]
    refine (Expression.evaluate_named fields expression (fun cell member =>
      fixed cell (List.mem_append_left _ member)) named).bind fun value _ _ named => ?_
    refine (evaluateAll_named fields rest (fun cell member =>
      fixed cell (List.mem_append_right _ member)) named).bind fun values _ _ named => ?_
    exact .of_ok (value :: values) named

end

variable (naming)

/-! ### Fields -/

theorem lookup_fieldNamed {Name : Type} [BEq Name] (fields : List (Name × Value)) (name : Name) :
    (fields.map (fieldNamed naming)).lookup name =
      (fields.lookup name).map (Value.named naming) := by
  induction fields with
  | nil => rfl
  | cons field rest hypothesis =>
    rw [List.map_cons, fieldNamed, List.lookup_cons, List.lookup_cons, hypothesis]
    cases name == field.1 <;> rfl

theorem putEntry_fieldNamed {Name : Type} [DecidableEq Name] (name : Name) (value : Value)
    (fields : List (Name × Value)) :
    putEntry name (value.named naming) (fields.map (fieldNamed naming)) =
      (putEntry name value fields).map (fieldNamed naming) := by
  induction fields with
  | nil => rfl
  | cons field rest hypothesis =>
    simp only [List.map_cons, putEntry, hypothesis, fieldNamed]
    by_cases same : field.1 = name
    · rw [if_pos same, if_pos same]
      rfl
    · rw [if_neg same, if_neg same]
      rfl

theorem tableOf_fieldNamed {Name : Type} [DecidableEq Name] (fields : List (Name × Value)) :
    tableOf (fields.map (fieldNamed naming)) = (tableOf fields).map (fieldNamed naming) := by
  unfold tableOf
  suffices put : ∀ table : List (Name × Value),
      (fields.map (fieldNamed naming)).foldl
          (fun table entry => putEntry entry.1 entry.2 table) (table.map (fieldNamed naming)) =
        (fields.foldl (fun table entry => putEntry entry.1 entry.2 table) table).map
          (fieldNamed naming) from put []
  induction fields with
  | nil => exact fun _ => rfl
  | cons field rest hypothesis =>
    intro table
    rw [List.map_cons, List.foldl_cons, List.foldl_cons, ← hypothesis, ← putEntry_fieldNamed]
    rfl

theorem stringNamed?_named (fields : List (Json × Value)) :
    stringNamed? (fields.map (fieldNamed naming)) =
      (stringNamed? fields).map (List.map (fieldNamed naming)) := by
  unfold stringNamed?
  induction fields with
  | nil => rfl
  | cons field rest hypothesis =>
    obtain ⟨name, value⟩ := field
    rw [List.map_cons, List.mapM_cons, List.mapM_cons, hypothesis]
    cases name with
    | string text =>
      generalize List.mapM (m := Option) _ rest = found
      cases found <;> rfl
    | _ => rfl

/-! ### Registered types -/

/-- A value that has its own names only, whatever those of others are. -/
def Value.Nameless (value : Value) : Prop :=
  ∀ naming, value.named naming = value

theorem Enumeration.find?_named (enumeration : Enumeration) (value : Value) :
    enumeration.find? (value.named naming) = enumeration.find? value := by
  unfold Enumeration.find?
  simp only [Value.same_named]

theorem Enumeration.find?_nameless (enumeration : Enumeration) {value member : Value}
    (found : enumeration.find? value = some member) : member.Nameless := by
  obtain ⟨entry, -, rfl⟩ := Option.map_eq_some_iff.mp found
  exact fun _ => rfl

theorem Enumeration.ofValue_named (enumeration : Enumeration) (value : Value) :
    enumeration.ofValue (value.named naming) =
      (enumeration.ofValue value).map (Value.named naming) := by
  unfold Enumeration.ofValue
  extract_lets found found'
  have same : found = found' := by
    cases value with
    | array element items =>
      rcases items with _ | ⟨item, _ | ⟨next, rest⟩⟩
      · exact enumeration.find?_named naming (.array element [])
      · rfl
      · exact enumeration.find?_named naming (.array element (item :: next :: rest))
    | member type name inner integral =>
      cases integral with
      | false => rfl
      | true => exact enumeration.find?_named naming (.member type name inner true)
    | _ => exact enumeration.find?_named naming _
  have nameless : ∀ member, found' = some member → member.Nameless := by
    intro member settled
    unfold found' at settled
    split at settled
    · -- a member stands for itself
      split at settled
      · cases settled
        exact fun _ => rfl
      · cases settled
    · exact enumeration.find?_nameless settled
    · exact enumeration.find?_nameless settled
  rw [same]
  clear_value found'
  cases found' with
  | none => rfl
  | some member => exact congrArg Except.ok (nameless member rfl naming).symm

theorem ObjectClass.ofItems_named (objectClass : ObjectClass) (items : List Value) :
    objectClass.ofItems (items.map (Value.named naming)) =
      (objectClass.ofItems items).map (Value.named naming) := by
  unfold ObjectClass.ofItems
  rw [List.length_map]
  by_cases whole : items.length = objectClass.fields.length
  · rw [if_pos whole, if_pos whole, List.zip_map_right, map_ok, Value.named, attributesNamed_eq]
    rfl
  · rw [if_neg whole, if_neg whole, map_error]

theorem ObjectClass.ofFields_named (objectClass : ObjectClass) (fields : List (String × Value)) :
    objectClass.ofFields (fields.map (fieldNamed naming)) =
      (objectClass.ofFields fields).map (Value.named naming) := by
  have ordered : ∀ names : List String,
      (names.mapM fun name =>
        ((fields.map (fieldNamed naming)).lookup name).map fun value => (name, value)) =
      (names.mapM fun name => (fields.lookup name).map fun value => (name, value)).map
        (List.map (fieldNamed naming)) := by
    intro names
    induction names with
    | nil => rfl
    | cons name rest hypothesis =>
      rw [List.mapM_cons, List.mapM_cons, hypothesis, lookup_fieldNamed]
      cases fields.lookup name with
      | none => rfl
      | some value =>
        generalize List.mapM (m := Option) _ rest = found
        cases found <;> rfl
  unfold ObjectClass.ofFields
  rw [List.length_map, ordered]
  by_cases whole : fields.length = objectClass.fields.length
  · rw [if_pos whole, if_pos whole]
    generalize List.mapM (m := Option) _ objectClass.fields = found
    cases found with
    | none => rfl
    | some values => simp only [Option.map_some, map_ok, Value.named, attributesNamed_eq]
  · rw [if_neg whole, if_neg whole, map_error]

/-- **A registered type** makes one value of one list of items. -/
theorem TypeEntry.construct_named (entry : TypeEntry) (items : List Value) :
    entry.construct (items.map (Value.named naming)) =
      (entry.construct items).map (Value.named naming) := by
  cases entry with
  | enumeration named =>
    rcases items with _ | ⟨value, _ | ⟨second, _ | ⟨third, rest⟩⟩⟩
    · rfl
    · exact named.ofValue_named naming value
    · cases second with
      | none => exact named.ofValue_named naming value
      | _ => rfl
    · cases second <;> rfl
  | objectClass named => exact named.ofItems_named naming items
  | message named => rfl

theorem TypeEntry.constructNamed_named (entry : TypeEntry) (fields : List (String × Value)) :
    entry.constructNamed (fields.map (fieldNamed naming)) =
      (entry.constructNamed fields).map (Value.named naming) := by
  cases entry with
  | enumeration named =>
    rcases fields with _ | ⟨⟨name, value⟩, _ | ⟨second, rest⟩⟩
    · rfl
    · by_cases only : name = "value"
      · subst only
        exact named.ofValue_named naming value
      · simp [TypeEntry.constructNamed, fieldNamed, only, map_error]
    · simp [TypeEntry.constructNamed, map_error]
  | objectClass named => exact named.ofFields_named naming fields
  | message named => rfl

theorem TypeEntry.ofDiscriminant_nameless (entry : TypeEntry) (value : Int) :
    (entry.ofDiscriminant value).map (Value.named naming) = entry.ofDiscriminant value := by
  have made : (entry.construct [.int value]).map (Value.named naming) =
      entry.construct [.int value] :=
    (entry.construct_named naming [.int value]).symm
  cases entry with
  | enumeration named =>
    unfold TypeEntry.ofDiscriminant
    cases found : named.find? (.int value) with
    | none => simp only [found, map_error]
    | some member => simp only [found, map_ok, named.find?_nameless found naming]
  | objectClass named => exact made
  | message named => exact made

/-! ### Frames -/

/-- A scope under other names. -/
def Scope.named (naming : Naming) (scope : Scope) : Scope where
  reader := scope.reader.map naming.views
  slots := scope.slots.map (fieldNamed naming)

/-- A frame under other names. -/
def Frame.named (naming : Naming) (frame : Frame) : Frame where
  scope := frame.scope.named naming
  enclosing := frame.enclosing.map (Scope.named naming)

namespace Frame

theorem scopes_named (frame : Frame) :
    (frame.named naming).scopes = frame.scopes.map (Scope.named naming) := rfl

theorem depth_named (frame : Frame) : (frame.named naming).depth = frame.depth :=
  List.length_map _

theorem find?_named (frame : Frame) (slot : Slot) :
    (frame.named naming).find? slot = (frame.find? slot).map (Value.named naming) := by
  unfold find?
  rw [scopes_named, List.findSome?_map, List.map_findSome?]
  refine congrArg (fun search => frame.scopes.findSome? search) (funext fun scope => ?_)
  exact lookup_fieldNamed naming scope.slots slot

/-- **Reading a register** gives one value. -/
theorem get_named (frame : Frame) (register : Register) :
    (frame.named naming).get register =
      (frame.get register).map (Value.named naming) := by
  unfold get
  rw [bind_map_eq]
  refine congrArg _ (funext fun slot => ?_)
  rw [find?_named]
  cases frame.find? slot <;> rfl

theorem getMany_named (frame : Frame) (registers : List Register) :
    (frame.named naming).getMany registers =
      (frame.getMany registers).map (List.map (Value.named naming)) := by
  unfold getMany
  rw [← mapM_map_eq]
  exact congrArg (fun read => registers.mapM read) (funext (frame.get_named naming))

/-- **Writing a register** gives one frame. -/
theorem set_named (frame : Frame) (register : Register) (value : Value) :
    (frame.named naming).set register (value.named naming) =
      (frame.set register value).map (named naming) := by
  unfold set
  rw [bind_map_eq]
  refine congrArg _ (funext fun slot => ?_)
  rw [find?_named]
  cases frame.find? slot <;> rfl

theorem reader_named (frame : Frame) :
    (frame.named naming).reader = frame.reader.map naming.views := by
  unfold reader
  rw [scopes_named, List.findSome?_map]
  have found : frame.scopes.findSome? (Scope.reader ∘ Scope.named naming) =
      (frame.scopes.findSome? Scope.reader).map naming.views := by
    rw [List.map_findSome?]
    rfl
  rw [found]
  cases frame.scopes.findSome? Scope.reader <;> rfl

theorem streamIn_named (frame : Frame) (register : Register) :
    (frame.named naming).streamIn register =
      (frame.streamIn register).map naming.views := by
  unfold streamIn
  rw [get_named, map_bind_eq, bind_map_eq]
  refine congrArg _ (funext fun value => ?_)
  cases value <;> rfl

/-- **A target** is one view. -/
theorem target_named (frame : Frame) (target : Target) :
    (frame.named naming).target target = (frame.target target).map naming.views := by
  cases target with
  | direct => exact frame.reader_named naming
  | stream register => exact frame.streamIn_named naming register
  | buffer register => exact frame.streamIn_named naming register

end Frame

theorem cursorFrame_named (frame : Frame) (target : Target) (cursor : View) :
    (cursorFrame frame target cursor).named naming =
      cursorFrame (frame.named naming) target (naming.views cursor) := by
  cases target with
  | direct => rfl
  | stream register =>
    unfold cursorFrame
    cases addressed : register.slot? <;> simp only [addressed] <;> rfl
  | buffer register =>
    unfold cursorFrame
    cases addressed : register.slot? <;> simp only [addressed] <;> rfl

theorem Program.fieldValue_named (program : Program) (frame : Frame) (name : Json) :
    program.fieldValue (frame.named naming) name =
      (program.fieldValue frame name).map (Value.named naming) := by
  unfold Program.fieldValue
  rw [bind_map_eq]
  exact congrArg _ (funext fun register => frame.get_named naming register)

/-- **A constructable** is one value. -/
theorem Constructable.build_named (types : Types) (frame : Frame) (constructable : Constructable) :
    constructable.build types (frame.named naming) =
      (constructable.build types frame).map (Value.named naming) := by
  cases constructable with
  | tuple items =>
    simp only [Constructable.build, Frame.getMany_named]
    cases frame.getMany items with
    | error fault => rfl
    | ok values => simp only [map_ok, Value.named, itemsNamed_eq]
  | tagged name items =>
    simp only [Constructable.build, Frame.getMany_named, map_bind_eq, bind_map_eq]
    refine congrArg _ (funext fun values => congrArg _ (funext fun entry => ?_))
    cases entry with
    | some entry => exact entry.construct_named naming values
    | none => simp only [pure, Except.pure, map_ok, Value.named, itemsNamed_eq]
  | struct name fields =>
    have read : ∀ field : Json × Register,
        ((frame.named naming).get field.2).map (field.1, ·) =
          ((frame.get field.2).map (field.1, ·)).map (fieldNamed naming) := by
      intro field
      rw [Frame.get_named]
      cases frame.get field.2 <;> rfl
    simp only [Constructable.build, read, mapM_map_eq, map_bind_eq, bind_map_eq]
    refine congrArg _ (funext fun values => congrArg _ (funext fun entry => ?_))
    cases entry with
    | some entry =>
      simp only [stringNamed?_named]
      cases stringNamed? values with
      | none => rfl
      | some named =>
        simp only [Option.map_some, tableOf_fieldNamed]
        exact entry.constructNamed_named naming (tableOf named)
    | none => simp only [pure, Except.pure, map_ok, Value.named, fieldsNamed_eq]

/-! ### Counts -/

/-- **A count.** A value that is none is named in the fault by its class. -/
theorem countOf_named (what : String) (value : Value) (apart : ∀ view, value ≠ .stream view) :
    countOf what (value.named naming) = countOf what value := by
  unfold countOf
  rw [Value.toInteger?_named, Value.typeName_named naming value apart]

end WireProgram
