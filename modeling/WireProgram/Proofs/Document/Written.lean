/-
**Reading what was written.**

A program that was read is written as a document, the document may be arranged, and the program is
read again. Nothing but the arrangement and the cells of its list constants is different then. The main
definitions and statements:

* `Json.Arranges`, an arrangement of documents, and what it makes of constants;
* `readInstruction_arranged` and `Program.ofJson_toJsonWith`, reading an arranged document;
* `Program.ofJson_toJson`, **reading undoes writing**.
-/

import WireProgram.Proofs.Document.Leaves
import WireProgram.Proofs.Document.Loaded
import WireProgram.Resolver.Prelude

namespace WireProgram

/-! ### Documents with different keys -/

/-- An object that holds no key twice, or any other document. -/
def Json.Distinct : Json → Prop
  | .object entries => (entries.map Prod.fst).Nodup
  | _ => True

theorem Target.toJson_distinct (target : Target) : target.toJson.Distinct := by
  cases target <;> simp [toJson, Json.Distinct]

theorem Constructable.toJson_distinct (constructable : Constructable) :
    constructable.toJson.Distinct := by
  cases constructable <;> simp [toJson, Json.Distinct]

theorem Expression.toJson_distinct (expression : Expression) : expression.toJson.Distinct := by
  cases expression with
  | constant literal => cases literal <;> simp [toJson, Json.Distinct]
  | _ => simp [toJson, Json.Distinct]

theorem Instruction.toJson_distinct (instruction : Instruction) : instruction.toJson.Distinct := by
  cases instruction with
  | decodeArray target data primitive length =>
    cases length <;> simp [toJson, Json.Distinct, optionalEntry]
  | loop target stop terminator output body =>
    cases stop <;> cases terminator <;> simp [toJson, Json.Distinct, optionalEntry]
  | _ => simp [toJson, Json.Distinct]

/-! ### Arrangements -/

/-- Whether a document holds no other one. -/
def Json.isScalar : Json → Bool
  | .array _ | .object _ => false
  | _ => true

/-- An arrangement of documents: it changes nothing but the order of the entries of objects. Beside
it stands what it makes of constants. -/
structure Json.Arranges (arrange : Json → Json) (constant : Literal → Literal) : Prop where
  scalar : ∀ document : Json, document.isScalar = true → arrange document = document
  array : ∀ items, arrange (.array items) = .array (items.map arrange)
  object : ∀ entries, ∃ others, arrange (.object entries) = .object others ∧
    ((entries.map Prod.fst).Nodup → ∀ key, others.lookup key = (entries.lookup key).map arrange)
  depth : ∀ document, (arrange document).depth = document.depth
  bytes : ∀ content, constant (.bytes content) = .bytes content
  constant : ∀ {literal document}, literal.unnumbered = .ofJson document →
    (constant literal).unnumbered = .ofJson (arrange document)

namespace Json.Arranges

variable {good : Json → Prop} {arrange : Json → Json} {constant : Literal → Literal}
  {document value : Json} {key : String}

/-- What is found under a key is what was found there, arranged. -/
theorem get? (arranges : Arranges arrange constant) (distinct : document.Distinct) (key : String) :
    (arrange document).get? key = (document.get? key).map arrange := by
  cases document with
  | object entries =>
    obtain ⟨others, same, found⟩ := arranges.object entries
    rw [same]
    exact found distinct key
  | array items => rw [arranges.array]; rfl
  | null => rw [arranges.scalar _ rfl]; rfl
  | bool value => rw [arranges.scalar _ rfl]; rfl
  | int value => rw [arranges.scalar _ rfl]; rfl
  | float value => rw [arranges.scalar _ rfl]; rfl
  | string value => rw [arranges.scalar _ rfl]; rfl

theorem require (arranges : Arranges arrange constant) (distinct : document.Distinct)
    (found : document.get? key = some value) :
    (arrange document).require key = .ok (arrange value) := by
  have here := arranges.get? distinct key
  rw [found] at here
  cases shape : arrange document with
  | object others =>
    rw [shape] at here
    unfold Json.require
    rw [if_pos (show (Json.object others).isObject = true from rfl), here]
    rfl
  | _ =>
    rw [shape] at here
    cases here

/-- The kind of a part is found as it was written. -/
theorem kind (arranges : Arranges arrange constant) (distinct : document.Distinct) {kind : String}
    (found : document.get? "type" = some (.string kind)) :
    (arrange document).require "type" = .ok (.string kind) := by
  rw [arranges.require distinct found, arranges.scalar _ rfl]

theorem requireElements (arranges : Arranges arrange constant) (items : List Json) :
    (arrange (.array items)).requireElements = .ok (items.map arrange) := by
  rw [arranges.array]
  rfl

/-! ### Registers -/

theorem ofJson (arranges : Arranges arrange constant) {register : Register}
    (written : register.Written good) :
    Register.ofJson (arrange register.toJson) = register.map arrange := by
  cases register with
  | index value =>
    rw [Register.toJson, arranges.scalar _ rfl]
    rfl
  | literal document =>
    cases document with
    | object entries =>
      obtain ⟨others, same, -⟩ := arranges.object entries
      rw [Register.map, Register.toJson, same]
      rfl
    | array items =>
      rw [Register.map, Register.toJson, arranges.array]
      rfl
    | int value => exact absurd rfl (written.1 value)
    | null => rw [Register.map, Register.toJson, arranges.scalar _ rfl]; rfl
    | bool value => rw [Register.map, Register.toJson, arranges.scalar _ rfl]; rfl
    | float value => rw [Register.map, Register.toJson, arranges.scalar _ rfl]; rfl
    | string value => rw [Register.map, Register.toJson, arranges.scalar _ rfl]; rfl

theorem eq_null (arranges : Arranges arrange constant) (same : arrange document = .null) :
    document = .null := by
  cases document with
  | object entries =>
    obtain ⟨others, same', -⟩ := arranges.object entries
    cases same'.symm.trans same
  | array items => cases (arranges.array items).symm.trans same
  | _ => exact (arranges.scalar _ rfl).symm.trans same

theorem readRegister (arranges : Arranges arrange constant) (distinct : document.Distinct)
    {register : Register} (found : document.get? key = some register.toJson)
    (written : register.Written good) :
    WireProgram.readRegister (arrange document) key = .ok (register.map arrange) := by
  unfold WireProgram.readRegister
  rw [arranges.require distinct found]
  exact congrArg Except.ok (arranges.ofJson written)

theorem readOptionalRegister (arranges : Arranges arrange constant) (distinct : document.Distinct)
    {register : Option Register} (found : document.get? key = register.map Register.toJson)
    (written : Register.WrittenIfAny good register) :
    WireProgram.readOptionalRegister (arrange document) key =
      register.map (Register.map arrange) := by
  have here := arranges.get? distinct key
  unfold WireProgram.readOptionalRegister
  cases register with
  | none =>
    rw [found] at here
    rw [here]
    rfl
  | some register =>
    obtain ⟨written, filled⟩ := written register rfl
    rw [found] at here
    rw [here]
    have different : arrange register.toJson ≠ .null := fun same => filled (arranges.eq_null same)
    rw [Option.map_some, Option.map_some, Option.map_some, ← arranges.ofJson written]
    cases shape : arrange register.toJson with
    | null => exact absurd shape different
    | _ => rfl

theorem readRegisters (arranges : Arranges arrange constant) {registers : List Register}
    (written : ∀ register ∈ registers, register.Written good) :
    WireProgram.readRegisters (arrange (registersToJson registers)) =
      .ok (registers.map (Register.map arrange)) := by
  unfold WireProgram.readRegisters registersToJson
  rw [arranges.requireElements]
  refine congrArg Except.ok ?_
  dsimp only
  rw [List.map_map, List.map_map]
  exact List.map_congr_left fun register member => arranges.ofJson (written register member)

theorem readArguments (arranges : Arranges arrange constant) (distinct : document.Distinct)
    {registers : List Register} (found : document.get? key = some (registersToJson registers))
    (written : ∀ register ∈ registers, register.Written good) :
    WireProgram.readArguments (arrange document) key =
      .ok (registers.map (Register.map arrange)) := by
  unfold WireProgram.readArguments
  rw [arranges.get? distinct key, found]
  exact arranges.readRegisters written

theorem readTarget (arranges : Arranges arrange constant) {target : Target}
    (written : target.Written good) :
    WireProgram.readTarget (arrange target.toJson) = .ok (target.map arrange) := by
  have distinct := target.toJson_distinct
  cases target with
  | direct => exact bind_of_ok (arranges.kind distinct rfl)
  | stream register =>
    refine (bind_of_ok (arranges.kind distinct rfl)).trans ?_
    exact bind_of_ok (arranges.readRegister distinct rfl written)
  | buffer register =>
    refine (bind_of_ok (arranges.kind distinct rfl)).trans ?_
    exact bind_of_ok (arranges.readRegister distinct rfl written)

theorem readTargetAt (arranges : Arranges arrange constant) (distinct : document.Distinct)
    {target : Target} (found : document.get? key = some target.toJson)
    (written : target.Written good) :
    WireProgram.readTargetAt (arrange document) key = .ok (target.map arrange) := by
  exact (bind_of_ok (arranges.require distinct found)).trans (arranges.readTarget written)

end Json.Arranges

/-! ### Bytes -/

/-- A hexadecimal digit is read as what it was written for, and it is no blank. -/
theorem Bytes.hexValue?_hexDigit : ∀ value < 16,
    hexValue? (hexDigit value) = some value ∧ isHexBlank (hexDigit value) = false := by
  decide

theorem Bytes.ofHexChars?_pairs (content : Bytes) :
    ofHexChars? (content.flatMap fun byte =>
      [hexDigit (byte.toNat / 16), hexDigit (byte.toNat % 16)]) = some content := by
  induction content with
  | nil => rfl
  | cons byte rest hypothesis =>
    have small : byte.toNat < 256 := byte.toNat_lt
    obtain ⟨high, full⟩ := hexValue?_hexDigit (byte.toNat / 16) (by omega)
    obtain ⟨low, -⟩ := hexValue?_hexDigit (byte.toNat % 16) (Nat.mod_lt _ (by decide))
    have whole : UInt8.ofNat (16 * (byte.toNat / 16) + byte.toNat % 16) = byte := by
      rw [Nat.div_add_mod]
      exact UInt8.ofNat_toNat
    rw [List.flatMap_cons, List.cons_append, List.cons_append, List.nil_append, ofHexChars?,
      if_neg (by rw [full]; exact Bool.false_ne_true), high, low, hypothesis]
    exact congrArg (fun first => some (first :: rest)) whole

/-- **Bytes are read as they were written.** -/
theorem Bytes.ofHex?_toHex (content : Bytes) : ofHex? (toHex content) = some content := by
  unfold ofHex? toHex
  rw [String.toList_ofList]
  exact ofHexChars?_pairs content

/-! ### Expressions -/

section Reads

variable {resolver : Resolver} {good : Json → Prop} {arrange : Json → Json}
  {constant : Literal → Literal}

/-- An expression without the cells of its list constants. -/
def Expression.unnumbered (expression : Expression) : Expression :=
  expression.map id Literal.unnumbered

/-- Expressions without the cells of their list constants. -/
def expressionsUnnumbered (expressions : List Expression) : List Expression :=
  expressionsMap id Literal.unnumbered expressions

mutual

/-- **An expression that was written and arranged** is read as the arranged expression. -/
theorem readExpression_arranged (arranges : Json.Arranges arrange constant) :
    ∀ expression : Expression, expression.Written good resolver →
      ∀ fuel, expression.toJson.depth ≤ fuel →
        (readExpression resolver fuel (arrange expression.toJson)).Succeeds fun found =>
          found.unnumbered = (expression.map arrange constant).unnumbered
  | expression, _, 0, enough => absurd enough (Nat.not_le_of_lt (Json.depth_pos _))
  | .field name, _, fuel + 1, _ => by
    have distinct := (Expression.field name).toJson_distinct
    refine .lift (arranges.kind distinct rfl) ?_
    exact .lift (arranges.require distinct rfl) (.pure rfl)
  | .constant literal, written, fuel + 1, _ => by
    have distinct := (Expression.constant literal).toJson_distinct
    rw [Expression.toJson_constant] at distinct ⊢
    rcases written with ⟨content, rfl⟩ | ⟨document, same, -⟩
    · have found : (arrange (.object [("type", .string "const"),
          constantEntry (.bytes content)])).get? "bytes" =
            some (.string (Bytes.toHex content)) := by
        rw [arranges.get? distinct]
        exact congrArg some (arranges.scalar (.string _) rfl)
      have read : readBytes (.string (Bytes.toHex content)) = .ok (.bytes content) := by
        unfold readBytes
        dsimp only
        rw [Bytes.ofHex?_toHex]
      refine .lift (arranges.kind distinct rfl) ?_
      rw [found]
      refine .lift read (.pure ?_)
      show Expression.constant (Literal.unnumbered (.bytes content)) = _
      rw [Expression.map, arranges.bytes]
      rfl
    · have entry : constantEntry literal = ("value", document) := by
        have plain := (literal.toJson_unnumbered).symm.trans
          ((congrArg Literal.toJson same).trans (Literal.toJson_ofJson document))
        cases literal with
        | bytes content => cases document <;> cases same
        | _ => exact congrArg (Prod.mk "value") plain
      rw [entry] at distinct ⊢
      refine .lift (arranges.kind distinct rfl) ?_
      rw [arranges.get? distinct]
      refine .lift (arranges.require distinct rfl) ?_
      refine (readLiteral_succeeds (arrange document)).bind fun found same' => .pure ?_
      exact congrArg Expression.constant (same'.trans (arranges.constant same).symm)
  | .call function arguments, written, fuel + 1, enough => by
    have distinct := (Expression.call function arguments).toJson_distinct
    obtain ⟨resolved, written⟩ := written
    have shallow : Json.depthItems (expressionsToJson arguments) ≤ fuel :=
      Json.depthItems_of_get? "args" (expressionsToJson arguments) rfl enough
    refine .lift (arranges.kind distinct rfl) (.lift (arranges.require distinct rfl) ?_)
    rw [arranges.scalar _ rfl]
    refine .lift resolved (.lift (arranges.require distinct rfl) ?_)
    refine .lift (arranges.requireElements _) ?_
    refine (readExpressions_arranged arranges arguments written fuel shallow).bind
      fun found same => .pure ?_
    exact congrArg (Expression.call function) same

theorem readExpressions_arranged (arranges : Json.Arranges arrange constant) :
    ∀ expressions : List Expression, expressionsWritten good resolver expressions →
      ∀ fuel, Json.depthItems (expressionsToJson expressions) ≤ fuel →
        (((expressionsToJson expressions).map arrange).mapM
          (readExpression resolver fuel)).Succeeds fun found =>
            expressionsUnnumbered found =
              expressionsUnnumbered (expressionsMap arrange constant expressions)
  | [], _, _, _ => .pure rfl
  | expression :: rest, ⟨here, others⟩, fuel, enough => by
    obtain ⟨shallow, shallows⟩ := Nat.max_le.mp enough
    rw [expressionsToJson, List.map_cons, List.mapM_cons]
    refine (readExpression_arranged arranges expression here fuel shallow).bind fun found same => ?_
    refine (readExpressions_arranged arranges rest others fuel shallows).bind fun founds same' => ?_
    exact .pure (congrArg₂ List.cons same same')

end

/-! ### Instructions -/

theorem mapM_eq_ok_map {α β ε : Type} {items : List α} {act : α → Except ε β} {value : α → β}
    (each : ∀ item ∈ items, act item = .ok (value item)) :
    items.mapM act = .ok (items.map value) := by
  induction items with
  | nil => rfl
  | cons item rest hypothesis =>
    obtain ⟨here, others⟩ := List.forall_mem_cons.mp each
    rw [List.mapM_cons, here, hypothesis others]
    rfl

theorem readConstructable_arranged (arranges : Json.Arranges arrange constant)
    {constructable : Constructable} (written : constructable.Written good) :
    readConstructable (arrange constructable.toJson) = .ok (constructable.map arrange) := by
  have distinct := constructable.toJson_distinct
  cases constructable with
  | tuple items =>
    refine (bind_of_ok (arranges.kind distinct rfl)).trans ?_
    refine (bind_of_ok (arranges.require distinct rfl)).trans ?_
    exact bind_of_ok (arranges.readRegisters written)
  | tagged name items =>
    refine (bind_of_ok (arranges.kind distinct rfl)).trans ?_
    refine (bind_of_ok (arranges.require distinct rfl)).trans ?_
    refine (bind_of_ok (arranges.require distinct rfl)).trans ?_
    exact bind_of_ok (arranges.readRegisters written.2)
  | struct name fields =>
    have pairs : (fields.map (arrange ∘ fun field => .array [field.1, field.2.toJson])).mapM
        readPair = .ok (fields.map fun field => (arrange field.1, field.2.map arrange)) := by
      rw [List.mapM_map]
      refine mapM_eq_ok_map fun field member => ?_
      refine (bind_of_ok (arranges.requireElements [field.1, field.2.toJson])).trans ?_
      exact congrArg (fun register => Except.ok (arrange field.1, register))
        (arranges.ofJson (written.2 field member).2)
    refine (bind_of_ok (arranges.kind distinct rfl)).trans ?_
    refine (bind_of_ok (arranges.require distinct rfl)).trans ?_
    refine (bind_of_ok (arranges.require distinct rfl)).trans ?_
    refine (bind_of_ok (arranges.requireElements _)).trans ?_
    rw [List.map_map]
    exact bind_of_ok pairs

/-- A block without the cells of its list constants. -/
def blockUnnumbered (block : List Instruction) : List Instruction :=
  blockMap id Literal.unnumbered block

theorem blockWritten_cons {instruction : Instruction} {rest : List Instruction}
    (written : blockWritten good resolver (instruction :: rest)) :
    (∀ part ∈ instruction.parts, part.Written good resolver) ∧ blockWritten good resolver rest :=
  ⟨fun part member => written part (List.mem_append_left _ member),
    fun part member => written part (List.mem_append_right _ member)⟩

mutual

/-- **An instruction that was written and arranged** is read as the arranged instruction. -/
theorem readInstruction_arranged (arranges : Json.Arranges arrange constant) :
    ∀ instruction : Instruction, (∀ part ∈ instruction.parts, part.Written good resolver) →
      ∀ fuel, instruction.toJson.depth ≤ fuel →
        (readInstruction resolver fuel (arrange instruction.toJson)).Succeeds fun found =>
          found.map id Literal.unnumbered =
            (instruction.map arrange constant).map id Literal.unnumbered
  | instruction, _, 0, enough => absurd enough (Nat.not_le_of_lt (Json.depth_pos _))
  | .eval target expression, written, fuel + 1, _ => by
    have distinct := (Instruction.eval target expression).toJson_distinct
    obtain ⟨one, two⟩ := written _ (Instruction.mem_parts _)
    refine .lift (arranges.kind distinct rfl) ?_
    refine .lift (arranges.readRegister distinct rfl one) ?_
    refine .lift (arranges.require distinct rfl) ?_
    refine (readExpression_arranged arranges expression two _ ?_).bind fun found same => .pure ?_
    · rw [arranges.depth]
      exact Nat.le_succ _
    · exact congrArg (Instruction.eval _) same
  | .construct target constructable, written, fuel + 1, _ => by
    have distinct := (Instruction.construct target constructable).toJson_distinct
    obtain ⟨one, two⟩ := written _ (Instruction.mem_parts _)
    refine .lift (arranges.kind distinct rfl) ?_
    refine .lift (arranges.readRegister distinct rfl one) ?_
    refine .lift (arranges.require distinct rfl) ?_
    exact .lift (readConstructable_arranged arranges two) (.pure rfl)
  | .constrict stream newStream length, written, fuel + 1, _ => by
    have distinct := (Instruction.constrict stream newStream length).toJson_distinct
    obtain ⟨one, two, three⟩ := written _ (Instruction.mem_parts _)
    refine .lift (arranges.kind distinct rfl) ?_
    refine .lift (arranges.readTargetAt distinct rfl one) ?_
    refine .lift (arranges.readRegister distinct rfl two) ?_
    exact .lift (arranges.readRegister distinct rfl three) (.pure rfl)
  | .wrapStream stream newStream transform arguments, written, fuel + 1, _ => by
    have distinct := (Instruction.wrapStream stream newStream transform arguments).toJson_distinct
    obtain ⟨one, two, resolved, three⟩ := written _ (Instruction.mem_parts _)
    refine .lift (arranges.kind distinct rfl) ?_
    refine .lift (arranges.readTargetAt distinct rfl one) ?_
    refine .lift (arranges.readRegister distinct rfl two) ?_
    refine .lift (arranges.require distinct rfl) ?_
    rw [arranges.scalar _ rfl]
    refine .lift resolved ?_
    exact .lift (arranges.readArguments distinct rfl three) (.pure rfl)
  | .conditionalWrapStream condition prelude stream newStream transform arguments, written,
      fuel + 1, enough => by
    have distinct := (Instruction.conditionalWrapStream condition prelude stream newStream transform
      arguments).toJson_distinct
    obtain ⟨one, two, three, resolved, four⟩ := written _ (Instruction.mem_parts _)
    refine .lift (arranges.kind distinct rfl) ?_
    refine .lift (arranges.readRegister distinct rfl one) ?_
    rw [arranges.get? distinct]
    have shallow := Json.depthItems_of_get? "prelude" (blockToJson prelude) rfl enough
    refine (Reading.Succeeds.lift (arranges.requireElements _) (readBlock_arranged arranges prelude
      (fun part member => written part (List.mem_cons_of_mem _ member)) fuel shallow)).bind
        fun found same => ?_
    refine .lift (arranges.readTargetAt distinct rfl two) ?_
    refine .lift (arranges.readRegister distinct rfl three) ?_
    refine .lift (arranges.require distinct rfl) ?_
    rw [arranges.scalar _ rfl]
    refine .lift resolved ?_
    refine .lift (arranges.readArguments distinct rfl four) (.pure ?_)
    exact congrArg (fun block => Instruction.conditionalWrapStream _ block _ _ _ _) same
  | .decodeForeign target data foreign arguments, written, fuel + 1, _ => by
    have distinct := (Instruction.decodeForeign target data foreign arguments).toJson_distinct
    obtain ⟨one, two, resolved, three⟩ := written _ (Instruction.mem_parts _)
    refine .lift (arranges.kind distinct rfl) ?_
    refine .lift (arranges.readTargetAt distinct rfl one) ?_
    refine .lift (arranges.readRegister distinct rfl two) ?_
    refine .lift (arranges.require distinct rfl) ?_
    rw [arranges.scalar _ rfl]
    refine .lift resolved ?_
    exact .lift (arranges.readArguments distinct rfl three) (.pure rfl)
  | .decodeReference target data typeName arguments, written, fuel + 1, _ => by
    have distinct := (Instruction.decodeReference target data typeName arguments).toJson_distinct
    obtain ⟨one, two, -, three⟩ := written _ (Instruction.mem_parts _)
    refine .lift (arranges.kind distinct rfl) ?_
    refine .lift (arranges.readTargetAt distinct rfl one) ?_
    refine .lift (arranges.readRegister distinct rfl two) ?_
    refine .lift (arranges.require distinct rfl) ?_
    exact .lift (arranges.readArguments distinct rfl three) (.pure rfl)
  | .decodeEnumeration enumeration backing data target, written, fuel + 1, _ => by
    have distinct :=
      (Instruction.decodeEnumeration enumeration backing data target).toJson_distinct
    obtain ⟨-, -, one, two⟩ := written _ (Instruction.mem_parts _)
    refine .lift (arranges.kind distinct rfl) ?_
    refine .lift (arranges.require distinct rfl) ?_
    refine .lift (arranges.require distinct rfl) ?_
    refine .lift (arranges.readRegister distinct rfl one) ?_
    exact .lift (arranges.readTargetAt distinct rfl two) (.pure rfl)
  | .decodePrimitive target data primitive, written, fuel + 1, _ => by
    have distinct := (Instruction.decodePrimitive target data primitive).toJson_distinct
    obtain ⟨one, two, -⟩ := written _ (Instruction.mem_parts _)
    refine .lift (arranges.kind distinct rfl) ?_
    refine .lift (arranges.readTargetAt distinct rfl one) ?_
    refine .lift (arranges.readRegister distinct rfl two) ?_
    exact .lift (arranges.require distinct rfl) (.pure rfl)
  | .decodeArray target data primitive length, written, fuel + 1, _ => by
    have distinct := (Instruction.decodeArray target data primitive length).toJson_distinct
    obtain ⟨one, two, -, three⟩ := written _ (Instruction.mem_parts _)
    have found : (Instruction.decodeArray target data primitive length).toJson.get? "length" =
        length.map Register.toJson := by
      cases length <;> rfl
    refine .lift (arranges.kind distinct rfl) ?_
    refine .lift (arranges.readTargetAt distinct rfl one) ?_
    refine .lift (arranges.readRegister distinct rfl two) ?_
    refine .lift (arranges.require distinct rfl) (.pure ?_)
    rw [arranges.readOptionalRegister distinct found three]
    rfl
  | .loop target stop terminator output body, written, fuel + 1, enough => by
    have distinct := (Instruction.loop target stop terminator output body).toJson_distinct
    obtain ⟨one, two, three, four⟩ := written _ (Instruction.mem_parts _)
    have stops : (Instruction.loop target stop terminator output body).toJson.get? "stop" =
        stop.map Register.toJson := by
      cases stop <;> cases terminator <;> rfl
    have terminates : (Instruction.loop target stop terminator output body).toJson.get?
        "terminator" = terminator.map Register.toJson := by
      cases stop <;> cases terminator <;> rfl
    refine .lift (arranges.kind distinct rfl) ?_
    refine .lift (arranges.readTargetAt distinct rfl one) ?_
    refine .lift (arranges.readRegister distinct rfl four) ?_
    refine .lift (arranges.require distinct rfl) ?_
    have shallow := Json.depthItems_of_get? "body" (blockToJson body) rfl enough
    refine (Reading.Succeeds.lift (arranges.requireElements _) (readBlock_arranged arranges body
      (fun part member => written part (List.mem_cons_of_mem _ member)) fuel shallow)).bind
        fun found same => .pure ?_
    rw [arranges.readOptionalRegister distinct stops two,
      arranges.readOptionalRegister distinct terminates three]
    exact congrArg (Instruction.loop _ _ _ _) same
  | .loopOutput output item, written, fuel + 1, _ => by
    have distinct := (Instruction.loopOutput output item).toJson_distinct
    obtain ⟨one, two⟩ := written _ (Instruction.mem_parts _)
    refine .lift (arranges.kind distinct rfl) ?_
    refine .lift (arranges.readRegister distinct rfl one) ?_
    exact .lift (arranges.readRegister distinct rfl two) (.pure rfl)
  | .conditional target interior condition body, written, fuel + 1, enough => by
    have distinct := (Instruction.conditional target interior condition body).toJson_distinct
    obtain ⟨one, two, three⟩ := written _ (Instruction.mem_parts _)
    refine .lift (arranges.kind distinct rfl) ?_
    refine .lift (arranges.readRegister distinct rfl one) ?_
    refine .lift (arranges.readRegister distinct rfl two) ?_
    refine .lift (arranges.readRegister distinct rfl three) ?_
    refine .lift (arranges.require distinct rfl) ?_
    have shallow := Json.depthItems_of_get? "body" (blockToJson body) rfl enough
    refine (Reading.Succeeds.lift (arranges.requireElements _) (readBlock_arranged arranges body
      (fun part member => written part (List.mem_cons_of_mem _ member)) fuel shallow)).bind
        fun found same => .pure ?_
    exact congrArg (Instruction.conditional _ _ _) same

/-- **A block that was written and arranged** is read as the arranged block. -/
theorem readBlock_arranged (arranges : Json.Arranges arrange constant) :
    ∀ block : List Instruction, blockWritten good resolver block →
      ∀ fuel, Json.depthItems (blockToJson block) ≤ fuel →
        (((blockToJson block).map arrange).mapM (readInstruction resolver fuel)).Succeeds
          fun found => blockUnnumbered found = blockUnnumbered (blockMap arrange constant block)
  | [], _, _, _ => .pure rfl
  | instruction :: rest, written, fuel, enough => by
    obtain ⟨here, others⟩ := blockWritten_cons written
    obtain ⟨shallow, shallows⟩ := Nat.max_le.mp enough
    rw [blockToJson, List.map_cons, List.mapM_cons]
    refine (readInstruction_arranged arranges instruction here fuel shallow).bind
      fun found same => ?_
    refine (readBlock_arranged arranges rest others fuel shallows).bind fun founds same' => ?_
    exact .pure (congrArg₂ List.cons same same')

end

/-! ### Programs -/

/-- **A program that was written and arranged** is read as the arranged program. -/
theorem Program.ofJson_toJsonWith (arranges : Json.Arranges arrange constant) {program : Program}
    (written : program.Written good resolver) {document : Json} {fields : List (Json × Register)}
    (read : readFields document = .ok fields) :
    (Program.ofJson resolver (program.toJsonWith arrange document)).Succeeds fun found =>
      found.unnumbered = { program.map arrange constant with fields := fields }.unnumbered := by
  have deep : Json.depthItems (blockToJson program.instructions) ≤
      (program.toJsonWith arrange document).depth + 1 := by
    have found : (program.toJsonWith arrange document).get? "instructions" =
        some (arrange (.array (blockToJson program.instructions))) := rfl
    have inside := Json.depth_of_get? found
    rw [arranges.depth] at inside
    exact Nat.le_trans (Nat.le_of_lt (Nat.lt_of_succ_lt inside)) (Nat.le_succ _)
  refine .lift rfl (.lift (arranges.requireElements _) ?_)
  refine (readBlock_arranged arranges program.instructions written.block _ deep).bind
    fun found same => ?_
  refine .lift rfl (.lift read (.lift (arranges.readRegisters written.arguments) (.pure ?_)))
  unfold unnumbered
  exact congrArg (fun block => Program.mk block _ _ _) same

end Reads

/-! ### Fields -/

/-- Fields under strings, and the entries that they are written as. -/
theorem eq_of_stringFields {good : Json → Prop} {fields : List (Json × Register)}
    {entries : List (String × Json)}
    (registers : ∀ field ∈ fields, good field.1 ∧ field.2.Written good)
    (strings : fields.mapM stringField? = some entries) :
    (entries.map fun entry => (Json.string entry.1, Register.ofJson entry.2)) = fields := by
  induction fields generalizing entries with
  | nil =>
    cases strings
    rfl
  | cons field rest hypothesis =>
    obtain ⟨here, others⟩ := List.forall_mem_cons.mp registers
    obtain ⟨name, register⟩ := field
    rw [List.mapM_cons] at strings
    cases name with
    | string name =>
      cases later : rest.mapM stringField? with
      | none =>
        rw [later] at strings
        cases strings
      | some found =>
        rw [later] at strings
        cases strings
        exact congrArg₂ (fun first others => (Json.string name, first) :: others)
          (Register.ofJson_of_written here.2) (hypothesis others later)
    | _ => cases strings

/-- Fields under strings are written as entries. -/
theorem exists_stringFields {fields : List (Json × Register)}
    (names : ∀ field ∈ fields, ∃ name, field.1 = .string name) :
    ∃ entries, fields.mapM stringField? = some entries := by
  induction fields with
  | nil => exact ⟨[], rfl⟩
  | cons field rest hypothesis =>
    obtain ⟨⟨name, same⟩, others⟩ := List.forall_mem_cons.mp names
    obtain ⟨entries, later⟩ := hypothesis others
    obtain ⟨first, register⟩ := field
    obtain rfl : first = .string name := same
    exact ⟨(name, register.toJson) :: entries, by rw [List.mapM_cons, later]; rfl⟩

/-- Fields whose names differ are merged to themselves. -/
theorem mergeFields_of_nodup {fields : List (Json × Register)}
    (names : ∀ field ∈ fields, ∃ slot, field.1.slot? = some slot)
    (nodup : (fields.map fun field => field.1.slot?).Nodup) : mergeFields fields = .ok fields := by
  have slot : ∀ field : Json × Register, field ∈ fields →
      field.1.slot? = some (field.1.slot?.getD .nothing) := by
    intro field member
    obtain ⟨slot, same⟩ := names field member
    rw [same]
    rfl
  have slotted : (fields.mapM fun field => do return (← field.1.requireSlot, field)) =
      (.ok (fields.map fun field => (field.1.slot?.getD .nothing, field)) : Except Fault _) := by
    refine mapM_eq_ok_map fun field member => ?_
    refine bind_of_ok ?_
    unfold Json.requireSlot
    rw [slot field member]
    rfl
  have keys : ((fields.map fun field => (field.1.slot?.getD .nothing, field)).map
      Prod.fst).Nodup := by
    refine List.Nodup.of_map some ?_
    rw [List.map_map, List.map_map]
    rw [List.map_congr_left slot] at nodup
    exact nodup
  refine (bind_of_ok slotted).trans (congrArg Except.ok ?_)
  rw [tableOf_of_nodup keys, List.map_map]
  refine (List.map_congr_left fun field member => ?_).trans (List.map_id fields)
  dsimp only [Function.comp]
  rw [lookup_of_mem keys (List.mem_map_of_mem member)]
  rfl

/-- **Fields are read as they were written.** -/
theorem readFields_fieldsToJson {good : Json → Prop} {fields : List (Json × Register)}
    (written : fieldsWritten good fields) :
    readFields (fieldsToJson fields) = .ok fields := by
  obtain ⟨registers, names⟩ := written
  unfold fieldsToJson
  cases strings : fields.mapM stringField? with
  | some entries => exact congrArg Except.ok (eq_of_stringFields registers strings)
  | none =>
    obtain ⟨slots, nodup⟩ : (∀ field ∈ fields, ∃ slot, field.1.slot? = some slot) ∧
        (fields.map fun field => field.1.slot?).Nodup := by
      refine names.resolve_left fun all => ?_
      obtain ⟨entries, same⟩ := exists_stringFields all
      cases same.symm.trans strings
    have pairs : (fields.map fun field => Json.array [field.1, field.2.toJson]).mapM readField =
        .ok fields := by
      rw [List.mapM_map]
      have each : ∀ field ∈ fields, readField (.array [field.1, field.2.toJson]) =
          .ok (id field) := by
        intro field member
        obtain ⟨slot, same⟩ := slots field member
        have pair : readPair (.array [field.1, field.2.toJson]) = .ok field :=
          congrArg (fun register => Except.ok (field.1, register))
            (Register.ofJson_of_written (registers field member).2)
        have required : field.1.requireSlot = .ok slot := by
          unfold Json.requireSlot
          rw [same]
        exact (bind_of_ok pair).trans (bind_of_ok required)
      exact (mapM_eq_ok_map each).trans (congrArg Except.ok (List.map_id fields))
    exact (bind_of_ok pairs).trans (mergeFields_of_nodup slots nodup)

/-! ### Round trips -/

theorem Json.arranges_id : Json.Arranges id id where
  scalar _ _ := rfl
  array items := congrArg Json.array (List.map_id items).symm
  object entries := ⟨entries, rfl, fun _ key => by cases entries.lookup key <;> rfl⟩
  depth _ := rfl
  bytes _ := rfl
  constant same := same

/-- **Reading undoes writing.** A program that was read from a document, with a resolver whose
capabilities carry the names that they are resolved by, is written as a document from which it is
read again, up to the cells of its list constants, which are new lists. The program that is read is
written as the same document. So programs that were read and have one document are one program. -/
theorem Program.ofJson_toJson (resolver : Resolver) (named : resolver.Named) (document : Json)
    (lists : Lists) (program : Program) (after : Lists)
    (loaded : (Program.ofJson resolver document).run lists = .ok (program, after)) :
    (∀ others, ∃ again later,
      (Program.ofJson resolver program.toJson).run others = .ok (again, later) ∧
      again.unnumbered = program.unnumbered ∧ again.toJson = program.toJson ∧
      again.toObject = program.toObject) ∧
    ∀ document' lists' other after',
      (Program.ofJson resolver document').run lists' = .ok (other, after') →
        other.toJson = program.toJson → other.unnumbered = program.unnumbered := by
  have reread : ∀ {document lists program after},
      (Program.ofJson resolver document).run lists = .ok (program, after) →
        (Program.ofJson resolver program.toJson).Succeeds fun again =>
          again.unnumbered = program.unnumbered := by
    intro document lists program after loaded
    have written := Program.ofJson_written Json.Hereditary.any named trivial lists program after loaded
    have fields := readFields_fieldsToJson written.fields
    intro others
    obtain ⟨again, later, ran, same⟩ :=
      Program.ofJson_toJsonWith Json.arranges_id written fields others
    have whole : { program.map id id with fields := program.fields } = program.map id id := by
      unfold Program.map
      rw [Register.map_id_eq_id]
      simp
    rw [whole] at same
    exact ⟨again, later, ran, same.trans (program.map_map id id id Literal.unnumbered)⟩
  refine ⟨fun others => ?_, fun document' lists' other after' loaded' shown => ?_⟩
  · obtain ⟨again, later, ran, same⟩ := reread loaded others
    refine ⟨again, later, ran, same, ?_, ?_⟩
    · rw [← again.toJson_unnumbered, same, program.toJson_unnumbered]
    · rw [← again.toObject_unnumbered, same, program.toObject_unnumbered]
  · obtain ⟨again, later, ran, same⟩ := reread loaded lists
    obtain ⟨again', later', ran', same'⟩ := reread loaded' lists
    rw [shown] at ran'
    cases ran.symm.trans ran'
    exact same'.symm.trans same

/-! ### A program with all its optional parts -/

/-- A table in which every capability stands under its own name. -/
theorem name_of_lookup {α : Type} (title : α → String) {table : List (String × α)}
    (each : ∀ entry ∈ table, title entry.2 = entry.1) {name : String} {found : α}
    (same : table.lookup name = some found) : title found = name :=
  each _ (mem_of_lookup same)

theorem Prelude.resolver_named : Prelude.resolver.Named where
  transform := name_of_lookup Transform.name (by decide)
  type := name_of_lookup ForeignType.name (by decide)
  function := name_of_lookup Function.name (by decide)

/-- A document with keys in any order, parts left out or null, a list among the constants, bytes in
upper case and a field that is no string. -/
def looseDocument : Json :=
  .object [("register_count", .int 6),
    ("field_register_map", .array [.array [.int 7, .int 0], .array [.string "text", .bool true]]),
    ("instructions", .array [
      .object [("expr", .object [("args", .array [.object [("value", .array [.int 1, .array []]),
          ("type", .string "const")]]), ("function", .string "len"), ("type", .string "call")]),
        ("target", .int 0), ("type", .string "eval")],
      .object [("type", .string "eval"), ("target", .int 1),
        ("expr", .object [("type", .string "const"), ("bytes", .string "0A fF")])],
      .object [("type", .string "loop"), ("target", .object [("type", .string "direct")]),
        ("stop", .null), ("terminator", .int 1), ("output", .int 5),
        ("body", .array [.object [("type", .string "decode_primitive_array"),
            ("target", .object [("type", .string "stream"), ("register", .int 2)]),
            ("primitive", .string "u8"), ("data", .int 3), ("length", .null)],
          .object [("type", .string "wrap_stream"), ("transformer", .string "gzip"),
            ("stream", .object [("type", .string "direct")]), ("new_stream", .int 4)]])]])]

theorem Program.ofJson_toJson_of_loose : ∃ program after,
    (Program.ofJson Prelude.resolver looseDocument).run {} = .ok (program, after) ∧
      ∃ again later,
        (Program.ofJson Prelude.resolver program.toJson).run after = .ok (again, later) ∧
        again.unnumbered = program.unnumbered ∧ again.toJson = program.toJson ∧
        again.toObject = program.toObject := by
  have succeeds : ((Program.ofJson Prelude.resolver looseDocument).run {}).isOk = true := by
    decide +kernel
  cases loaded : (Program.ofJson Prelude.resolver looseDocument).run {} with
  | error fault =>
    rw [loaded] at succeeds
    cases succeeds
  | ok pair =>
    obtain ⟨program, after⟩ := pair
    exact ⟨program, after, rfl, (Program.ofJson_toJson Prelude.resolver Prelude.resolver_named
      looseDocument {} program after loaded).1 after⟩

end WireProgram
