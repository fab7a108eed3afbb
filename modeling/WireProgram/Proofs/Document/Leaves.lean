/-
**Programs with their leaves changed.**

The leaves of a program are the documents that it keeps, in names and registers, and its constants.
The main definitions and statements:

* `Program.map`, a program with its leaves changed, and `Program.unnumbered`;
* `Json.Unseen`, a change of leaves that a sameness of documents does not see;
* `Program.toJson_unnumbered`, documents do not show the cells of list constants.
-/

import Mathlib.Data.List.Forall2
import WireProgram.Proofs.Document.Reading

namespace WireProgram

/-! ### Programs with their leaves changed -/

/-- A register whose document is changed. -/
def Register.map (document : Json → Json) : Register → Register
  | .index value => .index value
  | .literal written => .literal (document written)

/-- A target whose register is changed. -/
def Target.map (document : Json → Json) : Target → Target
  | .direct => .direct
  | .stream register => .stream (register.map document)
  | .buffer register => .buffer (register.map document)

mutual

/-- An expression with its names and constants changed. -/
def Expression.map (document : Json → Json) (constant : Literal → Literal) :
    Expression → Expression
  | .field name => .field (document name)
  | .constant literal => .constant (constant literal)
  | .call function arguments => .call function (expressionsMap document constant arguments)

/-- Expressions with their names and constants changed. -/
def expressionsMap (document : Json → Json) (constant : Literal → Literal) :
    List Expression → List Expression
  | [] => []
  | expression :: rest =>
    expression.map document constant :: expressionsMap document constant rest

end

/-- A constructable with its names and registers changed. -/
def Constructable.map (document : Json → Json) : Constructable → Constructable
  | .tuple items => .tuple (items.map (Register.map document))
  | .tagged name items => .tagged (document name) (items.map (Register.map document))
  | .struct name fields => .struct (document name)
      (fields.map fun field => (document field.1, field.2.map document))

mutual

/-- An instruction with its documents and constants changed. -/
def Instruction.map (document : Json → Json) (constant : Literal → Literal) :
    Instruction → Instruction
  | .eval target expression => .eval (target.map document) (expression.map document constant)
  | .construct target constructable =>
    .construct (target.map document) (constructable.map document)
  | .constrict stream newStream length =>
    .constrict (stream.map document) (newStream.map document) (length.map document)
  | .wrapStream stream newStream transform arguments =>
    .wrapStream (stream.map document) (newStream.map document) transform
      (arguments.map (Register.map document))
  | .conditionalWrapStream condition prelude stream newStream transform arguments =>
    .conditionalWrapStream (condition.map document) (blockMap document constant prelude)
      (stream.map document) (newStream.map document) transform
      (arguments.map (Register.map document))
  | .decodeForeign target data foreign arguments =>
    .decodeForeign (target.map document) (data.map document) foreign
      (arguments.map (Register.map document))
  | .decodeReference target data typeName arguments =>
    .decodeReference (target.map document) (data.map document) (document typeName)
      (arguments.map (Register.map document))
  | .decodeEnumeration enumeration backing data target =>
    .decodeEnumeration (document enumeration) (document backing) (data.map document)
      (target.map document)
  | .decodePrimitive target data primitive =>
    .decodePrimitive (target.map document) (data.map document) (document primitive)
  | .decodeArray target data primitive length =>
    .decodeArray (target.map document) (data.map document) (document primitive)
      (length.map (Register.map document))
  | .loop target stop terminator output body =>
    .loop (target.map document) (stop.map (Register.map document))
      (terminator.map (Register.map document)) (output.map document)
      (blockMap document constant body)
  | .loopOutput output item => .loopOutput (output.map document) (item.map document)
  | .conditional target interior condition body =>
    .conditional (target.map document) (interior.map document) (condition.map document)
      (blockMap document constant body)

/-- The instructions of a block with their documents and constants changed. -/
def blockMap (document : Json → Json) (constant : Literal → Literal) :
    List Instruction → List Instruction
  | [] => []
  | instruction :: rest =>
    instruction.map document constant :: blockMap document constant rest

end

/-- A program with its documents and constants changed. -/
def Program.map (document : Json → Json) (constant : Literal → Literal) (program : Program) :
    Program where
  instructions := blockMap document constant program.instructions
  registerCount := document program.registerCount
  fields := program.fields.map fun field => (document field.1, field.2.map document)
  arguments := program.arguments.map (Register.map document)

/-- **A program without the cells of its list constants,** which say no more than that no two of the
lists are the same object. -/
def Program.unnumbered (program : Program) : Program :=
  program.map id Literal.unnumbered

/-! ### Two changes -/

section Twice

variable (document document' : Json → Json) (constant constant' : Literal → Literal)

theorem Register.map_map (register : Register) :
    (register.map document).map document' = register.map (document' ∘ document) := by
  cases register <;> rfl

theorem Register.map_comp :
    Register.map document' ∘ Register.map document = Register.map (document' ∘ document) :=
  funext (Register.map_map document document')

theorem Target.map_map (target : Target) :
    (target.map document).map document' = target.map (document' ∘ document) := by
  cases target <;> simp only [map, Register.map_map]

theorem Constructable.map_map (constructable : Constructable) :
    (constructable.map document).map document' = constructable.map (document' ∘ document) := by
  cases constructable <;> simp [map, Register.map_comp, Register.map_map]

mutual

theorem Expression.map_map : ∀ expression : Expression,
    (expression.map document constant).map document' constant' =
      expression.map (document' ∘ document) (constant' ∘ constant)
  | .field _ => rfl
  | .constant _ => rfl
  | .call function arguments => congrArg (Expression.call function) (expressionsMap_map arguments)

theorem expressionsMap_map : ∀ expressions : List Expression,
    expressionsMap document' constant' (expressionsMap document constant expressions) =
      expressionsMap (document' ∘ document) (constant' ∘ constant) expressions
  | [] => rfl
  | expression :: rest => congrArg₂ List.cons (expression.map_map) (expressionsMap_map rest)

end

mutual

/-- Two changes one after the other are one change. -/
theorem Instruction.map_map : ∀ instruction : Instruction,
    (instruction.map document constant).map document' constant' =
      instruction.map (document' ∘ document) (constant' ∘ constant)
  | .conditionalWrapStream _ prelude _ _ _ _ => by
    simp [Instruction.map, Register.map_map, Register.map_comp, Target.map_map,
      blockMap_map prelude]
  | .loop _ _ _ _ body => by
    simp [Instruction.map, Register.map_map, Register.map_comp, Target.map_map, blockMap_map body]
  | .conditional _ _ _ body => by
    simp [Instruction.map, Register.map_map, blockMap_map body]
  | .eval _ _ | .construct _ _ | .constrict _ _ _ | .wrapStream _ _ _ _ | .decodeForeign _ _ _ _
  | .decodeReference _ _ _ _ | .decodeEnumeration _ _ _ _ | .decodePrimitive _ _ _
  | .decodeArray _ _ _ _ | .loopOutput _ _ => by
    simp [Instruction.map, Register.map_map, Register.map_comp, Target.map_map,
      Constructable.map_map, Expression.map_map]

theorem blockMap_map : ∀ block : List Instruction,
    blockMap document' constant' (blockMap document constant block) =
      blockMap (document' ∘ document) (constant' ∘ constant) block
  | [] => rfl
  | instruction :: rest => congrArg₂ List.cons (instruction.map_map) (blockMap_map rest)

end

theorem Program.map_map (program : Program) :
    (program.map document constant).map document' constant' =
      program.map (document' ∘ document) (constant' ∘ constant) := by
  simp [map, blockMap_map, Register.map_map, Register.map_comp]

end Twice

/-! ### Documents of changed programs -/

/-- The entry of a constant: its bytes, or its document. -/
def constantEntry : Literal → String × Json
  | .bytes content => ("bytes", .string (Bytes.toHex content))
  | literal => ("value", literal.toJson)

theorem Expression.toJson_constant (literal : Literal) : (Expression.constant literal).toJson =
    .object [("type", .string "const"), constantEntry literal] := by
  cases literal <;> rfl

/-- A sameness of documents that goes by the same parts in the same places. -/
structure Json.Congruence (same : Json → Json → Prop) : Prop where
  refl : ∀ document, same document document
  array : ∀ {items others}, List.Forall₂ same items others → same (.array items) (.array others)
  object : ∀ {entries others : List (String × Json)},
    List.Forall₂ (fun entry other => entry.1 = other.1 ∧ same entry.2 other.2) entries others →
      same (.object entries) (.object others)

/-- A change of documents and constants that a sameness of documents does not see. -/
structure Json.Unseen (same : Json → Json → Prop) (document : Json → Json)
    (constant : Literal → Literal) : Prop extends Json.Congruence same where
  document : ∀ written, same (document written) written
  constant : ∀ literal, (constantEntry (constant literal)).1 = (constantEntry literal).1 ∧
    same (constantEntry (constant literal)).2 (constantEntry literal).2

namespace Json.Unseen

variable {same : Json → Json → Prop} {document : Json → Json} {constant : Literal → Literal}

theorem register (unseen : Unseen same document constant) (register : Register) :
    same (register.map document).toJson register.toJson := by
  cases register with
  | index value => exact unseen.refl _
  | literal written => exact unseen.document written

theorem registers (unseen : Unseen same document constant) (registers : List Register) :
    same (registersToJson (registers.map (Register.map document))) (registersToJson registers) := by
  refine unseen.array ?_
  rw [List.map_map, List.forall₂_map_left_iff, List.forall₂_map_right_iff]
  exact List.forall₂_same.mpr fun register _ => unseen.register register

theorem target (unseen : Unseen same document constant) (target : Target) :
    same (target.map document).toJson target.toJson := by
  cases target with
  | direct => exact unseen.refl _
  | stream register =>
    exact unseen.object (.cons ⟨rfl, unseen.refl _⟩ (.cons ⟨rfl, unseen.register register⟩ .nil))
  | buffer register =>
    exact unseen.object (.cons ⟨rfl, unseen.refl _⟩ (.cons ⟨rfl, unseen.register register⟩ .nil))

theorem optional (unseen : Unseen same document constant) (key : String)
    (register : Option Register) :
    List.Forall₂ (fun entry other : String × Json => entry.1 = other.1 ∧ same entry.2 other.2)
      (optionalEntry key (register.map (Register.map document))) (optionalEntry key register) := by
  cases register with
  | none => exact .nil
  | some register => exact .cons ⟨rfl, unseen.register register⟩ .nil

theorem constructable (unseen : Unseen same document constant) (constructable : Constructable) :
    same (constructable.map document).toJson constructable.toJson := by
  cases constructable with
  | tuple items =>
    exact unseen.object (.cons ⟨rfl, unseen.refl _⟩ (.cons ⟨rfl, unseen.registers items⟩ .nil))
  | tagged name items =>
    exact unseen.object (.cons ⟨rfl, unseen.refl _⟩ (.cons ⟨rfl, unseen.document name⟩
      (.cons ⟨rfl, unseen.registers items⟩ .nil)))
  | struct name fields =>
    refine unseen.object (.cons ⟨rfl, unseen.refl _⟩ (.cons ⟨rfl, unseen.document name⟩
      (.cons ⟨rfl, unseen.array ?_⟩ .nil)))
    rw [List.map_map, List.forall₂_map_left_iff, List.forall₂_map_right_iff]
    exact List.forall₂_same.mpr fun field _ => unseen.array (.cons (unseen.document field.1)
      (.cons (unseen.register field.2) .nil))

mutual

theorem expression (unseen : Unseen same document constant) : ∀ expression : Expression,
    same (expression.map document constant).toJson expression.toJson
  | .field name =>
    unseen.object (.cons ⟨rfl, unseen.refl _⟩ (.cons ⟨rfl, unseen.document name⟩ .nil))
  | .constant literal => by
    rw [Expression.map, Expression.toJson_constant, Expression.toJson_constant]
    exact unseen.object (.cons ⟨rfl, unseen.refl _⟩ (.cons (unseen.constant literal) .nil))
  | .call function arguments =>
    unseen.object (.cons ⟨rfl, unseen.refl _⟩ (.cons ⟨rfl, unseen.refl _⟩
      (.cons ⟨rfl, unseen.array (expressions unseen arguments)⟩ .nil)))

theorem expressions (unseen : Unseen same document constant) : ∀ expressions : List Expression,
    List.Forall₂ same (expressionsToJson (expressionsMap document constant expressions))
      (expressionsToJson expressions)
  | [] => .nil
  | first :: rest => .cons (expression unseen first) (expressions unseen rest)

end

mutual

theorem instruction (unseen : Unseen same document constant) : ∀ instruction : Instruction,
    same (instruction.map document constant).toJson instruction.toJson
  | .eval target expression =>
    unseen.object (.cons ⟨rfl, unseen.refl _⟩ (.cons ⟨rfl, unseen.register target⟩
      (.cons ⟨rfl, unseen.expression expression⟩ .nil)))
  | .construct target constructable =>
    unseen.object (.cons ⟨rfl, unseen.refl _⟩ (.cons ⟨rfl, unseen.register target⟩
      (.cons ⟨rfl, unseen.constructable constructable⟩ .nil)))
  | .constrict stream newStream length =>
    unseen.object (.cons ⟨rfl, unseen.refl _⟩ (.cons ⟨rfl, unseen.target stream⟩
      (.cons ⟨rfl, unseen.register newStream⟩ (.cons ⟨rfl, unseen.register length⟩ .nil))))
  | .wrapStream stream newStream _ arguments =>
    unseen.object (.cons ⟨rfl, unseen.refl _⟩ (.cons ⟨rfl, unseen.target stream⟩
      (.cons ⟨rfl, unseen.register newStream⟩ (.cons ⟨rfl, unseen.refl _⟩
        (.cons ⟨rfl, unseen.registers arguments⟩ .nil)))))
  | .conditionalWrapStream condition prelude stream newStream _ arguments =>
    unseen.object (.cons ⟨rfl, unseen.refl _⟩ (.cons ⟨rfl, unseen.register condition⟩
      (.cons ⟨rfl, unseen.array (block unseen prelude)⟩ (.cons ⟨rfl, unseen.target stream⟩
        (.cons ⟨rfl, unseen.register newStream⟩ (.cons ⟨rfl, unseen.refl _⟩
          (.cons ⟨rfl, unseen.registers arguments⟩ .nil)))))))
  | .decodeForeign target data _ arguments =>
    unseen.object (.cons ⟨rfl, unseen.refl _⟩ (.cons ⟨rfl, unseen.target target⟩
      (.cons ⟨rfl, unseen.register data⟩ (.cons ⟨rfl, unseen.refl _⟩
        (.cons ⟨rfl, unseen.registers arguments⟩ .nil)))))
  | .decodeReference target data typeName arguments =>
    unseen.object (.cons ⟨rfl, unseen.refl _⟩ (.cons ⟨rfl, unseen.target target⟩
      (.cons ⟨rfl, unseen.register data⟩ (.cons ⟨rfl, unseen.document typeName⟩
        (.cons ⟨rfl, unseen.registers arguments⟩ .nil)))))
  | .decodeEnumeration enumeration backing data target =>
    unseen.object (.cons ⟨rfl, unseen.refl _⟩ (.cons ⟨rfl, unseen.document enumeration⟩
      (.cons ⟨rfl, unseen.document backing⟩ (.cons ⟨rfl, unseen.register data⟩
        (.cons ⟨rfl, unseen.target target⟩ .nil)))))
  | .decodePrimitive target data primitive =>
    unseen.object (.cons ⟨rfl, unseen.refl _⟩ (.cons ⟨rfl, unseen.target target⟩
      (.cons ⟨rfl, unseen.register data⟩ (.cons ⟨rfl, unseen.document primitive⟩ .nil))))
  | .decodeArray target data primitive length =>
    unseen.object (.cons ⟨rfl, unseen.refl _⟩ (.cons ⟨rfl, unseen.target target⟩
      (.cons ⟨rfl, unseen.register data⟩ (.cons ⟨rfl, unseen.document primitive⟩
        (unseen.optional "length" length)))))
  | .loop target stop terminator output body =>
    unseen.object (List.rel_append (List.rel_append (.cons ⟨rfl, unseen.refl _⟩
      (.cons ⟨rfl, unseen.target target⟩ (.cons ⟨rfl, unseen.register output⟩
        (.cons ⟨rfl, unseen.array (block unseen body)⟩ .nil)))) (unseen.optional "stop" stop))
          (unseen.optional "terminator" terminator))
  | .loopOutput output item =>
    unseen.object (.cons ⟨rfl, unseen.refl _⟩ (.cons ⟨rfl, unseen.register output⟩
      (.cons ⟨rfl, unseen.register item⟩ .nil)))
  | .conditional target interior condition body =>
    unseen.object (.cons ⟨rfl, unseen.refl _⟩ (.cons ⟨rfl, unseen.register target⟩
      (.cons ⟨rfl, unseen.register interior⟩ (.cons ⟨rfl, unseen.register condition⟩
        (.cons ⟨rfl, unseen.array (block unseen body)⟩ .nil)))))

theorem block (unseen : Unseen same document constant) : ∀ block : List Instruction,
    List.Forall₂ same (blockToJson (blockMap document constant block)) (blockToJson block)
  | [] => .nil
  | first :: rest => .cons (instruction unseen first) (block unseen rest)

end

end Json.Unseen

/-! ### Documents without cells -/

theorem Json.congruence_eq : Json.Congruence Eq where
  refl _ := rfl
  array all := congrArg Json.array (List.forall₂_eq_eq_eq ▸ all)
  object all := by
    refine congrArg Json.object ?_
    induction all with
    | nil => rfl
    | cons here _ others => exact congrArg₂ List.cons (Prod.ext here.1 here.2) others

/-- The document of a constant does not show its cells. -/
theorem Json.unseen_unnumbered : Json.Unseen Eq id Literal.unnumbered where
  toCongruence := Json.congruence_eq
  document _ := rfl
  constant literal := by
    cases literal with
    | list cell items => exact ⟨rfl, (Literal.list cell items).toJson_unnumbered⟩
    | dict entries => exact ⟨rfl, (Literal.dict entries).toJson_unnumbered⟩
    | _ => exact ⟨rfl, rfl⟩

theorem Register.map_id (register : Register) : register.map id = register := by
  cases register <;> rfl

theorem Register.map_id_eq_id : Register.map id = id :=
  funext Register.map_id

/-- **The document of a program** does not show the cells of its list constants. -/
theorem Program.toJsonWith_unnumbered (program : Program) (arrange : Json → Json) (fields : Json) :
    program.unnumbered.toJsonWith arrange fields = program.toJsonWith arrange fields := by
  have block : blockToJson program.unnumbered.instructions = blockToJson program.instructions :=
    List.forall₂_eq_eq_eq ▸ Json.unseen_unnumbered.block program.instructions
  unfold toJsonWith
  rw [block]
  simp [unnumbered, map, Register.map_id_eq_id]

theorem Program.fields_unnumbered (program : Program) :
    program.unnumbered.fields = program.fields := by
  simp [unnumbered, map, Register.map_id]

theorem Program.toJson_unnumbered (program : Program) :
    program.unnumbered.toJson = program.toJson := by
  unfold toJson
  rw [toJsonWith_unnumbered, fields_unnumbered]

theorem Program.toObject_unnumbered (program : Program) :
    program.unnumbered.toObject = program.toObject := by
  unfold toObject
  rw [fields_unnumbered]
  exact congrArg (fun act => (fieldsToObject id program.fields).map act)
    (funext (program.toJsonWith_unnumbered id))

end WireProgram
