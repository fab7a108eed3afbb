/-
**Programs that documents hold.**

What a document holds has a shape of its own: a register that is a number is no other document, and
a name of a capability resolves to the capability itself. Beside that stands a property of documents
that passes on to their parts. The main definitions and statements:

* `Json.Hereditary`, the properties that pass on to parts;
* `Instruction.Written` and `Program.Written`, the programs that documents with a property hold;
* `Program.ofJson_written`, every program that is read is one of them.
-/

import WireProgram.Proofs.Document.Order
import WireProgram.Proofs.Document.Reading
import WireProgram.Proofs.Reach

namespace WireProgram

/-! ### Parts of documents -/

/-- A property of documents that passes on to their parts. Strings have it, and so does what is
empty. -/
structure Json.Hereditary (good : Json → Prop) : Prop where
  string : ∀ text, good (.string text)
  noItems : good (.array [])
  noEntries : good (.object [])
  items : ∀ {items}, good (.array items) → ∀ item ∈ items, good item
  entries : ∀ {entries}, good (.object entries) → ∀ entry ∈ entries, good entry.2

theorem Json.Hereditary.any : Json.Hereditary fun _ => True :=
  ⟨fun _ => trivial, trivial, trivial, fun _ _ _ => trivial, fun _ _ _ => trivial⟩

/-- Any result, as one without a condition on it. -/
theorem Ends.any {α : Type} (result : Except Fault α) : Ends result (fun _ => True) fun _ => True :=
  .of_ok fun _ _ => trivial

namespace Json.Hereditary

variable {good : Json → Prop} {document : Json}

theorem get? (hereditary : Hereditary good) (holds : good document) {key : String} {value : Json}
    (found : document.get? key = some value) : good value := by
  cases document with
  | object entries =>
    have looked : entries.lookup key = some value := found
    exact hereditary.entries holds _ (mem_of_lookup looked)
  | _ => cases found

theorem require (hereditary : Hereditary good) (holds : good document) (key : String) :
    Ends (document.require key) good fun _ => True := by
  unfold Json.require
  split
  · split
    · exact hereditary.get? holds ‹_›
    · trivial
  · trivial

theorem requireElements (hereditary : Hereditary good) (holds : good document) :
    Ends document.requireElements (fun items => ∀ item ∈ items, good item) fun _ => True := by
  refine .of_ok fun items same => ?_
  unfold Json.requireElements at same
  cases document with
  | array _ =>
    cases same
    exact hereditary.items holds
  | string text =>
    cases same
    intro item member
    obtain ⟨character, -, rfl⟩ := List.mem_map.mp member
    exact hereditary.string _
  | object entries =>
    cases same
    intro item member
    obtain ⟨entry, -, rfl⟩ := List.mem_map.mp member
    exact hereditary.string _
  | _ => cases same

end Json.Hereditary

section Good

variable (good : Json → Prop)

/-! ### Registers -/

/-- A register as a document writes it: a number is no other document. -/
def Register.Written (register : Register) : Prop :=
  (∀ value, register ≠ .literal (.int value)) ∧ good register.toJson

/-- A register that may be left out, but not written as nothing. -/
def Register.WrittenIfAny (register : Option Register) : Prop :=
  ∀ found, register = some found → found.Written good ∧ found.toJson ≠ .null

/-- A target over a register that a document can hold. -/
def Target.Written : Target → Prop
  | .direct => True
  | .stream register | .buffer register => register.Written good

/-! ### Expressions -/

/-- A constant that a document can hold: bytes, or one without bytes inside. -/
def Literal.Written (literal : Literal) : Prop :=
  (∃ content, literal = .bytes content) ∨
    ∃ document, literal.unnumbered = .ofJson document ∧ good document

mutual

/-- An expression that a document can hold: its functions resolve. -/
def Expression.Written (resolver : Resolver) : Expression → Prop
  | .field name => good name
  | .constant literal => literal.Written good
  | .call function arguments =>
    resolver.requireFunction function.name = .ok function ∧ expressionsWritten resolver arguments

/-- Expressions that documents can hold. -/
def expressionsWritten (resolver : Resolver) : List Expression → Prop
  | [] => True
  | expression :: rest => expression.Written resolver ∧ expressionsWritten resolver rest

end

/-! ### Instructions -/

/-- A constructable that a document can hold. -/
def Constructable.Written : Constructable → Prop
  | .tuple items => ∀ register ∈ items, register.Written good
  | .tagged name items => good name ∧ ∀ register ∈ items, register.Written good
  | .struct name fields => good name ∧ ∀ field ∈ fields, good field.1 ∧ field.2.Written good

/-- An instruction that a document can hold, apart from the instructions of its blocks. -/
def Instruction.Written (resolver : Resolver) : Instruction → Prop
  | .eval target expression => target.Written good ∧ expression.Written good resolver
  | .construct target constructable => target.Written good ∧ constructable.Written good
  | .constrict stream newStream length =>
    stream.Written good ∧ newStream.Written good ∧ length.Written good
  | .wrapStream stream newStream transform arguments =>
    stream.Written good ∧ newStream.Written good ∧
      resolver.requireTransform transform.name = .ok transform ∧
      ∀ register ∈ arguments, register.Written good
  | .conditionalWrapStream condition _ stream newStream transform arguments =>
    condition.Written good ∧ stream.Written good ∧ newStream.Written good ∧
      resolver.requireTransform transform.name = .ok transform ∧
      ∀ register ∈ arguments, register.Written good
  | .decodeForeign target data foreign arguments =>
    target.Written good ∧ data.Written good ∧ resolver.requireType foreign.name = .ok foreign ∧
      ∀ register ∈ arguments, register.Written good
  | .decodeReference target data typeName arguments =>
    target.Written good ∧ data.Written good ∧ good typeName ∧
      ∀ register ∈ arguments, register.Written good
  | .decodeEnumeration enumeration backing data target =>
    good enumeration ∧ good backing ∧ data.Written good ∧ target.Written good
  | .decodePrimitive target data primitive =>
    target.Written good ∧ data.Written good ∧ good primitive
  | .decodeArray target data primitive length =>
    target.Written good ∧ data.Written good ∧ good primitive ∧ Register.WrittenIfAny good length
  | .loop target stop terminator output _ =>
    target.Written good ∧ Register.WrittenIfAny good stop ∧
      Register.WrittenIfAny good terminator ∧ output.Written good
  | .loopOutput output item => output.Written good ∧ item.Written good
  | .conditional target interior condition _ =>
    target.Written good ∧ interior.Written good ∧ condition.Written good

/-- Instructions that documents can hold, with those of their blocks. -/
def blockWritten (resolver : Resolver) (block : List Instruction) : Prop :=
  ∀ part ∈ blockParts block, part.Written good resolver

/-! ### Programs -/

/-- Fields whose names address something, each something else. -/
def fieldsDistinct (fields : List (Json × Register)) : Prop :=
  (∀ field ∈ fields, ∃ slot, field.1.slot? = some slot) ∧
    (fields.map fun field => field.1.slot?).Nodup

/-- Fields that a document can hold: under strings, or else under names that differ. -/
def fieldsWritten (fields : List (Json × Register)) : Prop :=
  (∀ field ∈ fields, good field.1 ∧ field.2.Written good) ∧
    ((∀ field ∈ fields, ∃ name, field.1 = .string name) ∨ fieldsDistinct fields)

/-- A program that a document can hold. -/
structure Program.Written (resolver : Resolver) (program : Program) : Prop where
  block : blockWritten good resolver program.instructions
  registerCount : good program.registerCount
  fields : fieldsWritten good program.fields
  arguments : ∀ register ∈ program.arguments, register.Written good

end Good

/-! ### What is read -/

section Reads

variable {good : Json → Prop} {document : Json} {resolver : Resolver}

theorem Register.toJson_ofJson (document : Json) :
    (Register.ofJson document).toJson = document := by
  unfold ofJson
  split <;> rfl

theorem Register.ofJson_written (holds : good document) :
    (Register.ofJson document).Written good := by
  refine ⟨fun value same => ?_, (toJson_ofJson document).symm ▸ holds⟩
  unfold ofJson at same
  split at same
  · cases same
  · rename_i other
    exact other value (Register.literal.inj same)

theorem Register.ofJson_of_written {register : Register} (written : register.Written good) :
    Register.ofJson register.toJson = register := by
  cases register with
  | index value => rfl
  | literal document =>
    cases document with
    | int value => exact absurd rfl (written.1 value)
    | _ => rfl

variable (hereditary : Json.Hereditary good)

include hereditary

theorem readRegister_written (holds : good document) (key : String) :
    Ends (readRegister document key) (Register.Written good) fun _ => True :=
  (hereditary.require holds key).map fun _ => Register.ofJson_written

theorem readOptionalRegister_written (holds : good document) (key : String) :
    Register.WrittenIfAny good (readOptionalRegister document key) := by
  intro register same
  unfold readOptionalRegister at same
  split at same
  · cases same
  · cases same
  · rename_i value filled found
    cases same
    refine ⟨Register.ofJson_written (hereditary.get? holds found), ?_⟩
    rw [Register.toJson_ofJson]
    exact fun null => filled null

theorem readRegisters_written (holds : good document) :
    Ends (readRegisters document) (fun registers => ∀ register ∈ registers, register.Written good)
      fun _ => True := by
  refine (hereditary.requireElements holds).map fun items each register member => ?_
  obtain ⟨value, inside, rfl⟩ := List.mem_map.mp member
  exact Register.ofJson_written (each value inside)

theorem readArguments_written (holds : good document) (key : String) :
    Ends (readArguments document key)
      (fun registers => ∀ register ∈ registers, register.Written good) fun _ => True := by
  unfold readArguments
  split
  · exact nofun
  · exact readRegisters_written hereditary (hereditary.get? holds ‹_›)

theorem readTarget_written (holds : good document) :
    Ends (readTarget document) (Target.Written good) fun _ => True := by
  have register := readRegister_written hereditary holds "register"
  refine (Ends.any (document.require "type")).bind fun kind _ => ?_
  split
  · trivial
  · exact register.bind fun _ written => written
  · exact register.bind fun _ written => written
  · trivial

theorem readTargetAt_written (holds : good document) (key : String) :
    Ends (readTargetAt document key) (Target.Written good) fun _ => True :=
  (hereditary.require holds key).bind fun _ here => readTarget_written hereditary here

omit hereditary in
theorem expressionsWritten_of_forall {expressions : List Expression}
    (each : ∀ expression ∈ expressions, expression.Written good resolver) :
    expressionsWritten good resolver expressions := by
  induction expressions with
  | nil => trivial
  | cons expression rest hypothesis =>
    obtain ⟨here, others⟩ := List.forall_mem_cons.mp each
    exact ⟨here, hypothesis others⟩

omit hereditary in
theorem readBytes_bytes (document : Json) :
    Ends (readBytes document) (fun literal => ∃ content, literal = .bytes content)
      fun _ => True := by
  unfold readBytes
  split
  · split
    · exact ⟨_, rfl⟩
    · trivial
  · trivial

theorem readExpression_written (named : resolver.Named) (fuel : Nat) (holds : good document) :
    (readExpression resolver fuel document).Yields (Expression.Written good resolver) := by
  induction fuel generalizing document with
  | zero => exact .fail
  | succ fuel hypothesis =>
    refine .lift fun kind _ => ?_
    split
    · exact .lift fun name found => .pure ((hereditary.require holds _).ok found)
    · split
      · exact .lift fun literal read => .pure (.inl ((readBytes_bytes _).ok read))
      · exact .lift fun value found =>
          (readLiteral_succeeds value).yields.bind fun literal same =>
            .pure (.inr ⟨value, same, (hereditary.require holds _).ok found⟩)
    · refine .lift fun name _ => .lift fun function resolved => .lift fun args found =>
        .lift fun items same => ?_
      have each := (hereditary.requireElements ((hereditary.require holds _).ok found)).ok same
      exact (Reading.Yields.mapM fun item member => hypothesis (each item member)).bind
        fun _ each => .pure ⟨named.requireFunction resolved, expressionsWritten_of_forall each⟩
    · nofun

theorem readPair_written (holds : good document) :
    Ends (readPair document) (fun field => good field.1 ∧ field.2.Written good)
      fun _ => True := by
  refine (hereditary.requireElements holds).bind fun items each => ?_
  split
  · obtain ⟨name, others⟩ := List.forall_mem_cons.mp each
    exact ⟨name, Register.ofJson_written (others _ (List.mem_singleton_self _))⟩
  · trivial

theorem readConstructable_written (holds : good document) :
    Ends (readConstructable document) (Constructable.Written good) fun _ => True := by
  have require := hereditary.require holds
  refine (Ends.any (document.require "type")).bind fun kind _ => ?_
  split
  · exact (require "items").bind fun _ items =>
      (readRegisters_written hereditary items).bind fun _ written => written
  · exact (require "name").bind fun _ name => (require "items").bind fun _ items =>
      (readRegisters_written hereditary items).bind fun _ written => ⟨name, written⟩
  · exact (require "name").bind fun _ name => (require "fields").bind fun _ fields =>
      (hereditary.requireElements fields).bind fun _ each =>
        (Ends.mapM fun item member => readPair_written hereditary (each item member)).bind
          fun _ written => ⟨name, written.2⟩
  · trivial

omit hereditary in
theorem blockWritten_of_forall {block : List Instruction}
    (each : ∀ instruction ∈ block, blockWritten good resolver [instruction]) :
    blockWritten good resolver block := by
  induction block with
  | nil => exact fun part member => absurd member List.not_mem_nil
  | cons instruction rest hypothesis =>
    obtain ⟨here, others⟩ := List.forall_mem_cons.mp each
    intro part member
    rcases List.mem_append.mp member with member | member
    · exact here part (List.mem_append_left _ member)
    · exact hypothesis others part member

omit hereditary in
/-- An instruction without blocks. -/
theorem blockWritten_leaf {instruction : Instruction} (leaf : instruction.parts = [instruction])
    (written : instruction.Written good resolver) : blockWritten good resolver [instruction] := by
  intro part member
  rw [blockParts, leaf, blockParts, List.append_nil] at member
  rwa [List.mem_singleton.mp member]

omit hereditary in
/-- An instruction around a block. -/
theorem blockWritten_around {instruction : Instruction} {block : List Instruction}
    (around : instruction.parts = instruction :: blockParts block)
    (written : instruction.Written good resolver) (inside : blockWritten good resolver block) :
    blockWritten good resolver [instruction] := by
  intro part member
  rw [blockParts, around, blockParts, List.append_nil] at member
  rcases List.mem_cons.mp member with rfl | member
  · exact written
  · exact inside part member

/-- **Every instruction that is read** is one that a document can hold. -/
theorem readInstruction_written (named : resolver.Named) (fuel : Nat) (holds : good document) :
    (readInstruction resolver fuel document).Yields fun instruction =>
      blockWritten good resolver [instruction] := by
  induction fuel generalizing document with
  | zero => exact .fail
  | succ fuel hypothesis =>
    have leaf : ∀ {key value}, document.require key = .ok value → good value :=
      (hereditary.require holds _).ok
    have register : ∀ {key value}, readRegister document key = .ok value → value.Written good :=
      (readRegister_written hereditary holds _).ok
    have optional := readOptionalRegister_written hereditary holds
    have target : ∀ {key value}, readTargetAt document key = .ok value → value.Written good :=
      (readTargetAt_written hereditary holds _).ok
    have arguments : ∀ {values}, readArguments document "args" = .ok values →
        ∀ value ∈ values, value.Written good := (readArguments_written hereditary holds "args").ok
    have block : ∀ {items : Json}, good items → Reading.Yields
        (liftM items.requireElements >>= fun items => items.mapM (readInstruction resolver fuel))
        (blockWritten good resolver) := by
      refine fun fine => .lift fun items same => .mono (.mapM fun item member => ?_)
        fun _ => blockWritten_of_forall
      exact hypothesis ((hereditary.requireElements fine).ok same item member)
    refine .lift fun kind _ => ?_
    split
    · exact .lift fun _ one => .lift fun expression found =>
        (readExpression_written hereditary named _ (leaf found)).bind fun _ two =>
          .pure (blockWritten_leaf rfl ⟨register one, two⟩)
    · exact .lift fun _ one => .lift fun _ found => .lift fun _ two =>
        .pure (blockWritten_leaf rfl
          ⟨register one, (readConstructable_written hereditary (leaf found)).ok two⟩)
    · exact .lift fun _ one => .lift fun _ two => .lift fun _ three =>
        .pure (blockWritten_leaf rfl ⟨target one, register two, register three⟩)
    · exact .lift fun _ one => .lift fun _ two => .lift fun _ _ => .lift fun _ three =>
        .lift fun _ four => .pure (blockWritten_leaf rfl
          ⟨target one, register two, named.requireTransform three, arguments four⟩)
    · have prelude : good ((document.get? "prelude").getD (.array [])) := by
        cases found : document.get? "prelude" with
        | none => exact hereditary.noItems
        | some value => exact hereditary.get? holds found
      exact .lift fun _ one => (block prelude).bind fun _ inside =>
        .lift fun _ two => .lift fun _ three => .lift fun _ _ => .lift fun _ four =>
          .lift fun _ five => .pure (blockWritten_around rfl ⟨register one, target two,
            register three, named.requireTransform four, arguments five⟩ inside)
    · exact .lift fun _ one => .lift fun _ two => .lift fun _ _ => .lift fun _ three =>
        .lift fun _ four => .pure (blockWritten_leaf rfl
          ⟨target one, register two, named.requireType three, arguments four⟩)
    · exact .lift fun _ one => .lift fun _ two => .lift fun _ three => .lift fun _ four =>
        .pure (blockWritten_leaf rfl ⟨target one, register two, leaf three, arguments four⟩)
    · exact .lift fun _ one => .lift fun _ two => .lift fun _ three => .lift fun _ four =>
        .pure (blockWritten_leaf rfl ⟨leaf one, leaf two, register three, target four⟩)
    · exact .lift fun _ one => .lift fun _ two => .lift fun _ three =>
        .pure (blockWritten_leaf rfl ⟨target one, register two, leaf three⟩)
    · exact .lift fun _ one => .lift fun _ two => .lift fun _ three => .pure
        (blockWritten_leaf rfl ⟨target one, register two, leaf three, optional _⟩)
    · exact .lift fun _ one => .lift fun _ two => .lift fun _ found =>
        (block (leaf found)).bind fun _ inside => .pure (blockWritten_around rfl
          ⟨target one, optional _, optional _, register two⟩ inside)
    · exact .lift fun _ one => .lift fun _ two =>
        .pure (blockWritten_leaf rfl ⟨register one, register two⟩)
    · exact .lift fun _ one => .lift fun _ two => .lift fun _ three => .lift fun _ found =>
        (block (leaf found)).bind fun _ inside => .pure (blockWritten_around rfl
          ⟨register one, register two, register three⟩ inside)
    · nofun

omit hereditary in
theorem requireSlot_eq_ok {name : Json} {slot : Slot} (same : name.requireSlot = .ok slot) :
    name.slot? = some slot := by
  unfold Json.requireSlot at same
  split at same
  · cases same
    assumption
  · cases same

omit hereditary in
/-- Of several fields under one name one is left. -/
theorem mergeFields_written {fields : List (Json × Register)}
    (written : ∀ field ∈ fields, good field.1 ∧ field.2.Written good) :
    Ends (mergeFields fields) (fun fields =>
      (∀ field ∈ fields, good field.1 ∧ field.2.Written good) ∧ fieldsDistinct fields)
        fun _ => True := by
  have slotted : Ends (fields.mapM fun field => do return (← field.1.requireSlot, field))
      (fun slotted => slotted.length = fields.length ∧ ∀ entry ∈ slotted,
        entry.2.1.slot? = some entry.1 ∧ good entry.2.1 ∧ entry.2.2.Written good)
      fun _ => True := by
    refine Ends.mapM fun field member => ?_
    exact (Ends.of_ok fun slot same => same).bind fun slot same =>
      ⟨requireSlot_eq_ok same, written field member⟩
  refine slotted.bind fun slotted ⟨_, each⟩ => ?_
  -- The first name of a slot is one of that slot.
  have name : ∀ entry ∈ tableOf slotted,
      ((slotted.lookup entry.1).getD entry.2).1.slot? = some entry.1 ∧
        good ((slotted.lookup entry.1).getD entry.2).1 := by
    intro entry member
    cases found : slotted.lookup entry.1 with
    | none =>
      obtain ⟨slot, fine, -⟩ := each entry (mem_tableOf member)
      exact ⟨slot, fine⟩
    | some field =>
      obtain ⟨slot, fine, -⟩ := each _ (mem_of_lookup found)
      exact ⟨slot, fine⟩
  refine ⟨fun field member => ?_, fun field member => ?_, ?_⟩
  · obtain ⟨entry, inside, rfl⟩ := List.mem_map.mp member
    exact ⟨(name entry inside).2, (each entry (mem_tableOf inside)).2.2⟩
  · obtain ⟨entry, inside, rfl⟩ := List.mem_map.mp member
    exact ⟨entry.1, (name entry inside).1⟩
  · have slots : ((tableOf slotted).map fun entry =>
        (((slotted.lookup entry.1).getD entry.2).1, entry.2.2)).map (fun field => field.1.slot?) =
          ((tableOf slotted).map Prod.fst).map some := by
      rw [List.map_map, List.map_map]
      exact List.map_congr_left fun entry member => (name entry member).1
    rw [slots]
    exact (nodup_tableOf slotted).map fun _ _ same => Option.some.inj same

/-- Fields that were pairs. -/
theorem readPairs_written {items : List Json} (each : ∀ item ∈ items, good item) :
    Ends (items.mapM readField >>= mergeFields) (fun fields =>
      (∀ field ∈ fields, good field.1 ∧ field.2.Written good) ∧ fieldsDistinct fields)
        fun _ => True := by
  have fields : Ends (items.mapM readField) (fun fields => fields.length = items.length ∧
      ∀ field ∈ fields, good field.1 ∧ field.2.Written good) fun _ => True :=
    Ends.mapM fun item member =>
      (readPair_written hereditary (each item member)).bind fun field written =>
        (Ends.any field.1.requireSlot).bind fun _ _ => written
  exact fields.bind fun fields ⟨_, written⟩ => mergeFields_written written

theorem readFields_written (holds : good document) :
    Ends (readFields document) (fieldsWritten good) fun _ => True := by
  unfold readFields
  split
  · refine ⟨fun field member => ?_, .inl fun field member => ?_⟩
    · obtain ⟨entry, inside, rfl⟩ := List.mem_map.mp member
      exact ⟨hereditary.string _, Register.ofJson_written (hereditary.entries holds entry inside)⟩
    · obtain ⟨entry, -, rfl⟩ := List.mem_map.mp member
      exact ⟨entry.1, rfl⟩
  · exact (hereditary.requireElements holds).bind fun items each =>
      (readPairs_written hereditary each).mono (fun _ => And.imp_right .inr) fun _ _ => trivial

/-- The names of the fields that are read differ, if the keys of an object do. -/
theorem readFields_distinct (unique : ∀ {entries}, good (.object entries) →
    (entries.map Prod.fst).Nodup) (holds : good document) :
    Ends (readFields document) fieldsDistinct fun _ => True := by
  unfold readFields
  split
  · rename_i entries
    refine ⟨fun field member => ?_, ?_⟩
    · obtain ⟨entry, -, rfl⟩ := List.mem_map.mp member
      exact ⟨.word entry.1, rfl⟩
    · have slots : (entries.map fun entry => (Json.string entry.1,
          Register.ofJson entry.2)).map (fun field => field.1.slot?) =
            (entries.map Prod.fst).map (some ∘ Slot.word) := by
        rw [List.map_map, List.map_map]
        rfl
      rw [slots]
      exact (unique holds).map fun _ _ same => Slot.word.inj (Option.some.inj same)
  · exact (hereditary.requireElements holds).bind fun items each =>
      (readPairs_written hereditary each).mono (fun _ => And.right) fun _ _ => trivial

theorem fieldMap_good (holds : good document) :
    good ((document.get? "field_register_map").getD (.object [])) := by
  cases found : document.get? "field_register_map" with
  | none => exact hereditary.noEntries
  | some value => exact hereditary.get? holds found

/-- **Every program that is read** is one that a document can hold. -/
theorem Program.ofJson_written (named : resolver.Named) (holds : good document) :
    (Program.ofJson resolver document).Yields (Program.Written good resolver) := by
  have leaf : ∀ {key value}, document.require key = .ok value → good value :=
    (hereditary.require holds _).ok
  refine .lift fun block found => .lift fun items same => ?_
  have each := (hereditary.requireElements (leaf found)).ok same
  refine (Reading.Yields.mapM fun item member =>
    readInstruction_written hereditary named _ (each item member)).bind fun _ written => ?_
  have fields := fieldMap_good hereditary holds
  exact .lift fun _ count => .lift fun _ two => .lift fun _ three => .pure
    ⟨blockWritten_of_forall written, leaf count, (readFields_written hereditary fields).ok two,
      (readArguments_written hereditary holds _).ok three⟩

/-- The names of the fields of a program that is read differ, if the keys of objects do. -/
theorem Program.ofJson_distinct (unique : ∀ {entries}, good (.object entries) →
    (entries.map Prod.fst).Nodup) (holds : good document) :
    (Program.ofJson resolver document).Yields fun program => fieldsDistinct program.fields := by
  refine .lift fun _ _ => .lift fun items _ => ?_
  refine (show (items.mapM (readInstruction resolver (document.depth + 1))).Yields
    (fun _ => True) from fun _ _ _ _ => trivial).bind fun _ _ => ?_
  exact .lift fun _ _ => .lift fun _ two => .lift fun _ _ => .pure
    ((readFields_distinct hereditary unique (fieldMap_good hereditary holds)).ok two)

end Reads

end WireProgram
