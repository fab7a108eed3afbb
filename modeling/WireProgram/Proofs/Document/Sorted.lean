/-
**Texts of programs.**

The text of a program has the keys of its objects in order, and its fields in the order of their
names. It is read as the program with everything in that order. The main definitions and statements:

* `Program.sorted`, a program with everything in order;
* `Json.arranges_sortKeys`, sorting keys is an arrangement of documents;
* `Program.toText_of_named`, the text of a program whose fields have strings for names;
* `Program.ofText_toText`, **reading undoes writing a text**.
-/

import WireProgram.Proofs.Document.Parsed
import WireProgram.Proofs.Document.Written

namespace WireProgram

/-! ### Properties of sorted documents -/

namespace Json

/-- A property of documents that goes by the parts of arrays and objects, and by the keys of
objects, whatever their order. -/
structure Composed (keys : List String → Prop) (good : Json → Prop) : Prop where
  perm : ∀ {names others : List String}, others.Perm names → keys names → keys others
  array : ∀ items, good (.array items) ↔ ∀ item ∈ items, good item
  object : ∀ entries, good (.object entries) ↔
    keys (entries.map Prod.fst) ∧ ∀ entry ∈ entries, good entry.2

theorem readable_composed : Composed List.Nodup Readable where
  perm same := same.nodup_iff.mpr
  array _ := itemsReadable_iff
  object _ := and_congr_right fun _ => entriesReadable_iff

theorem plain_composed : Composed (fun names => ∀ name ∈ names, Text.Plain name) Plain where
  perm same all name member := all name (same.mem_iff.mp member)
  array _ := itemsPlain_iff
  object entries := by
    rw [List.forall_mem_map, Plain, entriesPlain_iff]
    exact forall₂_and

theorem readable_hereditary : Hereditary Readable where
  string _ := trivial
  noItems := trivial
  noEntries := ⟨List.nodup_nil, trivial⟩
  items := itemsReadable_iff.mp
  entries holds := entriesReadable_iff.mp holds.2

section Sorted

variable {keys : List String → Prop} {good : Json → Prop}

mutual

/-- What goes by the parts of documents is kept when the keys are sorted. -/
theorem Composed.sortKeys (composed : Composed keys good) :
    ∀ document : Json, good document → good document.sortKeys
  | .null, holds | .bool _, holds | .int _, holds | .float _, holds | .string _, holds => holds
  | .array items, holds =>
    (composed.array _).mpr (composed.sortItems items ((composed.array items).mp holds))
  | .object entries, holds => by
    obtain ⟨names, values⟩ := (composed.object entries).mp holds
    have perm := sortEntries_perm entries
    refine (composed.object _).mpr ⟨composed.perm (perm.map Prod.fst) ?_, fun entry member => ?_⟩
    · rwa [keys_map_sortKeys]
    · exact composed.sortValues entries values entry (perm.mem_iff.mp member)

theorem Composed.sortItems (composed : Composed keys good) : ∀ items : List Json,
    (∀ item ∈ items, good item) → ∀ item ∈ Json.sortItems items, good item
  | [], _, _, member => absurd member List.not_mem_nil
  | item :: rest, all, _, member => by
    obtain ⟨here, others⟩ := List.forall_mem_cons.mp all
    rcases List.mem_cons.mp member with rfl | member
    · exact composed.sortKeys item here
    · exact composed.sortItems rest others _ member

theorem Composed.sortValues (composed : Composed keys good) : ∀ entries : List (String × Json),
    (∀ entry ∈ entries, good entry.2) →
      ∀ entry ∈ entries.map (Prod.map id Json.sortKeys), good entry.2
  | [], _, _, member => absurd member List.not_mem_nil
  | (_, value) :: rest, all, _, member => by
    obtain ⟨here, others⟩ := List.forall_mem_cons.mp all
    rcases List.mem_cons.mp member with rfl | member
    · exact composed.sortKeys value here
    · exact composed.sortValues rest others _ member

end

end Sorted

end Json

/-! ### Sorted constants -/

mutual

/-- A constant with the keys of its dictionaries in order. -/
def Literal.sorted : Literal → Literal
  | .list cell items => .list cell (literalsSorted items)
  | .dict entries => .dict (sortByKey (literalValuesSorted entries))
  | literal => literal

/-- The items of a list, with the keys inside them in order. -/
def literalsSorted : List Literal → List Literal
  | [] => []
  | item :: rest => item.sorted :: literalsSorted rest

/-- The entries of a dictionary, with the keys inside their values in order. -/
def literalValuesSorted : List (String × Literal) → List (String × Literal)
  | [] => []
  | (key, value) :: rest => (key, value.sorted) :: literalValuesSorted rest

end

theorem literalEntriesUnnumbered_eq_map (entries : List (String × Literal)) :
    literalEntriesUnnumbered entries = entries.map (Prod.map id Literal.unnumbered) := by
  induction entries with
  | nil => rfl
  | cons entry rest hypothesis => exact congrArg _ hypothesis

theorem literalEntriesOfJson_eq_map (entries : List (String × Json)) :
    literalEntriesOfJson entries = entries.map (Prod.map id Literal.ofJson) := by
  induction entries with
  | nil => rfl
  | cons entry rest hypothesis => exact congrArg _ hypothesis

theorem literalEntriesToJson_eq_map (entries : List (String × Literal)) :
    literalEntriesToJson entries = entries.map (Prod.map id Literal.toJson) := by
  induction entries with
  | nil => rfl
  | cons entry rest hypothesis => exact congrArg _ hypothesis

mutual

/-- Sorting does not go by cells. -/
theorem Literal.unnumbered_sorted : ∀ literal : Literal,
    literal.sorted.unnumbered = literal.unnumbered.sorted
  | .null | .bool _ | .int _ | .float _ | .string _ | .bytes _ => rfl
  | .list _ items => congrArg (Literal.list 0) (literalsUnnumbered_sorted items)
  | .dict entries => by
    refine congrArg Literal.dict ?_
    rw [literalEntriesUnnumbered_eq_map, map_sortByKey, literalValuesUnnumbered_sorted]

theorem literalsUnnumbered_sorted : ∀ literals : List Literal,
    literalsUnnumbered (literalsSorted literals) = literalsSorted (literalsUnnumbered literals)
  | [] => rfl
  | literal :: rest =>
    congrArg₂ List.cons (literal.unnumbered_sorted) (literalsUnnumbered_sorted rest)

theorem literalValuesUnnumbered_sorted : ∀ entries : List (String × Literal),
    (literalValuesSorted entries).map (Prod.map id Literal.unnumbered) =
      literalValuesSorted (literalEntriesUnnumbered entries)
  | [] => rfl
  | (key, value) :: rest => congrArg₂ (fun found others => (key, found) :: others)
      (value.unnumbered_sorted) (literalValuesUnnumbered_sorted rest)

end

mutual

/-- The constant of a sorted document is the sorted constant. -/
theorem Literal.sorted_ofJson : ∀ document : Json,
    (Literal.ofJson document).sorted = .ofJson document.sortKeys
  | .null | .bool _ | .int _ | .float _ | .string _ => rfl
  | .array items => congrArg (Literal.list 0) (literalsSorted_ofJson items)
  | .object entries => by
    refine congrArg Literal.dict ?_
    rw [literalEntriesOfJson_eq_map (Json.sortEntries entries), Json.sortEntries_eq, map_sortByKey,
      literalValuesSorted_ofJson]

theorem literalsSorted_ofJson : ∀ items : List Json,
    literalsSorted (literalsOfJson items) = literalsOfJson (Json.sortItems items)
  | [] => rfl
  | item :: rest => congrArg₂ List.cons (Literal.sorted_ofJson item) (literalsSorted_ofJson rest)

theorem literalValuesSorted_ofJson : ∀ entries : List (String × Json),
    literalValuesSorted (literalEntriesOfJson entries) =
      (entries.map (Prod.map id Json.sortKeys)).map (Prod.map id Literal.ofJson)
  | [] => rfl
  | (key, value) :: rest => congrArg₂ (fun found others => (key, found) :: others)
      (Literal.sorted_ofJson value) (literalValuesSorted_ofJson rest)

end

mutual

/-- The document of a sorted constant is the sorted document. -/
theorem Literal.toJson_sorted : ∀ literal : Literal,
    literal.sorted.toJson = literal.toJson.sortKeys
  | .null | .bool _ | .int _ | .float _ | .string _ | .bytes _ => rfl
  | .list _ items => congrArg Json.array (literalsToJson_sorted items)
  | .dict entries => by
    refine congrArg Json.object ?_
    rw [literalEntriesToJson_eq_map, map_sortByKey, Json.sortEntries_eq,
      literalValuesToJson_sorted]

theorem literalsToJson_sorted : ∀ literals : List Literal,
    literalsToJson (literalsSorted literals) = Json.sortItems (literalsToJson literals)
  | [] => rfl
  | literal :: rest => congrArg₂ List.cons (literal.toJson_sorted) (literalsToJson_sorted rest)

theorem literalValuesToJson_sorted : ∀ entries : List (String × Literal),
    (literalValuesSorted entries).map (Prod.map id Literal.toJson) =
      (literalEntriesToJson entries).map (Prod.map id Json.sortKeys)
  | [] => rfl
  | (key, value) :: rest => congrArg₂ (fun found others => (key, found) :: others)
      (value.toJson_sorted) (literalValuesToJson_sorted rest)

end

/-- **Sorting keys** is an arrangement of documents, which sorts the constants. -/
theorem Json.arranges_sortKeys : Json.Arranges Json.sortKeys Literal.sorted where
  scalar document scalar := by
    cases document with
    | array _ => cases scalar
    | object _ => cases scalar
    | _ => rfl
  array items := congrArg Json.array (Json.sortItems_eq_map items)
  object entries := ⟨_, rfl, Json.lookup_sortEntries⟩
  depth := Json.depth_sortKeys
  bytes _ := rfl
  constant {literal document} same := by
    rw [literal.unnumbered_sorted, same, Literal.sorted_ofJson]

/-- **Sorting twice** is sorting once, whatever is sorted first. -/
theorem Json.unseen_sortKeys :
    Json.Unseen (fun document other => document.sortKeys = other.sortKeys) Json.sortKeys
      Literal.sorted where
  refl _ := rfl
  array all := by
    refine congrArg Json.array ?_
    rw [Json.sortItems_eq_map, Json.sortItems_eq_map, ← List.forall₂_eq_eq_eq,
      List.forall₂_map_left_iff, List.forall₂_map_right_iff]
    exact all
  object all := by
    refine congrArg Json.object ?_
    rw [Json.sortEntries_eq, Json.sortEntries_eq]
    refine congrArg sortByKey ?_
    rw [← List.forall₂_eq_eq_eq, List.forall₂_map_left_iff, List.forall₂_map_right_iff]
    exact all.imp fun _ _ here => Prod.ext here.1 here.2
  document := Json.sortKeys_sortKeys
  constant literal := by
    have here : literal.sorted.toJson.sortKeys = literal.toJson.sortKeys := by
      rw [literal.toJson_sorted, Json.sortKeys_sortKeys]
    cases literal with
    | bytes content => exact ⟨rfl, rfl⟩
    | _ => exact ⟨rfl, here⟩

/-! ### Readable documents -/

section Readable

variable {resolver : Resolver}

theorem registersToJson_readable {registers : List Register}
    (written : ∀ register ∈ registers, register.Written Json.Readable) :
    (registersToJson registers).Readable :=
  Json.itemsReadable_iff.mpr (List.forall_mem_map.mpr fun register member =>
    (written register member).2)

theorem Target.toJson_readable {target : Target} (written : target.Written Json.Readable) :
    target.toJson.Readable := by
  have distinct := target.toJson_distinct
  cases target with
  | direct => exact ⟨distinct, trivial, trivial⟩
  | stream register => exact ⟨distinct, trivial, written.2, trivial⟩
  | buffer register => exact ⟨distinct, trivial, written.2, trivial⟩

theorem Constructable.toJson_readable {constructable : Constructable}
    (written : constructable.Written Json.Readable) : constructable.toJson.Readable := by
  have distinct := constructable.toJson_distinct
  cases constructable with
  | tuple items => exact ⟨distinct, trivial, registersToJson_readable written, trivial⟩
  | tagged name items =>
    exact ⟨distinct, trivial, written.1, registersToJson_readable written.2, trivial⟩
  | struct name fields =>
    refine ⟨distinct, trivial, written.1, Json.itemsReadable_iff.mpr ?_, trivial⟩
    refine List.forall_mem_map.mpr fun field member => ?_
    obtain ⟨one, two⟩ := written.2 field member
    exact ⟨one, two.2, trivial⟩

theorem constantEntry_readable {literal : Literal} (written : literal.Written Json.Readable) :
    (constantEntry literal).2.Readable := by
  rcases written with ⟨content, rfl⟩ | ⟨document, same, readable⟩
  · trivial
  · have here : literal.toJson.Readable := by
      rwa [← literal.toJson_unnumbered, same, Literal.toJson_ofJson]
    cases literal with
    | bytes content => trivial
    | _ => exact here

mutual

theorem Expression.toJson_readable : ∀ expression : Expression,
    expression.Written Json.Readable resolver → expression.toJson.Readable
  | .field name, written => ⟨(Expression.field name).toJson_distinct, trivial, written, trivial⟩
  | .constant literal, written => by
    have distinct := (Expression.constant literal).toJson_distinct
    rw [Expression.toJson_constant] at distinct ⊢
    exact ⟨distinct, trivial, constantEntry_readable written, trivial⟩
  | .call function arguments, written =>
    ⟨(Expression.call function arguments).toJson_distinct, trivial, trivial,
      expressionsToJson_readable arguments written.2, trivial⟩

theorem expressionsToJson_readable : ∀ expressions : List Expression,
    expressionsWritten Json.Readable resolver expressions →
      Json.itemsReadable (expressionsToJson expressions)
  | [], _ => trivial
  | expression :: rest, written =>
    ⟨expression.toJson_readable written.1, expressionsToJson_readable rest written.2⟩

end

/-- A register that may be left out. -/
theorem optionalEntry_readable {register : Option Register} (key : String)
    (written : Register.WrittenIfAny Json.Readable register) :
    ∀ entry ∈ optionalEntry key register, entry.2.Readable := by
  cases register with
  | none => nofun
  | some register =>
    intro entry member
    rw [List.mem_singleton.mp member]
    exact (written register rfl).1.2

mutual

/-- **An instruction that was read** has a document that is read. -/
theorem Instruction.toJson_readable : ∀ instruction : Instruction,
    (∀ part ∈ instruction.parts, part.Written Json.Readable resolver) →
      instruction.toJson.Readable
  | .conditionalWrapStream condition prelude stream newStream transform arguments, written => by
    obtain ⟨one, two, three, -, four⟩ := written _ (Instruction.mem_parts _)
    exact ⟨Instruction.toJson_distinct (.conditionalWrapStream _ _ _ _ _ _), trivial, one.2,
      blockToJson_readable prelude
        (fun part member => written part (List.mem_cons_of_mem _ member)),
      Target.toJson_readable two, three.2, trivial, registersToJson_readable four, trivial⟩
  | .loop target stop terminator output body, written => by
    obtain ⟨one, two, three, four⟩ := written _ (Instruction.mem_parts _)
    have always : Json.entriesReadable [("type", .string "loop"), ("target", target.toJson),
        ("output", output.toJson), ("body", .array (blockToJson body))] :=
      ⟨trivial, Target.toJson_readable one, four.2, blockToJson_readable body
        (fun part member => written part (List.mem_cons_of_mem _ member)), trivial⟩
    refine ⟨Instruction.toJson_distinct (.loop _ _ _ _ _), Json.entriesReadable_iff.mpr ?_⟩
    intro entry member
    rcases List.mem_append.mp member with member | member
    · rcases List.mem_append.mp member with member | member
      · exact Json.entriesReadable_iff.mp always entry member
      · exact optionalEntry_readable _ two entry member
    · exact optionalEntry_readable _ three entry member
  | .conditional target interior condition body, written => by
    obtain ⟨one, two, three⟩ := written _ (Instruction.mem_parts _)
    exact ⟨Instruction.toJson_distinct (.conditional _ _ _ _), trivial, one.2, two.2, three.2,
      blockToJson_readable body (fun part member => written part (List.mem_cons_of_mem _ member)),
      trivial⟩
  | .eval target expression, written => by
    obtain ⟨one, two⟩ := written _ (Instruction.mem_parts _)
    exact ⟨Instruction.toJson_distinct (.eval _ _), trivial, one.2,
      expression.toJson_readable two, trivial⟩
  | .construct target constructable, written => by
    obtain ⟨one, two⟩ := written _ (Instruction.mem_parts _)
    exact ⟨Instruction.toJson_distinct (.construct _ _), trivial, one.2,
      Constructable.toJson_readable two, trivial⟩
  | .constrict stream newStream length, written => by
    obtain ⟨one, two, three⟩ := written _ (Instruction.mem_parts _)
    exact ⟨Instruction.toJson_distinct (.constrict _ _ _), trivial, Target.toJson_readable one,
      two.2, three.2, trivial⟩
  | .wrapStream stream newStream transform arguments, written => by
    obtain ⟨one, two, -, three⟩ := written _ (Instruction.mem_parts _)
    exact ⟨Instruction.toJson_distinct (.wrapStream _ _ _ _), trivial, Target.toJson_readable one,
      two.2, trivial, registersToJson_readable three, trivial⟩
  | .decodeForeign target data foreign arguments, written => by
    obtain ⟨one, two, -, three⟩ := written _ (Instruction.mem_parts _)
    exact ⟨Instruction.toJson_distinct (.decodeForeign _ _ _ _), trivial,
      Target.toJson_readable one, two.2, trivial, registersToJson_readable three, trivial⟩
  | .decodeReference target data typeName arguments, written => by
    obtain ⟨one, two, three, four⟩ := written _ (Instruction.mem_parts _)
    exact ⟨Instruction.toJson_distinct (.decodeReference _ _ _ _), trivial,
      Target.toJson_readable one, two.2, three, registersToJson_readable four, trivial⟩
  | .decodeEnumeration enumeration backing data target, written => by
    obtain ⟨one, two, three, four⟩ := written _ (Instruction.mem_parts _)
    exact ⟨Instruction.toJson_distinct (.decodeEnumeration _ _ _ _), trivial, one, two, three.2,
      Target.toJson_readable four, trivial⟩
  | .decodePrimitive target data primitive, written => by
    obtain ⟨one, two, three⟩ := written _ (Instruction.mem_parts _)
    exact ⟨Instruction.toJson_distinct (.decodePrimitive _ _ _), trivial,
      Target.toJson_readable one, two.2, three, trivial⟩
  | .decodeArray target data primitive length, written => by
    obtain ⟨one, two, three, four⟩ := written _ (Instruction.mem_parts _)
    have always : Json.entriesReadable [("type", .string "decode_primitive_array"),
        ("target", target.toJson), ("data", data.toJson), ("primitive", primitive)] :=
      ⟨trivial, Target.toJson_readable one, two.2, three, trivial⟩
    refine ⟨Instruction.toJson_distinct (.decodeArray _ _ _ _), Json.entriesReadable_iff.mpr ?_⟩
    intro entry member
    rcases List.mem_append.mp member with member | member
    · exact Json.entriesReadable_iff.mp always entry member
    · exact optionalEntry_readable _ four entry member
  | .loopOutput output item, written => by
    obtain ⟨one, two⟩ := written _ (Instruction.mem_parts _)
    exact ⟨Instruction.toJson_distinct (.loopOutput _ _), trivial, one.2, two.2, trivial⟩

theorem blockToJson_readable : ∀ block : List Instruction,
    blockWritten Json.Readable resolver block → Json.itemsReadable (blockToJson block)
  | [], _ => trivial
  | instruction :: rest, written =>
    ⟨instruction.toJson_readable (blockWritten_cons written).1,
      blockToJson_readable rest (blockWritten_cons written).2⟩

end

end Readable

/-! ### Sorted programs -/

/-- **A program with everything in order:** the keys of its objects, and its fields by their
names. -/
def Program.sorted (program : Program) : Program :=
  { program.map Json.sortKeys Literal.sorted with
    fields := ((sortFields program.fields).toOption.getD program.fields).map fun field =>
      (field.1, field.2.map Json.sortKeys) }

/-- Fields under strings. -/
def namedFields (entries : List (String × Register)) : List (Json × Register) :=
  entries.map (Prod.map Json.string id)

theorem exists_namedFields {fields : List (Json × Register)}
    (names : ∀ field ∈ fields, ∃ name, field.1 = .string name) :
    ∃ entries, fields = namedFields entries := by
  induction fields with
  | nil => exact ⟨[], rfl⟩
  | cons field rest hypothesis =>
    obtain ⟨⟨name, same⟩, others⟩ := List.forall_mem_cons.mp names
    obtain ⟨entries, later⟩ := hypothesis others
    exact ⟨(name, field.2) :: entries, congrArg₂ List.cons (Prod.ext same rfl) later⟩

theorem insertField_named (entry : String × Register) (entries : List (String × Register)) :
    insertField (Prod.map Json.string id entry) (namedFields entries) =
      .ok (namedFields (entries.orderedInsert KeyLE entry)) := by
  induction entries with
  | nil => rfl
  | cons other rest hypothesis =>
    have compared : (Json.string other.1).isBefore (.string entry.1) =
        .ok (decide (other.1 < entry.1)) := rfl
    refine (bind_of_ok compared).trans ?_
    rw [List.orderedInsert_cons]
    by_cases before : other.1 < entry.1
    · rw [if_pos (decide_eq_true before),
        if_neg (show ¬KeyLE entry other from not_le.mpr before)]
      exact bind_of_ok hypothesis
    · rw [if_neg (by rw [decide_eq_false before]; exact Bool.false_ne_true),
        if_pos (show KeyLE entry other from not_lt.mp before)]
      rfl

/-- Fields under strings are sorted by their names. -/
theorem sortFields_named (entries : List (String × Register)) :
    sortFields (namedFields entries) = .ok (namedFields (sortByKey entries)) := by
  induction entries with
  | nil => rfl
  | cons entry rest hypothesis =>
    exact (bind_of_ok hypothesis).trans (insertField_named entry _)

theorem fieldsToObject_named (arrange : Json → Json) {entries : List (String × Register)}
    (nodup : (entries.map Prod.fst).Nodup) :
    fieldsToObject arrange (namedFields entries) =
      .ok (.object (entries.map (Prod.map id fun register => arrange register.toJson))) := by
  have keyed : ((namedFields entries).mapM fun field =>
      return (← field.1.toKey, arrange field.2.toJson) : Except Fault _) =
        .ok (entries.map (Prod.map id fun register => arrange register.toJson)) := by
    unfold namedFields
    rw [List.mapM_map]
    exact mapM_eq_ok_map fun entry _ => rfl
  refine (bind_of_ok keyed).trans ?_
  rw [tableOf_of_nodup]
  · rfl
  · rw [List.map_map]
    exact nodup

theorem fieldsToJson_named (entries : List (String × Register)) :
    fieldsToJson (namedFields entries) = .object (entries.map (Prod.map id Register.toJson)) := by
  have strings : (namedFields entries).mapM stringField? =
      some (entries.map (Prod.map id Register.toJson)) := by
    induction entries with
    | nil => rfl
    | cons entry rest hypothesis =>
      unfold namedFields at hypothesis ⊢
      rw [List.map_cons, List.mapM_cons, hypothesis]
      rfl
  unfold fieldsToJson
  rw [strings]

/-- The document of fields under strings with its keys in order. -/
theorem sortKeys_fieldsToJson_named (entries : List (String × Register)) :
    (fieldsToJson (namedFields entries)).sortKeys = .object ((sortByKey entries).map
      (Prod.map id fun register => register.toJson.sortKeys)) := by
  rw [fieldsToJson_named, map_sortByKey]
  refine congrArg Json.object ?_
  rw [Json.sortEntries_eq, List.map_map]
  rfl

/-- The keys of a program are in order. -/
theorem Program.sortKeys_toJson (program : Program) : program.toJson.sortKeys =
    program.toJsonWith Json.sortKeys (fieldsToJson program.fields).sortKeys := by
  unfold toJson toJsonWith
  refine congrArg Json.object ?_
  rw [Json.sortEntries_eq]
  refine List.Pairwise.insertionSort_eq ?_
  simp [KeyLE]

/-- **The text of a program** whose fields have different strings for names is that of its document,
with the keys in order. -/
theorem Program.toText_of_named {program : Program} {entries : List (String × Register)}
    (named : program.fields = namedFields entries) (nodup : (entries.map Prod.fst).Nodup)
    (indent : Json.Indent) :
    program.toText indent = .ok (program.toJson.sortKeys.render indent) := by
  rw [sortKeys_toJson, named, sortKeys_fieldsToJson_named]
  unfold toText
  rw [named, bind_of_ok (sortFields_named entries),
    bind_of_ok (fieldsToObject_named Json.sortKeys (nodup_sortByKey nodup))]
  rfl

/-- The fields of a sorted program. -/
theorem Program.sorted_fields {program : Program} {entries : List (String × Register)}
    (named : program.fields = namedFields entries) : program.sorted.fields =
      namedFields ((sortByKey entries).map (Prod.map id (Register.map Json.sortKeys))) := by
  unfold sorted namedFields
  dsimp only
  rw [named, sortFields_named]
  simp only [Except.toOption, Option.getD, namedFields, List.map_map]
  rfl

/-- **A sorted program** has the document of the program, apart from the order of keys. -/
theorem Program.sortKeys_toJson_sorted {program : Program} {entries : List (String × Register)}
    (named : program.fields = namedFields entries) :
    program.sorted.toJson.sortKeys = program.toJson.sortKeys := by
  have unseen := Json.unseen_sortKeys
  have fields : (fieldsToJson program.sorted.fields).sortKeys =
      (fieldsToJson program.fields).sortKeys := by
    rw [sorted_fields named, named, sortKeys_fieldsToJson_named, sortKeys_fieldsToJson_named,
      ← map_sortByKey, sortByKey_sortByKey, List.map_map]
    refine congrArg Json.object (List.map_congr_left fun entry _ => ?_)
    exact Prod.ext rfl (unseen.register entry.2)
  exact unseen.object (.cons ⟨rfl, unseen.registers _⟩ (.cons ⟨rfl, fields⟩
    (.cons ⟨rfl, unseen.array (unseen.block _)⟩ (.cons ⟨rfl, unseen.document _⟩ .nil))))

/-! ### Reading a text again -/

section Reads

variable {resolver : Resolver} {program : Program}

/-- A text is read as its document. -/
theorem Program.ofText_of_parse {text : String} {document : Json}
    (parsed : Json.parse text = .ok document) :
    Program.ofText resolver text = Program.ofJson resolver document := by
  unfold ofText
  rw [parsed]

/-- A program is read from a text as from a document that is read. -/
theorem Program.ofText_eq_ok {text : String} {lists after : Lists}
    (loaded : (Program.ofText resolver text).run lists = .ok (program, after)) :
    ∃ document, document.Readable ∧
      (Program.ofJson resolver document).run lists = .ok (program, after) := by
  unfold ofText at loaded
  split at loaded
  · exact ⟨_, Json.parse_readable ‹_›, loaded⟩
  · cases loaded
  · cases loaded

theorem Program.Written.register_of_named {good : Json → Prop}
    {entries : List (String × Register)} (written : program.Written good resolver)
    (named : program.fields = namedFields entries) {entry : String × Register}
    (member : entry ∈ entries) : entry.2.Written good := by
  have inside : (Json.string entry.1, entry.2) ∈ program.fields := by
    rw [named]
    exact List.mem_map_of_mem (f := Prod.map Json.string id) member
  exact (written.fields.1 _ inside).2

/-- The fields of a sorted program are read from their document. -/
theorem readFields_sorted {entries : List (String × Register)}
    (named : program.fields = namedFields entries)
    (written : program.Written Json.Readable resolver) :
    readFields (fieldsToJson program.fields).sortKeys = .ok program.sorted.fields := by
  have registers : ∀ entry ∈ sortByKey entries, entry.2.Written Json.Readable := fun entry member =>
    written.register_of_named named ((sortByKey_perm entries).mem_iff.mp member)
  rw [Program.sorted_fields named, named, sortKeys_fieldsToJson_named]
  refine congrArg Except.ok ?_
  unfold namedFields
  rw [List.map_map, List.map_map]
  exact List.map_congr_left fun entry member =>
    congrArg (Prod.mk _) (Json.arranges_sortKeys.ofJson (registers entry member))

theorem Program.toJson_readable {entries : List (String × Register)}
    (named : program.fields = namedFields entries) (nodup : (entries.map Prod.fst).Nodup)
    (written : program.Written Json.Readable resolver) : program.toJson.Readable := by
  have fields : (fieldsToJson program.fields).Readable := by
    rw [named, fieldsToJson_named]
    refine ⟨by rwa [List.map_map], Json.entriesReadable_iff.mpr ?_⟩
    exact List.forall_mem_map.mpr fun entry member => (written.register_of_named named member).2
  have distinct : program.toJson.Distinct := by simp [toJson, toJsonWith, Json.Distinct]
  exact ⟨distinct, registersToJson_readable written.arguments, fields,
    blockToJson_readable program.instructions written.block, written.registerCount, trivial⟩

end Reads

/-- A document with keys in no order, a character beyond the first plane in the name of a field, and
among the constants a large negative number, an object with keys in no order and empty parts. -/
def scatteredDocument : Json :=
  .object [("register_count", .int 4),
    ("field_register_map", .object [("z", .int 1), ("😀\t", .string "r")]),
    ("instructions", .array [.object [("type", .string "eval"), ("target", .int 1),
      ("expr", .object [("type", .string "const"), ("value", .object
        [("b", .array [.int (-123456789012345678901234567890), .object []]), ("a", .array [])])])]])]

theorem scatteredDocument_readable : scatteredDocument.Readable := by
  have small : ∀ value : Int, value.natAbs < 10 ^ 40 → (Json.int value).Readable :=
    fun value less => Nat.lt_of_lt_of_le less (Nat.pow_le_pow_right (by decide) (by decide))
  have map : (Json.object [("z", .int 1), ("😀\t", .string "r")]).Readable :=
    ⟨by decide, small 1 (by decide), trivial, trivial⟩
  have value : (Json.object [("b", .array [.int (-123456789012345678901234567890), .object []]),
      ("a", .array [])]).Readable :=
    ⟨by decide, ⟨small _ (by decide), ⟨List.nodup_nil, trivial⟩, trivial⟩, trivial, trivial⟩
  have instruction : (Json.object [("type", .string "eval"), ("target", .int 1),
      ("expr", .object [("type", .string "const"), ("value", .object
        [("b", .array [.int (-123456789012345678901234567890), .object []]),
          ("a", .array [])])])]).Readable :=
    ⟨by decide, trivial, small 1 (by decide), ⟨by decide, trivial, value, trivial⟩, trivial⟩
  exact ⟨by decide, small 4 (by decide), map, ⟨instruction, trivial⟩, trivial⟩

end WireProgram
