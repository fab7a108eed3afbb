/-
**What readers of documents give.**

A reader takes a document apart and makes lists. It may refuse the document. The main definitions
and statements:

* `Reading.Yields` and `Reading.Succeeds`, what a reader gives, if anything, and that it gives it;
* `Literal.unnumbered` and `Literal.ofJson`, constants without the cells of their lists;
* `readLiteral_succeeds`, every document is a constant;
* `Resolver.Named`, a resolver whose capabilities carry the names that they are resolved by.
-/

import WireProgram.Program.Printer
import WireProgram.Program.Reader
import WireProgram.Proofs.Outcome

namespace WireProgram

/-! ### Readers -/

/-- What a reader gives, if it gives anything. -/
def Reading.Yields {α : Type} (reading : Reading α) (good : α → Prop) : Prop :=
  ∀ lists value after, reading.run lists = .ok (value, after) → good value

/-- A reader that gives something, whatever lists there are. -/
def Reading.Succeeds {α : Type} (reading : Reading α) (good : α → Prop) : Prop :=
  ∀ lists, ∃ value after, reading.run lists = .ok (value, after) ∧ good value

namespace Reading

section Rules

variable {α β : Type} {first : Reading α} {next : α → Reading β} {result : Except Fault α}
  {fine : α → Prop} {good : β → Prop}

/-- What always succeeds gives nothing else. -/
theorem Succeeds.yields (succeeds : first.Succeeds fine) : first.Yields fine := by
  intro lists value after ran
  obtain ⟨other, last, ran', holds⟩ := succeeds lists
  cases ran.symm.trans ran'
  exact holds

theorem Yields.pure {value : α} (holds : fine value) : Yields (Pure.pure value) fine := by
  intro lists other after ran
  cases ran
  exact holds

theorem Yields.fail {fault : Fault} : Yields (throw fault : Reading α) fine := nofun

theorem Yields.bind (one : first.Yields fine)
    (two : ∀ value, fine value → (next value).Yields good) :
    (first >>= next).Yields good := by
  intro lists value after ran
  rw [StateT.run_bind] at ran
  cases same : first.run lists with
  | error fault =>
    rw [same] at ran
    cases ran
  | ok pair =>
    rw [same] at ran
    exact two pair.1 (one lists pair.1 pair.2 same) pair.2 value after ran

/-- A part without lists. -/
theorem Yields.lift (two : ∀ value, result = .ok value → (next value).Yields good) :
    Yields (liftM result >>= next) good := by
  cases result with
  | error fault => nofun
  | ok value => exact two value rfl

theorem Yields.mono {better : α → Prop} (one : first.Yields fine)
    (holds : ∀ value, fine value → better value) : first.Yields better :=
  fun lists value after ran => holds value (one lists value after ran)

/-- One value for each item. -/
theorem Yields.mapM {items : List β} {act : β → Reading α}
    (each : ∀ item ∈ items, (act item).Yields fine) :
    (items.mapM act).Yields fun values => ∀ value ∈ values, fine value := by
  induction items with
  | nil => exact .pure nofun
  | cons item items hypothesis =>
    obtain ⟨here, there⟩ := List.forall_mem_cons.mp each
    rw [List.mapM_cons]
    refine here.bind fun value holds => (hypothesis there).bind fun values others => .pure ?_
    exact List.forall_mem_cons.mpr ⟨holds, others⟩

theorem Succeeds.pure {value : α} (holds : fine value) : Succeeds (Pure.pure value) fine :=
  fun lists => ⟨value, lists, rfl, holds⟩

theorem Succeeds.bind (one : first.Succeeds fine)
    (two : ∀ value, fine value → (next value).Succeeds good) : (first >>= next).Succeeds good := by
  intro lists
  obtain ⟨value, middle, ran, holds⟩ := one lists
  obtain ⟨other, after, ran', holds'⟩ := two value holds middle
  refine ⟨other, after, ?_, holds'⟩
  rw [StateT.run_bind, ran]
  exact ran'

/-- A part without lists. -/
theorem Succeeds.lift {value : α} (same : result = .ok value) (two : (next value).Succeeds good) :
    Succeeds (liftM result >>= next) good := by
  rw [same]
  exact two

end Rules

end Reading

/-! ### Constants -/

mutual

/-- A constant without the cells of its lists. -/
def Literal.unnumbered : Literal → Literal
  | .list _ items => .list 0 (literalsUnnumbered items)
  | .dict entries => .dict (literalEntriesUnnumbered entries)
  | literal => literal

/-- The items of a list without cells. -/
def literalsUnnumbered : List Literal → List Literal
  | [] => []
  | item :: rest => item.unnumbered :: literalsUnnumbered rest

/-- The entries of a dictionary without cells. -/
def literalEntriesUnnumbered : List (String × Literal) → List (String × Literal)
  | [] => []
  | (key, value) :: rest => (key, value.unnumbered) :: literalEntriesUnnumbered rest

end

mutual

/-- The constant that a document stands for, without cells. -/
def Literal.ofJson : Json → Literal
  | .null => .null
  | .bool value => .bool value
  | .int value => .int value
  | .float value => .float value
  | .string value => .string value
  | .array items => .list 0 (literalsOfJson items)
  | .object entries => .dict (literalEntriesOfJson entries)

/-- The constants that the items of an array stand for. -/
def literalsOfJson : List Json → List Literal
  | [] => []
  | item :: rest => Literal.ofJson item :: literalsOfJson rest

/-- The constants that the values of an object stand for. -/
def literalEntriesOfJson : List (String × Json) → List (String × Literal)
  | [] => []
  | (key, value) :: rest => (key, Literal.ofJson value) :: literalEntriesOfJson rest

end

mutual

/-- A constant stands for its document. -/
theorem Literal.toJson_ofJson : ∀ document : Json, (Literal.ofJson document).toJson = document
  | .null | .bool _ | .int _ | .float _ | .string _ => rfl
  | .array items => congrArg Json.array (literalsToJson_ofJson items)
  | .object entries => congrArg Json.object (literalEntriesToJson_ofJson entries)

theorem literalsToJson_ofJson :
    ∀ items : List Json, literalsToJson (literalsOfJson items) = items
  | [] => rfl
  | item :: rest => congrArg₂ List.cons (Literal.toJson_ofJson item) (literalsToJson_ofJson rest)

theorem literalEntriesToJson_ofJson :
    ∀ entries : List (String × Json), literalEntriesToJson (literalEntriesOfJson entries) = entries
  | [] => rfl
  | (key, value) :: rest => congrArg₂ (fun found others => (key, found) :: others)
      (Literal.toJson_ofJson value) (literalEntriesToJson_ofJson rest)

end

mutual

/-- The document of a constant does not show its cells. -/
theorem Literal.toJson_unnumbered : ∀ literal : Literal, literal.unnumbered.toJson = literal.toJson
  | .null | .bool _ | .int _ | .float _ | .string _ | .bytes _ => rfl
  | .list _ items => congrArg Json.array (literalsToJson_unnumbered items)
  | .dict entries => congrArg Json.object (literalEntriesToJson_unnumbered entries)

theorem literalsToJson_unnumbered :
    ∀ items : List Literal, literalsToJson (literalsUnnumbered items) = literalsToJson items
  | [] => rfl
  | item :: rest =>
    congrArg₂ List.cons (Literal.toJson_unnumbered item) (literalsToJson_unnumbered rest)

theorem literalEntriesToJson_unnumbered : ∀ entries : List (String × Literal),
    literalEntriesToJson (literalEntriesUnnumbered entries) = literalEntriesToJson entries
  | [] => rfl
  | (key, value) :: rest => congrArg₂ (fun found others => (key, found) :: others)
      (Literal.toJson_unnumbered value) (literalEntriesToJson_unnumbered rest)

end

mutual

/-- **Every document is a constant.** -/
theorem readLiteral_succeeds : ∀ document : Json,
    (readLiteral document).Succeeds fun literal => literal.unnumbered = .ofJson document
  | .null | .bool _ | .int _ | .float _ | .string _ => .pure rfl
  | .array items => by
    refine (readLiterals_succeeds items).bind fun literals same lists => ?_
    exact ⟨_, _, rfl, congrArg (Literal.list 0) same⟩
  | .object entries =>
    (readLiteralEntries_succeeds entries).bind fun _ same => .pure (congrArg Literal.dict same)

theorem readLiterals_succeeds : ∀ items : List Json,
    (readLiterals items).Succeeds fun literals => literalsUnnumbered literals = literalsOfJson items
  | [] => .pure rfl
  | item :: rest => (readLiteral_succeeds item).bind fun _ same =>
      (readLiterals_succeeds rest).bind fun _ others => .pure (congrArg₂ List.cons same others)

theorem readLiteralEntries_succeeds : ∀ entries : List (String × Json),
    (readLiteralEntries entries).Succeeds fun literals =>
      literalEntriesUnnumbered literals = literalEntriesOfJson entries
  | [] => .pure rfl
  | (key, value) :: rest => (readLiteral_succeeds value).bind fun _ same =>
      (readLiteralEntries_succeeds rest).bind fun _ others =>
        .pure (congrArg₂ (fun found others => (key, found) :: others) same others)

end

/-! ### Names that resolve -/

/-- A resolver whose capabilities carry the names that they are resolved by. -/
structure Resolver.Named (resolver : Resolver) : Prop where
  transform : ∀ {name : String} {found : Transform}, resolver.transform? name = some found →
    found.name = name
  type : ∀ {name : String} {found : ForeignType}, resolver.type? name = some found →
    found.name = name
  function : ∀ {name : String} {found : Function}, resolver.function? name = some found →
    found.name = name

/-- Only a string is found in a table. -/
theorem findNamed_eq_some {α : Type} {table : String → Option α} {name : Json} {found : α}
    (same : findNamed table name = .ok (some found)) :
    ∃ text, name = .string text ∧ table text = some found := by
  cases name with
  | string text => exact ⟨text, rfl, Except.ok.inj same⟩
  | array _ => cases same
  | object _ => cases same
  | null => cases same
  | bool _ => cases same
  | int _ => cases same
  | float _ => cases same

section Titles

variable {α : Type} {table : String → Option α} {title : α → String} {missing : Json → Fault}

/-- A look-up that must be answered. -/
def mustFind (table : String → Option α) (missing : Json → Fault) (name : Json) :
    Except Fault α := do
  match ← findNamed table name with
  | some found => return found
  | none => throw (missing name)

/-- What was found under a name is found under its own title again. -/
theorem mustFind_title
    (named : ∀ {name : String} {found : α}, table name = some found → title found = name)
    {name : Json} {found : α} (same : mustFind table missing name = .ok found) :
    mustFind table missing (title found) = .ok found := by
  have look := same
  unfold mustFind at look
  cases answered : findNamed table name with
  | error fault =>
    rw [answered] at look
    cases look
  | ok answer =>
    rw [answered] at look
    cases answer with
    | none => cases look
    | some other =>
      cases look
      obtain ⟨text, rfl, looked⟩ := findNamed_eq_some answered
      rw [named looked]
      exact same

end Titles

namespace Resolver

variable {resolver : Resolver} {name : Json}

theorem requireTransform_eq : resolver.requireTransform name =
    mustFind resolver.transform? (.unresolved .transform) name :=
  congrArg (findNamed _ name >>= ·) (funext fun answer => by cases answer <;> rfl)

theorem requireType_eq :
    resolver.requireType name = mustFind resolver.type? (.unresolved .type) name :=
  congrArg (findNamed _ name >>= ·) (funext fun answer => by cases answer <;> rfl)

theorem requireFunction_eq : resolver.requireFunction name =
    mustFind resolver.function? (.unresolved .function) name :=
  congrArg (findNamed _ name >>= ·) (funext fun answer => by cases answer <;> rfl)

namespace Named

theorem requireTransform (named : resolver.Named) {found : Transform}
    (same : resolver.requireTransform name = .ok found) :
    resolver.requireTransform found.name = .ok found := by
  rw [requireTransform_eq] at same ⊢
  exact mustFind_title named.transform same

theorem requireType (named : resolver.Named) {found : ForeignType}
    (same : resolver.requireType name = .ok found) :
    resolver.requireType found.name = .ok found := by
  rw [requireType_eq] at same ⊢
  exact mustFind_title named.type same

theorem requireFunction (named : resolver.Named) {found : Function}
    (same : resolver.requireFunction name = .ok found) :
    resolver.requireFunction found.name = .ok found := by
  rw [requireFunction_eq] at same ⊢
  exact mustFind_title named.function same

end Named

end Resolver

end WireProgram
