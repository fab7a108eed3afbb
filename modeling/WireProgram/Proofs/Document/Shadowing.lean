/-
**A built-in name means the same in every program.**

A resolver that stands before another one is asked first, and the other one only answers for names
that the first one leaves open. A reader therefore does the same with both of them, up to the first
name that is open; there it fails with the first one alone. The main definitions and statements:

* `Resolver.answers`, the names that a resolver knows, and `CapabilityTables.names`;
* `Resolver.Lacks`, the fault of a name that only another resolver knows;
* `Reading.SameUnless`, two readers that do the same, unless the first one meets such a fault;
* `Program.ofJson_withParent`, what a parent of the built-in capabilities changes.
-/

import WireProgram.Proofs.Document.Reading
import WireProgram.Resolver.Prelude

namespace WireProgram

/-! ### Who knows a name -/

/-- Whether a resolver knows a capability. -/
def Resolver.answers (resolver : Resolver) (kind : CapabilityKind) (name : String) : Bool :=
  match kind with
  | .transform => (resolver.transform? name).isSome
  | .type => (resolver.type? name).isSome
  | .function => (resolver.function? name).isSome

/-- The names of the capabilities of a kind. -/
def CapabilityTables.names (tables : CapabilityTables) : CapabilityKind → List String
  | .transform => tables.transforms.map Prod.fst
  | .type => tables.types.map Prod.fst
  | .function => tables.functions.map Prod.fst

/-- What a table finds is what it has a name for. -/
theorem isSome_lookup {α : Type} (table : List (String × α)) (name : String) :
    (table.lookup name).isSome = true ↔ name ∈ table.map Prod.fst := by
  induction table with
  | nil => simp
  | cons entry rest hypothesis =>
    rw [List.lookup_cons, List.map_cons, List.mem_cons, ← hypothesis]
    by_cases same : name = entry.1
    · simp [same]
    · simp only [same, false_or, beq_eq_false_iff_ne.mpr same]

/-- A resolver over tables knows the names of its tables. -/
theorem CapabilityTables.answers_iff (tables : CapabilityTables) (kind : CapabilityKind)
    (name : String) : tables.resolver.answers kind name = true ↔ name ∈ tables.names kind := by
  cases kind <;> exact isSome_lookup _ _

/-- The fault of a name that a resolver leaves open and another one knows. -/
def Resolver.Lacks (resolver parent : Resolver) (fault : Fault) : Prop :=
  ∃ kind name, fault = .unresolved kind (.string name) ∧ resolver.answers kind name = false ∧
    parent.answers kind name = true

/-! ### The same up to a fault -/

/-- Two results that are the same, unless the first one is a certain fault. -/
def SameResult {α : Type} (lacks : Fault → Prop) (result result' : Except Fault α) : Prop :=
  result = result' ∨ ∃ fault, result = .error fault ∧ lacks fault

/-- Two readers that do the same, unless the first one fails with a certain fault. -/
def Reading.SameUnless {α : Type} (lacks : Fault → Prop) (reading reading' : Reading α) : Prop :=
  ∀ lists, SameResult lacks (reading.run lists) (reading'.run lists)

namespace Reading.SameUnless

variable {α β : Type} {lacks : Fault → Prop} {first first' : Reading α}
  {next next' : α → Reading β}

theorem refl (reading : Reading α) : SameUnless lacks reading reading :=
  fun _ => Or.inl rfl

theorem bind (one : SameUnless lacks first first')
    (two : ∀ value, SameUnless lacks (next value) (next' value)) :
    SameUnless lacks (first >>= next) (first' >>= next') := by
  intro lists
  rw [StateT.run_bind, StateT.run_bind]
  rcases one lists with same | ⟨fault, failed, holds⟩
  · rw [same]
    cases first'.run lists with
    | error fault => exact Or.inl rfl
    | ok pair => exact two pair.1 pair.2
  · rw [failed]
    exact Or.inr ⟨fault, rfl, holds⟩

/-- What comes after the same part. -/
theorem after (two : ∀ value, SameUnless lacks (next value) (next' value)) :
    SameUnless lacks (first >>= next) (first >>= next') :=
  (refl first).bind two

/-- A part without lists. -/
theorem lift {result result' : Except Fault α} (one : SameResult lacks result result') :
    SameUnless lacks (liftM result : Reading α) (liftM result') := by
  intro lists
  rcases one with rfl | ⟨fault, rfl, holds⟩
  · exact Or.inl rfl
  · exact Or.inr ⟨fault, rfl, holds⟩

/-- One value for each item. -/
theorem mapM {act act' : β → Reading α} (each : ∀ item, SameUnless lacks (act item) (act' item))
    (items : List β) : SameUnless lacks (items.mapM act) (items.mapM act') := by
  induction items with
  | nil => exact refl _
  | cons item items hypothesis =>
    rw [List.mapM_cons, List.mapM_cons]
    exact (each item).bind fun value => hypothesis.bind fun values => refl _

end Reading.SameUnless

/-! ### Resolvers one before the other -/

theorem mustFind_string {α : Type} (table : String → Option α) (missing : Json → Fault)
    (text : String) : mustFind table missing (.string text) =
      (table text).elim (.error (missing (.string text))) .ok := by
  unfold mustFind findNamed
  cases found : table text <;>
    simp [bind, Except.bind, Json.name?, Except.map, found, pure, Except.pure, throw, throwThe,
      MonadExceptOf.throw]

/-- A name that must be found is found in the first of two tables, unless only the second one has
it. -/
theorem mustFind_or {α : Type} {table others : String → Option α} {kind : CapabilityKind}
    {lacks : Fault → Prop}
    (left : ∀ text, (table text).isSome = false → (others text).isSome = true →
      lacks (.unresolved kind (.string text))) (name : Json) :
    SameResult lacks (mustFind table (.unresolved kind) name)
      (mustFind (fun text => (table text).or (others text)) (.unresolved kind) name) := by
  cases name with
  | string text =>
    rw [mustFind_string, mustFind_string]
    cases found : table text with
    | some value => exact Or.inl rfl
    | none =>
      cases found' : others text with
      | some value =>
        exact Or.inr ⟨_, rfl, left text (by rw [found]; rfl) (by rw [found']; rfl)⟩
      | none => exact Or.inl rfl
  | array _ => exact Or.inl rfl
  | object _ => exact Or.inl rfl
  | null => exact Or.inl rfl
  | bool _ => exact Or.inl rfl
  | int _ => exact Or.inl rfl
  | float _ => exact Or.inl rfl

/-- The first answer is the first one's, if it has one. -/
theorem findSome?_cons_eq_or {α β : Type} (look : α → Option β) (head : α) (tail : List α) :
    (head :: tail).findSome? look = (look head).or (tail.findSome? look) := by
  rw [List.findSome?_cons]
  cases look head <;> rfl

namespace Resolver

variable (resolver : Resolver) (others : List Resolver) (name : Json)

/-- A resolver alone in its sequence. -/
theorem first_singleton : first [resolver] = resolver := by
  unfold first
  congr 1
  · funext name
    show (resolver.normalizeImport name >>= _) = _
    cases resolver.normalizeImport name with
    | error fault => rfl
    | ok answer => cases answer <;> rfl
  · funext name
    show (resolver.importText name >>= _) = _
    cases resolver.importText name with
    | error fault => rfl
    | ok answer => cases answer <;> rfl
  · funext name
    rw [findSome?_cons_eq_or]
    exact Option.or_none
  · funext name
    rw [findSome?_cons_eq_or]
    exact Option.or_none
  · funext name
    rw [findSome?_cons_eq_or]
    exact Option.or_none

theorem requireTransform_first : SameResult (resolver.Lacks (first others))
    (resolver.requireTransform name) ((first (resolver :: others)).requireTransform name) := by
  have same : (first (resolver :: others)).transform? = fun text =>
      (resolver.transform? text).or ((first others).transform? text) :=
    funext fun text => findSome?_cons_eq_or (Resolver.transform? · text) resolver others
  rw [requireTransform_eq, requireTransform_eq, same]
  exact mustFind_or (fun text none some => ⟨.transform, text, rfl, none, some⟩) name

theorem requireType_first : SameResult (resolver.Lacks (first others))
    (resolver.requireType name) ((first (resolver :: others)).requireType name) := by
  have same : (first (resolver :: others)).type? = fun text =>
      (resolver.type? text).or ((first others).type? text) :=
    funext fun text => findSome?_cons_eq_or (Resolver.type? · text) resolver others
  rw [requireType_eq, requireType_eq, same]
  exact mustFind_or (fun text none some => ⟨.type, text, rfl, none, some⟩) name

theorem requireFunction_first : SameResult (resolver.Lacks (first others))
    (resolver.requireFunction name) ((first (resolver :: others)).requireFunction name) := by
  have same : (first (resolver :: others)).function? = fun text =>
      (resolver.function? text).or ((first others).function? text) :=
    funext fun text => findSome?_cons_eq_or (Resolver.function? · text) resolver others
  rw [requireFunction_eq, requireFunction_eq, same]
  exact mustFind_or (fun text none some => ⟨.function, text, rfl, none, some⟩) name

end Resolver

/-! ### Readers -/

section Readers

variable (resolver : Resolver) (others : List Resolver)

/-- **Reading an expression** with resolvers behind the first one. -/
theorem readExpression_first (fuel : Nat) (document : Json) :
    Reading.SameUnless (resolver.Lacks (.first others)) (readExpression resolver fuel document)
      (readExpression (.first (resolver :: others)) fuel document) := by
  induction fuel generalizing document with
  | zero => exact .refl _
  | succ fuel hypothesis =>
    refine .after fun kind => ?_
    split
    · exact .refl _
    · exact .refl _
    · refine .after fun name => .bind (.lift (resolver.requireFunction_first others name))
        fun function => .after fun arguments => .after fun items => ?_
      exact .bind (.mapM hypothesis items) fun _ => .refl _
    · exact .refl _

/-- **Reading an instruction** with resolvers behind the first one. -/
theorem readInstruction_first (fuel : Nat) (document : Json) :
    Reading.SameUnless (resolver.Lacks (.first others)) (readInstruction resolver fuel document)
      (readInstruction (.first (resolver :: others)) fuel document) := by
  induction fuel generalizing document with
  | zero => exact .refl _
  | succ fuel hypothesis =>
    have block : ∀ items : Json, Reading.SameUnless (resolver.Lacks (.first others))
        (liftM items.requireElements >>= fun items => items.mapM (readInstruction resolver fuel))
        (liftM items.requireElements >>= fun items =>
          items.mapM (readInstruction (.first (resolver :: others)) fuel)) :=
      fun items => .after fun items => .mapM hypothesis items
    have transform : ∀ name, Reading.SameUnless (resolver.Lacks (.first others))
        (liftM (resolver.requireTransform name))
        (liftM ((Resolver.first (resolver :: others)).requireTransform name)) :=
      fun name => .lift (resolver.requireTransform_first others name)
    refine .after fun kind => ?_
    split
    · exact .after fun _ => .after fun _ => .bind (readExpression_first resolver others _ _)
        fun _ => .refl _
    · exact .refl _
    · exact .refl _
    · exact .after fun _ => .after fun _ => .after fun _ => .bind (transform _) fun _ => .refl _
    · exact .after fun _ => .bind (block _) fun _ => .after fun _ => .after fun _ =>
        .after fun _ => .bind (transform _) fun _ => .refl _
    · exact .after fun _ => .after fun _ => .after fun _ =>
        .bind (.lift (resolver.requireType_first others _)) fun _ => .refl _
    · exact .refl _
    · exact .refl _
    · exact .refl _
    · exact .refl _
    · exact .after fun _ => .after fun _ => .after fun _ => .bind (block _) fun _ => .refl _
    · exact .refl _
    · exact .after fun _ => .after fun _ => .after fun _ => .after fun _ =>
        .bind (block _) fun _ => .refl _
    · exact .refl _

/-- **Reading a program** with resolvers behind the first one. -/
theorem Program.ofJson_first (document : Json) :
    Reading.SameUnless (resolver.Lacks (.first others)) (Program.ofJson resolver document)
      (Program.ofJson (.first (resolver :: others)) document) := by
  refine .after fun _ => .after fun _ => .bind (.mapM (fun item => ?_) _) fun _ => .refl _
  exact readInstruction_first resolver others _ item

end Readers

/-! ### The built-in capabilities -/

theorem Prelude.withParent_none : withParent none = resolver :=
  Resolver.first_singleton resolver

/-- **The tables of users do not change what a program means.** A program that can be read with the
built-in capabilities alone is the same program before every parent. One that can be read only with
a parent has a name that is no built-in one of its kind and that the parent knows, and without the
parent that name is the fault; whatever else comes of reading is the same. -/
theorem Program.ofJson_withParent (parent : Resolver) (document : Json) (lists : Lists) :
    (∀ program after,
      (Program.ofJson (Prelude.withParent none) document).run lists = .ok (program, after) →
        (Program.ofJson (Prelude.withParent (some parent)) document).run lists =
          .ok (program, after)) ∧
    ((Program.ofJson (Prelude.withParent none) document).run lists =
        (Program.ofJson (Prelude.withParent (some parent)) document).run lists ∨
      ∃ kind name, (Program.ofJson (Prelude.withParent none) document).run lists =
          .error (.unresolved kind (.string name)) ∧
        name ∉ Prelude.tables.names kind ∧ parent.answers kind name = true) := by
  have either := Program.ofJson_first Prelude.resolver [parent] document lists
  rw [Resolver.first_singleton] at either
  rw [Prelude.withParent_none]
  refine ⟨fun program after ran => ?_, ?_⟩
  · rcases either with same | ⟨fault, failed, -⟩
    · exact same.symm.trans ran
    · cases ran.symm.trans failed
  · rcases either with same | ⟨fault, failed, kind, name, rfl, unknown, known⟩
    · exact Or.inl same
    · refine Or.inr ⟨kind, name, failed, fun member => ?_, known⟩
      exact Bool.false_ne_true
        (unknown.symm.trans ((Prelude.tables.answers_iff kind name).mpr member))

/-- A document in which a block calls a function on the result of another one and wraps a stream. -/
def callingDocument (inner transform : String) : Json :=
  .object [("register_count", .int 3), ("instructions", .array [
    .object [("type", .string "conditional"), ("target", .int 0), ("interior", .int 1),
      ("condition", .int 2), ("body", .array [
        .object [("type", .string "eval"), ("target", .int 1),
          ("expr", .object [("type", .string "call"), ("function", .string "pad"),
            ("args", .array [.object [("type", .string "call"), ("function", .string inner),
              ("args", .array [])]])])],
        .object [("type", .string "wrap_stream"), ("new_stream", .int 2),
          ("stream", .object [("type", .string "direct")]),
          ("transformer", .string transform)]])]])]

/-- The further capabilities as the parent: they have a function and a transform of their own under
built-in names. -/
theorem Program.ofJson_withParent_of_calling :
    (∃ program after,
      (Program.ofJson (Prelude.withParent none) (callingDocument "len" "gzip")).run {} =
        .ok (program, after) ∧
      (Program.ofJson (Prelude.withParent (some Extension.tables.resolver))
        (callingDocument "len" "gzip")).run {} = .ok (program, after)) ∧
    ∃ kind name,
      (Program.ofJson (Prelude.withParent none) (callingDocument "sum" "xor")).run {} =
        .error (.unresolved kind (.string name)) ∧
      name ∉ Prelude.tables.names kind ∧ Extension.tables.resolver.answers kind name = true := by
  constructor
  · have succeeds : ((Program.ofJson (Prelude.withParent none)
        (callingDocument "len" "gzip")).run {}).isOk = true := by
      decide +kernel
    cases loaded : (Program.ofJson (Prelude.withParent none)
        (callingDocument "len" "gzip")).run {} with
    | error fault =>
      rw [loaded] at succeeds
      cases succeeds
    | ok pair => exact ⟨pair.1, pair.2, rfl, (Program.ofJson_withParent Extension.tables.resolver
        (callingDocument "len" "gzip") {}).1 pair.1 pair.2 loaded⟩
  · have differ : ((Program.ofJson (Prelude.withParent none)
        (callingDocument "sum" "xor")).run {}).isOk ≠ ((Program.ofJson
          (Prelude.withParent (some Extension.tables.resolver))
            (callingDocument "sum" "xor")).run {}).isOk := by
      decide +kernel
    exact (Program.ofJson_withParent Extension.tables.resolver (callingDocument "sum" "xor")
      {}).2.resolve_left fun same => differ (congrArg Except.isOk same)

end WireProgram
