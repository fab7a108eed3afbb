/-
**Resolvers: who answers for a name.**

A resolver answers five look-ups, each of which may stay without an answer. Resolvers compose: of a
sequence, the first one that answers wins. The main definitions:

* `Resolver`, with `Resolver.silent`, which knows nothing;
* `Resolver.first`, the composition of a sequence;
* `CapabilityTables.resolver`, a resolver over tables in memory;
* `Resolver.requireTransform` and its kin, look-ups that must be answered.
-/

import WireProgram.Capability
import WireProgram.Name

namespace WireProgram

/-- The five look-ups. -/
structure Resolver where
  /-- The canonical form of the name of an import. -/
  normalizeImport : String → Except Fault (Option String)
  /-- The content of an import. -/
  importText : String → Except Fault (Option String)
  transform? : String → Option Transform
  type? : String → Option ForeignType
  function? : String → Option Function

namespace Resolver

/-- The resolver that knows nothing. -/
def silent : Resolver where
  normalizeImport _ := .ok none
  importText _ := .ok none
  transform? _ := none
  type? _ := none
  function? _ := none

instance : Inhabited Resolver := ⟨silent⟩

/-- The first answer of a sequence of resolvers. -/
def first (providers : List Resolver) : Resolver where
  normalizeImport name := providers.findSomeM? fun provider => provider.normalizeImport name
  importText name := providers.findSomeM? fun provider => provider.importText name
  transform? name := providers.findSome? fun provider => provider.transform? name
  type? name := providers.findSome? fun provider => provider.type? name
  function? name := providers.findSome? fun provider => provider.function? name

/-! ### Look-ups that must be answered -/

/-- The transform of a name. -/
def requireTransform (resolver : Resolver) (name : Json) : Except Fault Transform := do
  match ← findNamed resolver.transform? name with
  | some found => return found
  | none => throw (.unresolved .transform name)

/-- The foreign type of a name. -/
def requireType (resolver : Resolver) (name : Json) : Except Fault ForeignType := do
  match ← findNamed resolver.type? name with
  | some found => return found
  | none => throw (.unresolved .type name)

/-- The function of a name. -/
def requireFunction (resolver : Resolver) (name : Json) : Except Fault Function := do
  match ← findNamed resolver.function? name with
  | some found => return found
  | none => throw (.unresolved .function name)

end Resolver

/-! ### Tables in memory -/

/-- Tables of imports and capabilities by name. -/
structure CapabilityTables where
  imports : List (String × String) := []
  transforms : List (String × Transform) := []
  types : List (String × ForeignType) := []
  functions : List (String × Function) := []
  deriving Inhabited

/-- The resolver over tables; the name of an import is its canonical form. -/
def CapabilityTables.resolver (tables : CapabilityTables) : Resolver where
  normalizeImport name := .ok ((tables.imports.lookup name).map fun _ => name)
  importText name := .ok (tables.imports.lookup name)
  transform? name := tables.transforms.lookup name
  type? name := tables.types.lookup name
  function? name := tables.functions.lookup name

end WireProgram
