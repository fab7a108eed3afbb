/-
**What a value refers to.**

A value refers to lists by their cells and to streams by their views, at any depth. Under names that
leave all of these theirs it is the same. The main definitions and statements:

* `Value.cells` and `Value.views`, the lists and the streams that a value refers to;
* `Value.named_eq_self`, a value under names that it does not see, and `Lists.Named.of_fixes`;
* `Value.views_named`, the streams of a value under other names.
-/

import WireProgram.Proofs.Ensemble.Naming

namespace WireProgram

mutual

/-- The cells of the lists that a value refers to. -/
def Value.cells : Value → List Nat
  | .list cell => [cell]
  | .tuple items | .tagged _ items => itemsCells items
  | .dict entries => pairsCells entries
  | .record _ fields => fieldsCells fields
  | .object _ fields => attributesCells fields
  | .none | .bool _ | .int _ | .float _ | .text _ | .bytes _ | .array _ _ | .member _ _ _ _
  | .stream _ => []

/-- The cells of the lists that items refer to. -/
def itemsCells : List Value → List Nat
  | [] => []
  | item :: rest => item.cells ++ itemsCells rest

/-- The cells of the lists that the entries of a dictionary refer to. -/
def pairsCells : List (Value × Value) → List Nat
  | [] => []
  | (key, value) :: rest => key.cells ++ value.cells ++ pairsCells rest

/-- The cells of the lists that the fields of a record refer to. -/
def fieldsCells : List (Json × Value) → List Nat
  | [] => []
  | (_, value) :: rest => value.cells ++ fieldsCells rest

/-- The cells of the lists that the fields of an object refer to. -/
def attributesCells : List (String × Value) → List Nat
  | [] => []
  | (_, value) :: rest => value.cells ++ attributesCells rest

end

mutual

/-- The streams that a value holds, at any depth. -/
def Value.views : Value → List View
  | .stream view => [view]
  | .tuple items | .tagged _ items => itemsViews items
  | .dict entries => pairsViews entries
  | .record _ fields => fieldsViews fields
  | .object _ fields => attributesViews fields
  | .none | .bool _ | .int _ | .float _ | .text _ | .bytes _ | .list _ | .array _ _
  | .member _ _ _ _ => []

/-- The streams that items hold. -/
def itemsViews : List Value → List View
  | [] => []
  | item :: rest => item.views ++ itemsViews rest

/-- The streams that the entries of a dictionary hold. -/
def pairsViews : List (Value × Value) → List View
  | [] => []
  | (key, value) :: rest => key.views ++ value.views ++ pairsViews rest

/-- The streams that the fields of a record hold. -/
def fieldsViews : List (Json × Value) → List View
  | [] => []
  | (_, value) :: rest => value.views ++ fieldsViews rest

/-- The streams that the fields of an object hold. -/
def attributesViews : List (String × Value) → List View
  | [] => []
  | (_, value) :: rest => value.views ++ attributesViews rest

end

/-- A naming that leaves some lists and some streams their names. -/
structure Naming.Fixes (naming : Naming) (cells : List Nat) (views : List View) : Prop where
  cells : ∀ cell ∈ cells, naming.cells cell = cell
  views : ∀ view ∈ views, naming.views view = view

theorem Naming.Fixes.append {naming : Naming} {cells cells' : List Nat} {views views' : List View}
    (fixes : naming.Fixes (cells ++ cells') (views ++ views')) :
    naming.Fixes cells views ∧ naming.Fixes cells' views' :=
  ⟨⟨fun cell member => fixes.cells cell (List.mem_append_left _ member),
      fun view member => fixes.views view (List.mem_append_left _ member)⟩,
    ⟨fun cell member => fixes.cells cell (List.mem_append_right _ member),
      fun view member => fixes.views view (List.mem_append_right _ member)⟩⟩

section Fixed

variable {naming : Naming}

mutual

/-- A value whose lists and streams have their own names is the same under the names. -/
theorem Value.named_eq_self : ∀ value : Value, naming.Fixes value.cells value.views →
    value.named naming = value
  | .list cell, fixes => congrArg Value.list (fixes.cells cell (List.mem_singleton_self cell))
  | .tuple items, fixes => congrArg Value.tuple (itemsNamed_eq_self items fixes)
  | .dict entries, fixes => congrArg Value.dict (entriesNamed_eq_self entries fixes)
  | .record name fields, fixes => congrArg (Value.record name) (fieldsNamed_eq_self fields fixes)
  | .tagged name items, fixes => congrArg (Value.tagged name) (itemsNamed_eq_self items fixes)
  | .object className fields, fixes =>
    congrArg (Value.object className) (attributesNamed_eq_self fields fixes)
  | .stream view, fixes => congrArg Value.stream (fixes.views view (List.mem_singleton_self view))
  | .none, _ | .bool _, _ | .int _, _ | .float _, _ | .text _, _ | .bytes _, _ | .array _ _, _
  | .member _ _ _ _, _ => rfl

theorem itemsNamed_eq_self : ∀ items : List Value,
    naming.Fixes (itemsCells items) (itemsViews items) → itemsNamed naming items = items
  | [], _ => rfl
  | item :: rest, fixes =>
    congrArg₂ List.cons (item.named_eq_self fixes.append.1) (itemsNamed_eq_self rest fixes.append.2)

theorem entriesNamed_eq_self : ∀ entries : List (Value × Value),
    naming.Fixes (pairsCells entries) (pairsViews entries) → entriesNamed naming entries = entries
  | [], _ => rfl
  | (key, value) :: rest, fixes => by
    obtain ⟨here, others⟩ := fixes.append
    rw [entriesNamed, key.named_eq_self here.append.1, value.named_eq_self here.append.2,
      entriesNamed_eq_self rest others]

theorem fieldsNamed_eq_self : ∀ fields : List (Json × Value),
    naming.Fixes (fieldsCells fields) (fieldsViews fields) → fieldsNamed naming fields = fields
  | [], _ => rfl
  | (name, value) :: rest, fixes => by
    rw [fieldsNamed, value.named_eq_self fixes.append.1, fieldsNamed_eq_self rest fixes.append.2]

theorem attributesNamed_eq_self : ∀ fields : List (String × Value),
    naming.Fixes (attributesCells fields) (attributesViews fields) →
      attributesNamed naming fields = fields
  | [], _ => rfl
  | (name, value) :: rest, fixes => by
    rw [attributesNamed, value.named_eq_self fixes.append.1,
      attributesNamed_eq_self rest fixes.append.2]

end

/-- Lists under names that leave everything its own stand for the lists themselves. -/
theorem Lists.Named.of_fixes {naming' : Naming} {lists same lists' : Lists}
    (unchanged : Lists.Named naming lists same) (fixes : ∀ cells views, naming.Fixes cells views)
    (named : Lists.Named naming' lists lists') : Lists.Named naming' same lists' := by
  have cells : ∀ cell, naming.cells cell = cell := fun cell =>
    (fixes [cell] []).cells cell (List.mem_singleton_self cell)
  constructor
  · intro cell
    have items := unchanged.get cell
    rw [cells, (List.map_congr_left (g := id) fun value _ => value.named_eq_self (fixes _ _)).trans
      (List.map_id _)] at items
    rw [named.get, items]
  · intro more
    have sizes := unchanged.next 0
    rw [cells] at sizes
    rw [← named.next, show same.size = lists.size from sizes.symm]

end Fixed

section Renamed

variable (naming : Naming)

mutual

/-- The streams of a value under other names are its streams under them. -/
theorem Value.views_named : ∀ value : Value,
    (value.named naming).views = value.views.map naming.views
  | .tuple items => itemsViews_named items
  | .dict entries => pairsViews_named entries
  | .record _ fields => fieldsViews_named fields
  | .tagged _ items => itemsViews_named items
  | .object _ fields => attributesViews_named fields
  | .stream _ | .none | .bool _ | .int _ | .float _ | .text _ | .bytes _ | .list _ | .array _ _
  | .member _ _ _ _ => rfl

theorem itemsViews_named : ∀ items : List Value,
    itemsViews (itemsNamed naming items) = (itemsViews items).map naming.views
  | [] => rfl
  | item :: rest => by
    rw [itemsNamed, itemsViews, itemsViews, List.map_append, item.views_named, itemsViews_named rest]

theorem pairsViews_named : ∀ entries : List (Value × Value),
    pairsViews (entriesNamed naming entries) = (pairsViews entries).map naming.views
  | [] => rfl
  | (key, value) :: rest => by
    rw [entriesNamed, pairsViews, pairsViews, List.map_append, List.map_append, key.views_named,
      value.views_named, pairsViews_named rest]

theorem fieldsViews_named : ∀ fields : List (Json × Value),
    fieldsViews (fieldsNamed naming fields) = (fieldsViews fields).map naming.views
  | [] => rfl
  | (name, value) :: rest => by
    rw [fieldsNamed, fieldsViews, fieldsViews, List.map_append, value.views_named,
      fieldsViews_named rest]

theorem attributesViews_named : ∀ fields : List (String × Value),
    attributesViews (attributesNamed naming fields) = (attributesViews fields).map naming.views
  | [] => rfl
  | (name, value) :: rest => by
    rw [attributesNamed, attributesViews, attributesViews, List.map_append, value.views_named,
      attributesViews_named rest]

end

end Renamed

end WireProgram
