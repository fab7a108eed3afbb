/-
**Values in both modes.**

A value can hold streams, at any depth, and through them the way in which raw inputs are read. Apart
from that the values of a run are the same in both modes, so one value stands for both: it is put
under a mode. That is to give its streams other names. The main definitions and statements:

* `Value.under` and `Lists.under`, one value and one table of lists under a mode;
* `Execution.naming` and `Value.named_eq`, the names that a mode has for streams;
* `Lists.under_of_named`, lists that are the same under these names.
-/

import WireProgram.Proofs.Ensemble.Naming
import WireProgram.Proofs.Mode.Streams

namespace WireProgram

/-! ### Tables cell by cell -/

namespace Table

variable {α β : Type} [Inhabited α] [Inhabited β] {change : α → β}

/-- A table with every cell changed. -/
def map {α β : Type} (change : α → β) (table : Table α) : Table β :=
  ⟨table.cells.map change⟩

omit [Inhabited α] [Inhabited β] in
theorem size_map (table : Table α) : (table.map change).size = table.size :=
  Array.size_map

theorem get_map (kept : change default = default) (table : Table α) (cell : Nat) :
    (table.map change).get cell = change (table.get cell) := by
  unfold get map
  rw [Array.getD_eq_getD_getElem?, Array.getD_eq_getD_getElem?, Array.getElem?_map]
  cases table.cells[cell]? with
  | none => exact kept.symm
  | some value => rfl

end Table

/-! ### Values -/

mutual

/-- A value whose roots over raw inputs are read in a given way. -/
def Value.under (execution : Execution) : Value → Value
  | .none => .none
  | .bool value => .bool value
  | .int value => .int value
  | .float value => .float value
  | .text value => .text value
  | .bytes content => .bytes content
  | .list cell => .list cell
  | .tuple items => .tuple (itemsUnder execution items)
  | .dict entries => .dict (entriesUnder execution entries)
  | .array element items => .array element items
  | .record name fields => .record name (fieldsUnder execution fields)
  | .tagged name items => .tagged name (itemsUnder execution items)
  | .member enumeration name value integral => .member enumeration name value integral
  | .object className fields => .object className (attributesUnder execution fields)
  | .stream view => .stream (view.under execution)

/-- The items of a value under a mode. -/
def itemsUnder (execution : Execution) : List Value → List Value
  | [] => []
  | item :: rest => item.under execution :: itemsUnder execution rest

/-- The entries of a dictionary under a mode. -/
def entriesUnder (execution : Execution) : List (Value × Value) → List (Value × Value)
  | [] => []
  | (key, value) :: rest =>
    (key.under execution, value.under execution) :: entriesUnder execution rest

/-- The fields of a record under a mode. -/
def fieldsUnder (execution : Execution) : List (Json × Value) → List (Json × Value)
  | [] => []
  | (name, value) :: rest => (name, value.under execution) :: fieldsUnder execution rest

/-- The fields of an object under a mode. -/
def attributesUnder (execution : Execution) : List (String × Value) → List (String × Value)
  | [] => []
  | (name, value) :: rest => (name, value.under execution) :: attributesUnder execution rest

end

/-- A value that holds no root over a raw input. -/
def Value.Rootless (value : Value) : Prop :=
  ∀ execution, value.under execution = value

/-- The items of all lists under a mode. -/
def Lists.under (execution : Execution) (lists : Lists) : Lists :=
  lists.map (List.map (Value.under execution))

/-! ### Names -/

/-- The names of a mode: those of its roots over raw inputs. -/
def Execution.naming (execution : Execution) : Naming where
  cells cell := cell
  views := View.under execution
  injective _ _ same := same

mutual

/-- Under a mode a value has the names of the mode. -/
theorem Value.named_eq (execution : Execution) : ∀ value : Value,
    value.named execution.naming = value.under execution
  | .tuple items => by simp only [Value.named, Value.under, itemsNamed_under execution items]
  | .dict entries => by simp only [Value.named, Value.under, entriesNamed_under execution entries]
  | .record name fields => by simp only [Value.named, Value.under, fieldsNamed_under execution fields]
  | .tagged name items => by simp only [Value.named, Value.under, itemsNamed_under execution items]
  | .object className fields => by
    simp only [Value.named, Value.under, attributesNamed_under execution fields]
  | .none | .bool _ | .int _ | .float _ | .text _ | .bytes _ | .list _ | .array _ _
  | .member _ _ _ _ | .stream _ => rfl

theorem itemsNamed_under (execution : Execution) : ∀ items : List Value,
    itemsNamed execution.naming items = itemsUnder execution items
  | [] => rfl
  | item :: rest => by
    simp only [itemsNamed, itemsUnder, Value.named_eq execution item,
      itemsNamed_under execution rest]

theorem entriesNamed_under (execution : Execution) : ∀ entries : List (Value × Value),
    entriesNamed execution.naming entries = entriesUnder execution entries
  | [] => rfl
  | (key, value) :: rest => by
    simp only [entriesNamed, entriesUnder, Value.named_eq execution key,
      Value.named_eq execution value, entriesNamed_under execution rest]

theorem fieldsNamed_under (execution : Execution) : ∀ fields : List (Json × Value),
    fieldsNamed execution.naming fields = fieldsUnder execution fields
  | [] => rfl
  | (name, value) :: rest => by
    simp only [fieldsNamed, fieldsUnder, Value.named_eq execution value,
      fieldsNamed_under execution rest]

theorem attributesNamed_under (execution : Execution) : ∀ fields : List (String × Value),
    attributesNamed execution.naming fields = attributesUnder execution fields
  | [] => rfl
  | (name, value) :: rest => by
    simp only [attributesNamed, attributesUnder, Value.named_eq execution value,
      attributesNamed_under execution rest]

end

theorem Lists.get_under (execution : Execution) (lists : Lists) (cell : Nat) :
    (lists.under execution).get cell = (lists.get cell).map (Value.under execution) := by
  have kept : List.map (Value.under execution) default = default := rfl
  exact Table.get_map kept lists cell

/-- Lists that are the same under the names of a mode are the lists under the mode. -/
theorem Lists.under_of_named {execution : Execution} {lists lists' : Lists}
    (named : Lists.Named execution.naming lists lists') : lists' = lists.under execution := by
  refine Table.ext_get ?_ fun cell => ?_
  · exact named.size.symm.trans (Table.size_map lists).symm
  · rw [Lists.get_under, ← funext (Value.named_eq execution)]
    exact named.get cell

/-- Lists without a root are the same under the names of all modes. -/
theorem Lists.named_of_under {execution : Execution} {lists : Lists}
    (same : lists.under execution = lists) : Lists.Named execution.naming lists lists where
  get cell := by
    have here := Lists.get_under execution lists cell
    rw [same, ← funext (Value.named_eq execution)] at here
    exact here
  next _ := rfl

end WireProgram
