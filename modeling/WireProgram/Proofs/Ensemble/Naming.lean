/-
**Values under other names.**

A value refers to lists by their cells and to streams by their views. Two runs may have other cells and
views for the same lists and streams: then their values are the same under other names. What the
instructions see of a value does not depend on the names, but for the class of a stream. The main
definitions and statements:

* `Naming` and `Value.named`, a value under other names;
* `Lists.Named`, the same lists in other cells, with `Lists.Named.push` and `Lists.Named.append`;
* `Value.toInteger?_named`, `Value.truth_named`, `Value.length_named` and `Value.toBytes_named`, the four
  ways in which the instructions use a value;
* `Value.same_named`, the equality that enumerations look values up by.

A member of an enumeration stays as it is: nothing ever takes the value inside out of it.
-/

import Mathlib.Tactic.Common
import WireProgram.Run

namespace WireProgram

/-- Other names for lists and streams. No two lists have one name. -/
structure Naming where
  cells : Nat → Nat
  views : View → View
  injective : ∀ cell other, cells cell = cells other → cell = other

/-! ### Values -/

mutual

/-- A value under other names. -/
def Value.named (naming : Naming) : Value → Value
  | .none => .none
  | .bool value => .bool value
  | .int value => .int value
  | .float value => .float value
  | .text value => .text value
  | .bytes content => .bytes content
  | .list cell => .list (naming.cells cell)
  | .tuple items => .tuple (itemsNamed naming items)
  | .dict entries => .dict (entriesNamed naming entries)
  | .array element items => .array element items
  | .record name fields => .record name (fieldsNamed naming fields)
  | .tagged name items => .tagged name (itemsNamed naming items)
  | .member enumeration name value integral => .member enumeration name value integral
  | .object className fields => .object className (attributesNamed naming fields)
  | .stream view => .stream (naming.views view)

/-- The items of a value under other names. -/
def itemsNamed (naming : Naming) : List Value → List Value
  | [] => []
  | item :: rest => item.named naming :: itemsNamed naming rest

/-- The entries of a dictionary under other names. -/
def entriesNamed (naming : Naming) : List (Value × Value) → List (Value × Value)
  | [] => []
  | (key, value) :: rest => (key.named naming, value.named naming) :: entriesNamed naming rest

/-- The fields of a record under other names. -/
def fieldsNamed (naming : Naming) : List (Json × Value) → List (Json × Value)
  | [] => []
  | (name, value) :: rest => (name, value.named naming) :: fieldsNamed naming rest

/-- The fields of an object under other names. -/
def attributesNamed (naming : Naming) : List (String × Value) → List (String × Value)
  | [] => []
  | (name, value) :: rest => (name, value.named naming) :: attributesNamed naming rest

end

/-- A field under other names. -/
def fieldNamed {Name : Type} (naming : Naming) (field : Name × Value) : Name × Value :=
  (field.1, field.2.named naming)

section Lists

variable (naming : Naming)

@[simp] theorem itemsNamed_eq (items : List Value) :
    itemsNamed naming items = items.map (Value.named naming) := by
  induction items with
  | nil => rfl
  | cons item rest hypothesis => rw [itemsNamed, hypothesis, List.map_cons]

@[simp] theorem entriesNamed_eq (entries : List (Value × Value)) :
    entriesNamed naming entries =
      entries.map fun entry => (entry.1.named naming, entry.2.named naming) := by
  induction entries with
  | nil => rfl
  | cons entry rest hypothesis => rw [entriesNamed, hypothesis, List.map_cons]

@[simp] theorem fieldsNamed_eq (fields : List (Json × Value)) :
    fieldsNamed naming fields = fields.map (fieldNamed naming) := by
  induction fields with
  | nil => rfl
  | cons field rest hypothesis => rw [fieldsNamed, hypothesis, List.map_cons, fieldNamed]

@[simp] theorem attributesNamed_eq (fields : List (String × Value)) :
    attributesNamed naming fields = fields.map (fieldNamed naming) := by
  induction fields with
  | nil => rfl
  | cons field rest hypothesis => rw [attributesNamed, hypothesis, List.map_cons, fieldNamed]

end Lists

/-! ### Lists in other cells -/

/-- The same lists in other cells: the items of a list are the same under the names, and a new list gets
a cell with the right name. -/
structure Lists.Named (naming : Naming) (lists lists' : Lists) : Prop where
  get : ∀ cell, lists'.get (naming.cells cell) = (lists.get cell).map (Value.named naming)
  next : ∀ more, naming.cells (lists.size + more) = lists'.size + more

namespace Lists.Named

variable {naming : Naming} {lists lists' : Lists}

theorem size (named : Lists.Named naming lists lists') :
    naming.cells lists.size = lists'.size :=
  named.next 0

/-- A new list. -/
theorem push (named : Lists.Named naming lists lists') (items : List Value) :
    Lists.Named naming (lists.push items) (lists'.push (items.map (Value.named naming))) := by
  constructor
  · intro cell
    rw [Table.get_push, Table.get_push, ← named.size]
    by_cases new : cell = lists.size
    · rw [if_pos new, if_pos (congrArg naming.cells new)]
    · rw [if_neg new, if_neg fun same => new (naming.injective _ _ same), named.get]
  · intro more
    have beyond := named.next (1 + more)
    rw [Table.size_push, Table.size_push]
    rwa [← Nat.add_assoc, ← Nat.add_assoc] at beyond

/-- A list with one more item. -/
theorem append (named : Lists.Named naming lists lists') (cell : Nat) (value : Value) :
    Lists.Named naming (lists.modify cell fun items => items ++ [value])
      (lists'.modify (naming.cells cell) fun items => items ++ [value.named naming]) := by
  constructor
  · intro other
    unfold Table.modify
    rw [Table.get_set, Table.get_set, named.get cell]
    by_cases here : other = cell
    · rw [if_pos here, if_pos (congrArg naming.cells here), List.map_append]
      rfl
    · rw [if_neg here, if_neg fun same => here (naming.injective _ _ same), named.get]
  · exact Table.next_set naming.injective named.next cell _ _

end Lists.Named

namespace Value

variable (naming : Naming)

/-! ### What is seen of a value -/

/-- The class name of a value that is no stream. -/
theorem typeName_named (value : Value) (apart : ∀ view, value ≠ .stream view) :
    (value.named naming).typeName = value.typeName := by
  cases value with
  | stream view => exact absurd rfl (apart view)
  | _ => rfl

@[simp] theorem toInteger?_named (value : Value) :
    (value.named naming).toInteger? = value.toInteger? := by
  cases value <;> rfl

theorem bytesOfItems_named (items : List Value) :
    bytesOfItems (items.map (named naming)) = bytesOfItems items := by
  induction items with
  | nil => rfl
  | cons item rest hypothesis =>
    simp only [List.map_cons, bytesOfItems, toInteger?_named, hypothesis]

theorem recordMisuse_named (fields : List (Json × Value)) (fuel index : Nat) :
    recordMisuse (fields.map (fieldNamed naming)) fuel index = recordMisuse fields fuel index := by
  induction fuel generalizing index with
  | zero => rfl
  | succ fuel hypothesis =>
    have found : (fields.map (fieldNamed naming)).find?
          (fun field => field.1.slot? = some (.index index)) =
        (fields.find? fun field => field.1.slot? = some (.index index)).map (fieldNamed naming) :=
      List.find?_map
    simp only [recordMisuse, found]
    cases fields.find? fun field => field.1.slot? = some (.index index) with
    | none => rfl
    | some field =>
      simp only [Option.map_some, fieldNamed, toInteger?_named, hypothesis]

section Seen

variable {naming} {lists lists' : Lists}

theorem truth_named (named : Lists.Named naming lists lists') (value : Value) :
    (value.named naming).truth lists' = value.truth lists := by
  cases value with
  | list cell => simp only [Value.named, truth, named.get, List.isEmpty_map]
  | tuple items => simp only [Value.named, truth, itemsNamed_eq, List.isEmpty_map]
  | dict entries => simp only [Value.named, truth, entriesNamed_eq, List.isEmpty_map]
  | array element items => rcases items with _ | ⟨item, _ | ⟨next, rest⟩⟩ <;> rfl
  | member enumeration name value integral => cases integral <;> rfl
  | _ => rfl

theorem length_named (named : Lists.Named naming lists lists') (value : Value) :
    (value.named naming).length lists' = value.length lists := by
  cases value with
  | list cell => simp only [Value.named, length, named.get, List.length_map]
  | tuple items => simp only [Value.named, length, itemsNamed_eq, List.length_map]
  | dict entries => simp only [Value.named, length, entriesNamed_eq, List.length_map]
  | _ => rfl

theorem toBytes_named (named : Lists.Named naming lists lists') (enough : Nat) (value : Value) :
    (value.named naming).toBytes lists' enough = value.toBytes lists enough := by
  cases value with
  | list cell => simp only [Value.named, toBytes, named.get, bytesOfItems_named]
  | tuple items => simp only [Value.named, toBytes, itemsNamed_eq, bytesOfItems_named]
  | dict entries =>
    have keys : (entries.map fun entry => (entry.1.named naming, entry.2.named naming)).map
        Prod.fst = (entries.map Prod.fst).map (Value.named naming) := by
      simp only [List.map_map, Function.comp_def]
    simp only [Value.named, toBytes, entriesNamed_eq, keys, bytesOfItems_named]
  | record name fields =>
    simp only [Value.named, toBytes, fieldsNamed_eq, List.length_map, recordMisuse_named]
  | _ => rfl

end Seen

mutual

/-- **Equality** with a given value does not depend on names: a list or a stream equals nothing. -/
theorem same_named : ∀ left right : Value, left.same (right.named naming) = left.same right
  | .tuple left, right => by
    cases right with
    | tuple right => simp only [named, same, itemsNamed_eq, sameItems_named left right]
    | _ => rfl
  | .member leftType leftName value integral, right => by
    cases integral <;> cases right <;> rfl
  | .none, right | .bool _, right | .int _, right | .float _, right | .text _, right
  | .bytes _, right | .list _, right | .dict _, right | .array _ _, right | .record _ _, right
  | .tagged _ _, right | .object _ _, right | .stream _, right => by
    cases right <;> rfl

theorem sameItems_named : ∀ left right : List Value,
    sameItems left (right.map (named naming)) = sameItems left right
  | [], [] => rfl
  | [], _ :: _ => rfl
  | _ :: _, [] => rfl
  | left :: leftRest, right :: rightRest => by
    simp only [List.map_cons, sameItems, same_named left right, sameItems_named leftRest rightRest]

end

end Value

end WireProgram
