/-
**Decoded values as documents.**

A report writes records and tagged values as objects, members of enumerations by name, byte strings
in hexadecimal and arrays as lists. A dictionary is passed on as it is, so that it must hold nothing
but plain values. The main definitions:

* `Value.toReport` writes a value;
* `Value.toPlain` writes a value inside a dictionary;
* `recordItem` and `recordTable` look into a record.

Lists are followed through their cells; the fuel bounds how deep they nest.
-/

import WireProgram.Name
import WireProgram.Value

namespace WireProgram

/-- The document of a scalar. -/
def Scalar.toJson : Scalar → Json
  | .bool value => .bool value
  | .int value => .int value
  | .float value => .float value

/-- The document of a value that is none, a number or a text. -/
def Value.toScalarJson : Value → Except Fault Json
  | .none => .ok .null
  | .bool value => .ok (.bool value)
  | .float value => .ok (.float value)
  | .text content => .ok (.string content)
  | value =>
    match value.toInteger? with
    | some whole => .ok (.int whole)
    | Option.none => .error (.misuse .wrongType)

/-- A value as it stands inside a dictionary. -/
def Value.toPlain (lists : Lists) : (fuel : Nat) → Value → Except Fault Json
  | 0, _ => .error (.misuse .nestingTooDeep)
  | fuel + 1, value =>
    match value with
    | .list cell => ((lists.get cell).mapM (toPlain lists fuel)).map .array
    | .tuple items => (items.mapM (toPlain lists fuel)).map .array
    | .dict entries =>
      let plainEntry := fun entry : Value × Value => do
        let key ← entry.1.toScalarJson
        return (← key.toKey, ← toPlain lists fuel entry.2)
      (entries.mapM plainEntry).map .object
    | value => value.toScalarJson

/-- A value as a document. Of fields with one name the last one counts, at the first one's place. -/
def Value.toReport (lists : Lists) : (fuel : Nat) → Value → Except Fault Json
  | 0, _ => .error (.misuse .nestingTooDeep)
  | fuel + 1, value =>
    match value with
    | .record name fields => do
      let entries ← (← mergeFields fields).mapM fun field => do
        return (← field.1.toKey, ← toReport lists fuel field.2)
      return .object [(← name.toKey, .object entries)]
    | .tagged name items => do
      return .object [(← name.toKey, .array (← items.mapM (toReport lists fuel)))]
    | .member _ name _ _ => .ok (.string name)
    | .array _ items => .ok (.array (items.map Scalar.toJson))
    | .bytes content => .ok (.string (Bytes.toHex content))
    | .list cell => ((lists.get cell).mapM (toReport lists fuel)).map .array
    | .tuple items => (items.mapM (toReport lists fuel)).map .array
    | .object _ fields => do
      let entries ← fields.mapM fun field => do
        return (field.1, ← toReport lists fuel field.2)
      return .object (tableOf entries)
    | value => value.toPlain lists (fuel + 1)

mutual

/-- The number of nested levels of a value, a list counting as one. -/
def Value.levels : Value → Nat
  | .tuple items => levelsOfItems items + 1
  | .dict entries => levelsOfEntries entries + 1
  | .record _ fields => levelsOfRecord fields + 1
  | .tagged _ items => levelsOfItems items + 1
  | .object _ fields => levelsOfFields fields + 1
  | _ => 1

/-- The greatest number of levels of a list of values. -/
def levelsOfItems : List Value → Nat
  | [] => 0
  | item :: rest => max item.levels (levelsOfItems rest)

/-- The greatest number of levels of the entries of a dictionary. -/
def levelsOfEntries : List (Value × Value) → Nat
  | [] => 0
  | (key, value) :: rest => max (max key.levels value.levels) (levelsOfEntries rest)

/-- The greatest number of levels of the fields of a record. -/
def levelsOfRecord : List (Json × Value) → Nat
  | [] => 0
  | (_, value) :: rest => max value.levels (levelsOfRecord rest)

/-- The greatest number of levels of the fields of an object. -/
def levelsOfFields : List (String × Value) → Nat
  | [] => 0
  | (_, value) :: rest => max value.levels (levelsOfFields rest)

end

/-- How deep a value can nest if no list contains itself: each list is passed at most once. -/
def nestingBound (lists : Lists) (value : Value) : Nat :=
  lists.cells.toList.foldr (fun items total => levelsOfItems items + 1 + total) (value.levels + 1)

/-- The report of a value. -/
def Value.report (lists : Lists) (value : Value) : Except Fault Json :=
  value.toReport lists (nestingBound lists value)

/-! ### Records -/

/-- The first field of a record with a name. -/
def recordItem (fields : List (Json × Value)) (name : String) : Except Fault Value :=
  match fields.find? fun field => field.1.slot? = some (.word name) with
  | some field => .ok field.2
  | none => .error (.misuse (.missingKey name))

/-- The value of a document that is a scalar. -/
def Json.scalarValue : Json → Value
  | .bool value => .bool value
  | .int value => .int value
  | .float value => .float value
  | .string text => .text text
  | .null | .array _ | .object _ => .none

/-- The fields of a record as a dictionary. -/
def recordTable (fields : List (Json × Value)) : Except Fault Value := do
  return .dict ((← mergeFields fields).map fun field => (field.1.scalarValue, field.2))

end WireProgram
