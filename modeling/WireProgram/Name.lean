/-
**Names: what a program calls things by.**

A program keeps a name as its document writes it. In a table by strings only a string can name
something: any other scalar names nothing. In a table by names two spellings of one number are one
name. An array or an object cannot be looked up at all. The main definitions:

* `Json.name?` is the string of a name, and `findNamed` looks a name up in a table by strings;
* `Json.requireSlot` is what a name addresses in a table by names, `findField` looks it up there,
  and `mergeFields` keeps one field of each name;
* `sortFields` puts fields in the order of their names, and `Json.toKey` is a name as a key of an
  object.
-/

import WireProgram.Fault
import WireProgram.Json.Number
import WireProgram.Json.Printer

namespace WireProgram

/-- A string is a name. -/
instance : Coe String Json := ⟨.string⟩

/-! ### Tables by strings -/

/-- The string of a name, if it is one. -/
def Json.name? : Json → Except Fault (Option String)
  | .string name => .ok (some name)
  | .array _ | .object _ => .error (.misuse .wrongType)
  | _ => .ok none

/-- What a table by strings gives for a name. -/
def findNamed {α : Type} (table : String → Option α) (name : Json) : Except Fault (Option α) :=
  name.name?.map fun found => found.bind table

/-! ### Tables by names -/

/-- What a name addresses in a table. -/
def Json.requireSlot (name : Json) : Except Fault Slot :=
  match name.slot? with
  | some slot => .ok slot
  | none => .error (.misuse .wrongType)

/-- What fields hold under a name. -/
def findField {α : Type} (fields : List (Json × α)) (name : Json) : Except Fault (Option α) := do
  let slot ← name.requireSlot
  return (fields.find? fun field => field.1.slot? = some slot).map Prod.snd

/-- One field of each name: of several the last value, under the first one's name and place. -/
def mergeFields {α : Type} (fields : List (Json × α)) : Except Fault (List (Json × α)) := do
  let slotted ← fields.mapM fun field => return (← field.1.requireSlot, field)
  return (tableOf slotted).map fun entry =>
    (((slotted.lookup entry.1).getD entry.2).1, entry.2.2)

/-! ### Order and keys -/

/-- Whether a name comes before another one. Only strings and only numbers have an order. -/
def Json.isBefore : Json → Json → Except Fault Bool
  | .string left, .string right => .ok (left < right)
  | left, right =>
    if left.isNumber && right.isNumber then .ok (left.isLess right)
    else .error (.misuse .wrongType)

/-- Puts a field before the first one whose name does not come before its own. -/
def insertField {α : Type} (field : Json × α) : List (Json × α) → Except Fault (List (Json × α))
  | [] => .ok [field]
  | other :: rest => do
    if ← other.1.isBefore field.1 then return other :: (← insertField field rest)
    else return field :: other :: rest

/-- The fields in the order of their names. -/
def sortFields {α : Type} : List (Json × α) → Except Fault (List (Json × α))
  | [] => .ok []
  | field :: rest => do insertField field (← sortFields rest)

/-- A name as a key of an object. -/
def Json.toKey : Json → Except Fault String
  | .string text => .ok text
  | .null => .ok "null"
  | .bool value => .ok (if value then "true" else "false")
  | .int value => .ok (toString value)
  | .float value => .ok (documentLayout.render value)
  | .array _ | .object _ => .error (.misuse .wrongType)

end WireProgram
