/-
**Registered types: enumerations, classes and messages.**

* `Enumeration.find?` looks a member up by its value;
* `TypeEntry.construct` and `TypeEntry.constructNamed` make a value of a registered type from items
  or from named fields;
* `MessageType` is a program under a name, with the ways in which it can be entered.
-/

import WireProgram.Config
import WireProgram.Program

namespace WireProgram

/-! ### Enumerations and classes -/

/-- An enumeration with its members in order. -/
structure Enumeration where
  name : String
  members : List (String × Value)
  /-- Whether its members serve as integers. -/
  integral : Bool := false
  deriving Inhabited

/-- The first member with a value: later ones of the same value are other names of it. -/
def Enumeration.find? (enumeration : Enumeration) (value : Value) : Option Value :=
  (enumeration.members.find? fun entry => entry.2.same value).map fun entry =>
    .member enumeration.name entry.1 entry.2 enumeration.integral

/-- The member that a value stands for. An array of one element stands for that element. -/
def Enumeration.ofValue (enumeration : Enumeration) (value : Value) : Except Fault Value :=
  let found := match value with
    | .member _ _ inner false =>
      if (enumeration.find? inner).elim false fun member => member.same value then some value
      else none
    | .array _ [item] => enumeration.find? item.toValue
    | value => enumeration.find? value
  match found with
  | some member => .ok member
  | none => .error (.misuse .wrongValue)

/-- A class of objects with named fields. -/
structure ObjectClass where
  name : String
  fields : List String
  deriving Inhabited

/-- The object whose fields are given in order. -/
def ObjectClass.ofItems (objectClass : ObjectClass) (items : List Value) : Except Fault Value :=
  if items.length = objectClass.fields.length then
    .ok (.object objectClass.name (objectClass.fields.zip items))
  else .error (.misuse .wrongType)

/-- The object whose fields are given by name, each exactly once. -/
def ObjectClass.ofFields (objectClass : ObjectClass) (fields : List (String × Value)) :
    Except Fault Value :=
  if fields.length = objectClass.fields.length then
    match objectClass.fields.mapM fun name => (fields.lookup name).map (name, ·) with
    | some ordered => .ok (.object objectClass.name ordered)
    | none => .error (.misuse .wrongType)
  else .error (.misuse .wrongType)

/-! ### Messages -/

/-- The ways in which a message can be entered. -/
inductive EntryPoint where
  | blocking
  | suspending
  /-- In place, over a stream of the caller. -/
  | inPlace
  deriving DecidableEq, Inhabited

/-- The name of an entry point. -/
def EntryPoint.name : EntryPoint → String
  | .blocking => "decode_sync"
  | .suspending => "decode_async"
  | .inPlace => "decode_steps"

/-- The entry point of a way of reading. -/
def Execution.entryPoint : Execution → EntryPoint
  | .blocking => .blocking
  | .suspending => .suspending

/-- A program under a name. -/
structure MessageType where
  name : String
  program : Program
  /-- The settings for a run that brings none. -/
  config : Config := {}
  /-- The entry points that are closed. -/
  hidden : List EntryPoint := []
  /-- Whether the program sees no registered types at all. -/
  standalone : Bool := false
  deriving Inhabited

/-- Whether a message can be entered at a point. -/
def MessageType.exposes (message : MessageType) (entry : EntryPoint) : Bool :=
  !message.hidden.contains entry

/-! ### The registry -/

/-- A registered type. -/
inductive TypeEntry where
  | enumeration (enumeration : Enumeration)
  | objectClass (objectClass : ObjectClass)
  | message (message : MessageType)
  deriving Inhabited

/-- The registered types by name. -/
abbrev Types := List (String × TypeEntry)

/-- The type of a name. -/
def Types.require (types : Types) (name : Json) : Except Fault TypeEntry := do
  match ← findNamed (types.lookup ·) name with
  | some entry => return entry
  | none => throw (.program (.unregisteredType name))

namespace TypeEntry

/-- Whether a type can be entered at a point, as only messages can. -/
def exposes (entry : TypeEntry) (point : EntryPoint) : Bool :=
  match entry with
  | .message named => named.exposes point
  | _ => false

/-- Whether a type is an enumeration. -/
def isEnumeration : TypeEntry → Bool
  | .enumeration _ => true
  | _ => false

/-- The name of the class of an enumeration or of objects. -/
def className? : TypeEntry → Option String
  | .enumeration named => some named.name
  | .objectClass named => some named.name
  | .message _ => none

/--
The value of a type made from items. An enumeration takes the value of a member, and nothing else
unless it is none; a message cannot be made.
-/
def construct (entry : TypeEntry) (items : List Value) : Except Fault Value :=
  match entry, items with
  | .enumeration named, [value] => named.ofValue value
  | .enumeration named, [value, .none] => named.ofValue value
  | .enumeration _, _ => .error (.misuse .wrongType)
  | .objectClass named, items => named.ofItems items
  | .message _, _ => .error (.misuse .wrongType)

/-- The value of a type made from fields named by strings, no name coming twice. -/
def constructNamed (entry : TypeEntry) (fields : List (String × Value)) : Except Fault Value :=
  match entry with
  | .enumeration named =>
    match fields with
    | [("value", value)] => named.ofValue value
    | _ => .error (.misuse .wrongType)
  | .objectClass named => named.ofFields fields
  | .message _ => .error (.misuse .wrongType)

end TypeEntry

end WireProgram
