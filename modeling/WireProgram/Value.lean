/-
**Decoded values.**

A list can grow while others refer to it, so a value holds the number of its cell; the items of all
lists are in one table. All other values are what they are. The main definitions:

* `Value` and `Lists`, the table of the items of lists;
* `Value.typeName`, the name of a value's type in messages;
* `Value.toInteger?`, `Value.truth`, `Value.length` and `Value.toBytes`, the four ways in which the
  instructions use a value;
* `Value.same`, the equality that enumerations look values up by.
-/

import WireProgram.Primitive
import WireProgram.Stream.View
import WireProgram.Table

namespace WireProgram

/-- A decoded value. -/
inductive Value where
  | none
  | bool (value : Bool)
  | int (value : Int)
  | float (value : Binary64)
  | text (value : String)
  | bytes (content : Bytes)
  /-- A list, by the cell that holds its items. -/
  | list (cell : Nat)
  | tuple (items : List Value)
  | dict (entries : List (Value × Value))
  /-- Scalars of one type. -/
  | array (element : Primitive) (items : List Scalar)
  /-- Named fields under a name. -/
  | record (name : Json) (fields : List (Json × Value))
  /-- Items under a name. -/
  | tagged (name : Json) (items : List Value)
  /-- A member of an enumeration; that of an integral one also serves as an integer. -/
  | member (enumeration name : String) (value : Value) (integral : Bool)
  /-- An object of a registered class. -/
  | object (className : String) (fields : List (String × Value))
  /-- A stream. -/
  | stream (view : View)
  deriving Inhabited

/-- The items of all lists. -/
abbrev Lists := Table (List Value)

/-- The value of a scalar. -/
def Scalar.toValue : Scalar → Value
  | .bool value => .bool value
  | .int value => .int value
  | .float value => .float value

namespace Value

/-- The name of the type of a value. -/
def typeName : Value → String
  | .none => "NoneType"
  | .bool _ => "bool"
  | .int _ => "int"
  | .float _ => "float"
  | .text _ => "str"
  | .bytes _ => "bytes"
  | .list _ => "list"
  | .tuple _ => "tuple"
  | .dict _ => "dict"
  | .array _ _ => "ndarray"
  | .record _ _ => "Record"
  | .tagged _ _ => "Tagged"
  | .member enumeration _ _ _ => enumeration
  | .object className _ => className
  | .stream view => view.typeName

/-- The integer that a value serves as: integers, truth values and integral members. -/
def toInteger? : Value → Option Int
  | .int value => some value
  | .bool value => some (if value then 1 else 0)
  | .member _ _ value true => value.toInteger?
  | _ => Option.none

/-- Whether a scalar is true. -/
def scalarTruth : Scalar → Bool
  | .bool value => value
  | .int value => value ≠ 0
  | .float value => !value.isZero

/--
Whether a value is true as a condition: none, zero and what is empty are false. An array must have
at most one element, and is true if that one is.
-/
def truth (lists : Lists) : Value → Except Fault Bool
  | .none => .ok false
  | .bool value => .ok value
  | .int value => .ok (value ≠ 0)
  | .float value => .ok (!value.isZero)
  | .text value => .ok (!value.isEmpty)
  | .bytes content => .ok (!content.isEmpty)
  | .list cell => .ok (!(lists.get cell).isEmpty)
  | .tuple items => .ok (!items.isEmpty)
  | .dict entries => .ok (!entries.isEmpty)
  | .array _ [] => .ok false
  | .array _ [item] => .ok (scalarTruth item)
  | .array _ _ => .error (.misuse .wrongValue)
  | .member _ _ value true =>
    match value.toInteger? with
    | some whole => .ok (whole ≠ 0)
    | Option.none => .ok true
  | .member _ _ _ false | .record _ _ | .tagged _ _ | .object _ _ | .stream _ => .ok true

/-- The number of characters, bytes, items or entries of a value. -/
def length (lists : Lists) : Value → Except Fault Nat
  | .text value => .ok value.length
  | .bytes content => .ok content.length
  | .list cell => .ok (lists.get cell).length
  | .tuple items => .ok items.length
  | .dict entries => .ok entries.length
  | .array _ items => .ok items.length
  | _ => .error (.misuse .wrongType)

/-- The bytes with given values. -/
def bytesOfItems : List Value → Except Fault Bytes
  | [] => .ok []
  | item :: rest =>
    match item.toInteger? with
    | Option.none => .error (.misuse .wrongType)
    | some whole =>
      if 0 ≤ whole ∧ whole < 256 then
        (bytesOfItems rest).map (UInt8.ofNat whole.toNat :: ·)
      else .error (.misuse .wrongValue)

/--
Why a record is not a byte string. It is asked for the fields named zero, one and so on as if they
were items, and sooner or later one is missing; the fuel is the number of fields.
-/
def recordMisuse (fields : List (Json × Value)) : (fuel : Nat) → (index : Nat) → MisuseFault
  | 0, index => .missingKey (toString index)
  | fuel + 1, index =>
    match fields.find? fun field => field.1.slot? = some (.index index) with
    | Option.none => .missingKey (toString index)
    | some field =>
      match field.2.toInteger? with
      | Option.none => .wrongType
      | some whole =>
        if 0 ≤ whole ∧ whole < 256 then recordMisuse fields fuel (index + 1) else .wrongValue

/-- The bounds of the counts of bytes that are counts at all. -/
def byteCountLimit : Int := Nat.pow 2 63

/-- The number of bytes that stand in front of a byte string. -/
def byteStringHead : Int := 33

/-- The number of bytes that there is room for. -/
def byteRoom : Int := Nat.pow 2 40

/--
A value as a byte string: so many zeros for an integer, the items of a list, tuple or dictionary as
byte values, the memory of an array. More zeros than `enough` are as good as `enough`, and are not
made.
-/
def toBytes (lists : Lists) (enough : Nat) : Value → Except Fault Bytes
  | .bytes content => .ok content
  | .list cell => bytesOfItems (lists.get cell)
  | .tuple items => bytesOfItems items
  | .dict entries => bytesOfItems (entries.map Prod.fst)
  | .array element items => .ok (items.flatMap element.memory)
  | .record _ fields => .error (.misuse (recordMisuse fields fields.length 0))
  | value =>
    match value.toInteger? with
    | some whole =>
      if whole < -byteCountLimit ∨ byteCountLimit - byteStringHead ≤ whole then
        .error (.misuse .tooManyBytes)
      else if whole < 0 then .error (.misuse .wrongValue)
      else if byteRoom ≤ whole then .error (.misuse .noRoom)
      else .ok (List.replicate (min whole.toNat enough) 0)
    | Option.none => .error (.misuse .wrongType)

/-- The number that a value equals, as an integer if it is a whole one. -/
def number? (value : Value) : Option (Int ⊕ Binary64) :=
  match value with
  | .float number =>
    match number.toInt? with
    | some whole => some (.inl whole)
    | Option.none => if number.isNaN then Option.none else some (.inr number)
  | value => value.toInteger?.map .inl

mutual

/-- Whether two values are equal, numbers by their value. -/
def same : Value → Value → Bool
  | .none, .none => true
  | .text left, .text right => left = right
  | .bytes left, .bytes right => left = right
  | .tuple left, .tuple right => sameItems left right
  | .member leftType leftName _ false, .member rightType rightName _ false =>
    leftType = rightType && leftName = rightName
  | left, right =>
    match left.number?, right.number? with
    | some leftNumber, some rightNumber => leftNumber = rightNumber
    | _, _ => false

/-- Whether two lists of values are equal item by item. -/
def sameItems : List Value → List Value → Bool
  | [], [] => true
  | left :: leftRest, right :: rightRest => same left right && sameItems leftRest rightRest
  | _, _ => false

end

end Value

end WireProgram
