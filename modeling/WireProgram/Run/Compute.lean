/-
**Computing values without input.**

* `Literal.toValue` gives the value of a constant;
* `Expression.evaluate` computes an expression;
* `Constructable.build` puts a value together from registers;
* `countOf` reads a value as a count.
-/

import WireProgram.Frame
import WireProgram.Types

namespace WireProgram

/-! ### Constants and expressions -/

mutual

/-- The value of a constant; a list is the one in its cell. -/
def Literal.toValue : Literal → Value
  | .null => .none
  | .bool value => .bool value
  | .int value => .int value
  | .float value => .float value
  | .string value => .text value
  | .bytes content => .bytes content
  | .list cell _ => .list cell
  | .dict entries => .dict (literalEntries entries)

/-- The entries of a constant dictionary. -/
def literalEntries : List (String × Literal) → List (Value × Value)
  | [] => []
  | (key, literal) :: rest => (.text key, literal.toValue) :: literalEntries rest

end

mutual

/-- Computes an expression; the values of fields are given. -/
def Expression.evaluate (field : Json → Except Fault Value) :
    Expression → Lists → Except Fault (Value × Lists)
  | .field name, lists => (field name).map fun value => (value, lists)
  | .constant literal, lists => .ok (literal.toValue, lists)
  | .call function arguments, lists => do
    let (values, lists) ← evaluateAll field arguments lists
    function.call values lists

/-- Computes expressions one after another. -/
def evaluateAll (field : Json → Except Fault Value) :
    List Expression → Lists → Except Fault (List Value × Lists)
  | [], lists => .ok ([], lists)
  | expression :: rest, lists => do
    let (value, lists) ← expression.evaluate field lists
    let (values, lists) ← evaluateAll field rest lists
    return (value :: values, lists)

end

/-- The value of a field: that of its register in a frame. -/
def Program.fieldValue (program : Program) (frame : Frame) (name : Json) : Except Fault Value := do
  frame.get (← program.field name)

/-! ### Constructables -/

/-- Fields whose names are strings. -/
def stringNamed? (fields : List (Json × Value)) : Option (List (String × Value)) :=
  fields.mapM fun field =>
    match field.1 with
    | .string name => some (name, field.2)
    | _ => none

/-- Puts a value together. A registered name makes a value of its type. -/
def Constructable.build (types : Types) (frame : Frame) : Constructable → Except Fault Value
  | .tuple items => (frame.getMany items).map .tuple
  | .tagged name items => do
    let values ← frame.getMany items
    match ← findNamed (types.lookup ·) name with
    | some entry => entry.construct values
    | none => return .tagged name values
  | .struct name fields => do
    let values ← fields.mapM fun field => (frame.get field.2).map (field.1, ·)
    match ← findNamed (types.lookup ·) name with
    | some entry =>
      match stringNamed? values with
      | some named => entry.constructNamed (tableOf named)
      | none => throw (.misuse .wrongType)
    | none => return .record name values

/-! ### Counts -/

/-- Reads a value as a count of something. -/
def countOf (what : String) (value : Value) : Except Fault Nat :=
  match value.toInteger? with
  | none => .error (.decode (.countNotInteger what value.typeName))
  | some count =>
    if count < 0 then .error (.decode (.countNegative what count)) else .ok count.toNat

end WireProgram
