/-
**Constants after a run.**

A constant list is one list however often its program runs, and a run may add to it. The document of
a program after some runs shows the lists as they are then.

* `literalOf` gives the constant that a value is now;
* `Program.present` is a program with the constants that its lists hold now.
-/

import WireProgram.Program
import WireProgram.Report
import WireProgram.Run.Compute

namespace WireProgram

/-- The name under which an entry of a dictionary is written. -/
def literalKey : Value → String
  | .text name => name
  | _ => ""

/-- The constant that a value is now; the fuel bounds how deep lists nest. -/
def literalOf (lists : Lists) : (fuel : Nat) → Value → Literal
  | 0, _ => .null
  | fuel + 1, value =>
    match value with
    | .none => .null
    | .bool value => .bool value
    | .int value => .int value
    | .float value => .float value
    | .text value => .string value
    | .bytes content => .bytes content
    | .list cell => .list cell ((lists.get cell).map (literalOf lists fuel))
    | .tuple items => .list lists.size (items.map (literalOf lists fuel))
    | .dict entries =>
      .dict (entries.map fun entry => (literalKey entry.1, literalOf lists fuel entry.2))
    | value => value.toInteger?.elim .null .int

/-- A constant with the items that its lists hold now. -/
def Literal.present (lists : Lists) (literal : Literal) : Literal :=
  literalOf lists (nestingBound lists literal.toValue) literal.toValue

mutual

/-- An expression with the constants that its lists hold now. -/
def Expression.present (lists : Lists) : Expression → Expression
  | .field name => .field name
  | .constant literal => .constant (literal.present lists)
  | .call function arguments => .call function (presentAll lists arguments)

/-- Expressions with the constants that their lists hold now. -/
def presentAll (lists : Lists) : List Expression → List Expression
  | [] => []
  | expression :: rest => expression.present lists :: presentAll lists rest

end

mutual

/-- An instruction with the constants that its lists hold now. -/
def Instruction.present (lists : Lists) : Instruction → Instruction
  | .eval target expression => .eval target (expression.present lists)
  | .conditionalWrapStream condition prelude stream newStream transform arguments =>
    .conditionalWrapStream condition (presentBlock lists prelude) stream newStream transform
      arguments
  | .loop target stop terminator output body =>
    .loop target stop terminator output (presentBlock lists body)
  | .conditional target interior condition body =>
    .conditional target interior condition (presentBlock lists body)
  | instruction => instruction

/-- A block with the constants that its lists hold now. -/
def presentBlock (lists : Lists) : List Instruction → List Instruction
  | [] => []
  | instruction :: rest => instruction.present lists :: presentBlock lists rest

end

/-- A program with the constants that its lists hold now. -/
def Program.present (program : Program) (lists : Lists) : Program :=
  { program with instructions := presentBlock lists program.instructions }

end WireProgram
