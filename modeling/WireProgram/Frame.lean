/-
**Frames: the registers that a block sees.**

A frame is a scope within its enclosing scopes. A block reads through to the enclosing scopes and
writes only to its own, and a register that is visible cannot be written again. Main definitions:

* `Scope`, the registers that one block wrote and the reader that it brought;
* `Frame` with `Frame.get`, `Frame.set`, `Frame.child`, `Frame.reader` and `Frame.target`.
-/

import WireProgram.Program

namespace WireProgram

/-- What one block brought: a reader, and the registers that it wrote. -/
structure Scope where
  reader : Option View := none
  slots : List (Slot × Value) := []
  deriving Inhabited

/-- A scope within its enclosing scopes, innermost first. -/
structure Frame where
  scope : Scope := {}
  enclosing : List Scope := []
  deriving Inhabited

namespace Frame

/-- The scopes of a frame, innermost first. -/
def scopes (frame : Frame) : List Scope :=
  frame.scope :: frame.enclosing

/-- The number of enclosing scopes. -/
def depth (frame : Frame) : Nat :=
  frame.enclosing.length

/-- The value of a slot in the innermost scope that has one. -/
def find? (frame : Frame) (slot : Slot) : Option Value :=
  frame.scopes.findSome? fun scope => scope.slots.lookup slot

/-- The slot of a register; a register that addresses none cannot be used. -/
def slotOf (register : Register) : Except Fault Slot :=
  match register.slot? with
  | some slot => .ok slot
  | none => .error (.misuse .wrongType)

/-- The value of a register. -/
def get (frame : Frame) (register : Register) : Except Fault Value := do
  let slot ← slotOf register
  match frame.find? slot with
  | some value => return value
  | none => throw (.program (.notPopulated register))

/-- The values of registers, in order. -/
def getMany (frame : Frame) (registers : List Register) : Except Fault (List Value) :=
  registers.mapM frame.get

/-- Writes a register that is not visible yet. -/
def set (frame : Frame) (register : Register) (value : Value) : Except Fault Frame := do
  let slot ← slotOf register
  match frame.find? slot with
  | some _ => throw (.program (.writtenTwice register))
  | none =>
    return { frame with scope := { frame.scope with slots := (slot, value) :: frame.scope.slots } }

/-- A frame for a nested block, which may bring a reader and rebind streams. -/
def child (frame : Frame) (reader : Option View) (slots : List (Slot × Value)) : Frame :=
  ⟨⟨reader, slots⟩, frame.scopes⟩

/-- The innermost reader. -/
def reader (frame : Frame) : Except Fault View :=
  match frame.scopes.findSome? Scope.reader with
  | some view => .ok view
  | none => .error (.program .noReader)

/-- Replaces the reader of the innermost scope. -/
def bindReader (frame : Frame) (view : View) : Frame :=
  { frame with scope := { frame.scope with reader := some view } }

/-- The stream in a register. -/
def streamIn (frame : Frame) (register : Register) : Except Fault View := do
  match ← frame.get register with
  | .stream view => return view
  | value => throw (.program (.notStream register value.typeName))

/-- The stream that an instruction reads now. -/
def target (frame : Frame) : Target → Except Fault View
  | .direct => frame.reader
  | .stream register => frame.streamIn register
  | .buffer register => frame.streamIn register

end Frame

end WireProgram
