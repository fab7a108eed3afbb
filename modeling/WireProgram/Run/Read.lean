/-
**Reading scalars, arrays and members of enumerations.**

* `scalarOfBytes` and `arrayOfBytes` read byte strings;
* `readScalar`, `readArray` and `readMember` read from a view.
-/

import WireProgram.Machine

namespace WireProgram

/-- The scalar type of a name in a program. -/
def requirePrimitive (name : Json) : Except Fault Primitive := do
  match ← findNamed Primitive.ofName? name with
  | some primitive => return primitive
  | none => throw (.program (.unknownPrimitive name))

/-- The scalar of a byte string, which must have its width. -/
def scalarOfBytes (primitive : Primitive) (bytes : Bytes) : Except Fault Value :=
  if bytes.length = primitive.width then .ok (primitive.decode bytes).toValue
  else .error (.decode (.wrongWidth primitive bytes.length))

/-- The scalars of a byte string, which must be a whole number of them. -/
def arrayOfBytes (primitive : Primitive) (bytes : Bytes) : Except Fault Value :=
  if bytes.length % primitive.width = 0 then .ok (.array primitive (primitive.decodeAll bytes))
  else .error (.decode (.partialElement bytes.length primitive))

/-- Reads a scalar. -/
def readScalar (view : View) (name : Json) : Step Value := do
  let primitive ← Step.ofExcept (requirePrimitive name)
  let bytes ← Step.onStreams (view.readExact primitive.width)
  Step.ofExcept (scalarOfBytes primitive bytes)

/-- The text of the warning about a partial element. -/
def partialTailWarning (tail elements : Nat) (primitive : Primitive) : String :=
  "dropping " ++ toString tail ++ " trailing byte(s) after " ++ toString elements ++ " " ++
    primitive.name ++ " elements"

/-- Reads so many scalars, or all there are. A partial element at the end may be dropped. -/
def readArray (view : View) (name : Json) (count : Option Nat) (allowPartialTail : Bool) :
    Step Value := do
  let primitive ← Step.ofExcept (requirePrimitive name)
  match count with
  | some count =>
    let bytes ← Step.onStreams (view.readExact (count * primitive.width : Nat))
    Step.ofExcept (arrayOfBytes primitive bytes)
  | none =>
    let bytes ← Step.onStreams view.readToEnd
    let tail := bytes.length % primitive.width
    if tail ≠ 0 ∧ allowPartialTail then
      Step.warn (partialTailWarning tail (bytes.length / primitive.width) primitive)
      Step.ofExcept (arrayOfBytes primitive (bytes.take (bytes.length - tail)))
    else Step.ofExcept (arrayOfBytes primitive bytes)

/-- Whether a scalar type can back an enumeration: the integers can. -/
def Primitive.isInteger (primitive : Primitive) : Bool :=
  !(primitive = .bool || primitive = .f32 || primitive = .f64)

/-- The value of a registered type that an integer stands for. -/
def TypeEntry.ofDiscriminant (entry : TypeEntry) (value : Int) : Except Fault Value :=
  match entry with
  | .enumeration named =>
    match named.find? (.int value) with
    | some member => .ok member
    | none => .error (.decode (.noVariant named.name value))
  | entry => entry.construct [.int value]

/-- Reads the integer that stands for a member of an enumeration. -/
def readMember (view : View) (entry : TypeEntry) (backing : Json) : Step Value := do
  let primitive ← Step.ofExcept (requirePrimitive backing)
  if primitive.isInteger then
    let bytes ← Step.onStreams (view.readExact primitive.width)
    Step.ofExcept (entry.ofDiscriminant (primitive.integer bytes))
  else
    match entry.className? with
    | some name => throw ⟨.program (.enumerationBacking name primitive), []⟩
    | none => throw ⟨.misuse .noSuchOperation, []⟩

end WireProgram
