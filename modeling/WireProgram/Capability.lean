/-
**Capabilities: what programs call by name.**

A program names transforms of streams, foreign types and functions. A capability is what a name
stands for: it carries a name of its own, which messages and documents give, and its action. The
main definitions:

* `Transform.wrap` opens a view over another one;
* `ForeignType.decode` reads a value from a view;
* `Function.call` computes a value from others.
-/

import WireProgram.Codec
import WireProgram.Stream
import WireProgram.Text.Utf8
import WireProgram.Text.Utf16
import WireProgram.Value

namespace WireProgram

/-! ### Transforms -/

/-- What a transform does with a stream. -/
inductive TransformAction where
  /-- Decodes text in the alphabet of sixty-four characters. -/
  | base64
  /-- Decodes a compressed member. -/
  | gzip
  /-- Nothing. -/
  | identity
  /-- Bounds the stream to its first bytes. -/
  | head
  /-- Combines every byte with a key. -/
  | xor
  /-- Passes on a block of bytes and marks an early end. -/
  | block
  deriving DecidableEq, Inhabited

/-- A transform of streams. -/
structure Transform where
  name : String
  action : TransformAction
  deriving DecidableEq, Inhabited

/-- A computation that does not touch the streams. -/
def StreamStep.ofExcept {α : Type} (result : Except Fault α) : StreamStep Codec α :=
  ExceptT.mk fun streams => (result, streams)

/-- Opens a new view over a stream. -/
def openedBy (make : Streams Codec → View × Streams Codec) : StreamStep Codec View :=
  ExceptT.mk fun streams => ((.ok (make streams).1 : Except Fault View), (make streams).2)

/-- The first argument of a transform, as an integer. -/
def firstInteger (arguments : List Value) : Except Fault Int :=
  match arguments with
  | [] => .error (.misuse .missingArgument)
  | argument :: _ =>
    match argument.toInteger? with
    | some value => .ok value
    | none => .error (.misuse .wrongType)

/-- The view of a stream that a transform makes. The codecs of text and members take no argument. -/
def Transform.wrap (transform : Transform) (stream : View) (arguments : List Value) :
    StreamStep Codec View := do
  match transform.action with
  | .base64 =>
    if arguments.isEmpty then openedBy fun streams => streams.openTransformed stream (.base64 [])
    else throw (.program (.transformArguments transform.name arguments.length))
  | .gzip =>
    if arguments.isEmpty then
      openedBy fun streams => streams.openTransformed stream (.gzip {} none)
    else throw (.program (.transformArguments transform.name arguments.length))
  | .identity => return stream
  | .head =>
    let limit ← StreamStep.ofExcept (firstInteger arguments)
    openedBy fun streams => streams.openTake stream limit
  | .xor =>
    let key ← StreamStep.ofExcept (firstInteger arguments)
    openedBy fun streams => streams.openTransformed stream (.xor key)
  | .block =>
    let left ← StreamStep.ofExcept (firstInteger arguments)
    openedBy fun streams => streams.openTransformed stream (.block left)

/-! ### Foreign types -/

/-- What a foreign type reads. -/
inductive ForeignAction where
  /-- A variable-length integer of so many bits. -/
  | varint (bits : Nat)
  /-- Text in the encoding of one to four bytes a character. -/
  | utf8
  /-- Text in units of two bytes. -/
  | utf16
  /-- Bytes as they are. -/
  | raw
  /-- Pending bytes, which stay unread. -/
  | peek
  /-- Nothing; the value is the name of the mode of the run. -/
  | mode
  deriving DecidableEq, Inhabited

/-- A foreign type. -/
structure ForeignType where
  name : String
  action : ForeignAction
  deriving DecidableEq, Inhabited

/-- The greatest number of bytes of a variable-length integer: seven bits are in each. -/
def varintLimit (bits : Nat) : Nat :=
  (bits + 6) / 7

/-- Reads the groups of seven bits of an integer, least significant first. -/
def readGroups (name : String) (bits : Nat) (view : View) :
    (left : Nat) → (index total : Nat) → StreamStep Codec Value
  | 0, _, _ => throw (.decode (.varintTooLong name (varintLimit bits)))
  | left + 1, index, total => do
    let bytes ← view.readExact 1
    let byte := (bytes.headD 0).toNat
    let total := total + byte % 128 * Nat.pow 2 (7 * index)
    if 128 ≤ byte then readGroups name bits view left (index + 1) total
    else if total < Nat.pow 2 bits then return .int (twosComplement bits total)
    else throw (.decode (.varintOverflow name bits))

/-- The length that the arguments of a text type give, if they give one. -/
def textLength? (name : String) : List Value → Except Fault (Option Nat)
  | [] => .ok none
  | [argument] =>
    match argument.toInteger? with
    | none => .error (.decode (.lengthNotInteger name))
    | some length =>
      if length < 0 then .error (.decode (.lengthNegative name length))
      else .ok (some length.toNat)
  | arguments => .error (.program (.lengthArguments name arguments.length))

/-- Reads so many bytes, or all there are. -/
def readLength (view : View) : Option Nat → StreamStep Codec Bytes
  | none => view.readToEnd
  | some length => view.readExact length

/-- Reads a value from a view. -/
def ForeignType.decode (foreign : ForeignType) (view : View) (arguments : List Value)
    (mode : String) : StreamStep Codec Value := do
  match foreign.action with
  | .varint bits =>
    if arguments.isEmpty then readGroups foreign.name bits view (varintLimit bits) 0 0
    else throw (.program (.typeArguments foreign.name arguments.length))
  | .utf8 =>
    let length ← StreamStep.ofExcept (textLength? foreign.name arguments)
    let bytes ← readLength view length
    match Utf8.decode bytes with
    | .ok chars => return .text (String.ofList chars)
    | .error fault => throw (.decode (.malformedUtf8 fault))
  | .utf16 =>
    let length ← StreamStep.ofExcept (textLength? foreign.name arguments)
    let bytes ← readLength view (length.map (· * 2))
    match Utf16.decode bytes with
    | .ok chars => return .text (String.ofList chars)
    | .error fault => throw (.decode (.malformedUtf16 fault))
  | .raw =>
    match arguments with
    | [] => return .bytes (← view.readToEnd)
    | argument :: _ =>
      match argument.toInteger? with
      | some count => return .bytes (← view.readExact count)
      | none => throw (.misuse .wrongType)
  | .peek =>
    match arguments with
    | [] => return .bytes (← view.fillBuf 1)
    | [argument] =>
      match argument.toInteger? with
      | some want => return .bytes (← view.fillBuf want.toNat)
      | none => throw (.misuse .wrongType)
    | _ => throw (.misuse .wrongType)
  | .mode => return .text mode

/-! ### Functions -/

/-- What a function computes. -/
inductive FunctionAction where
  /-- The length of a value. -/
  | length
  /-- The bytes that round a number up to a multiple of another. -/
  | padding
  /-- A tuple of the arguments. -/
  | tuple
  /-- A new list of the arguments. -/
  | list
  /-- The sum of integers. -/
  | sum
  /-- Nothing: it refuses all arguments. -/
  | refuse
  deriving DecidableEq, Inhabited

/-- A function. -/
structure Function where
  name : String
  action : FunctionAction
  deriving DecidableEq, Inhabited

/-- A value used as an integer. -/
def integerOf (value : Value) : Except Fault Int :=
  match value.toInteger? with
  | some whole => .ok whole
  | none => .error (.misuse .wrongType)

/-- The bytes from a number up to the next multiple of an alignment. -/
def paddingOf (value alignment : Int) : Int :=
  (-value) % alignment

/-- The value of a function at some arguments. Only a new list changes the lists. -/
def Function.call (function : Function) (arguments : List Value) (lists : Lists) :
    Except Fault (Value × Lists) := do
  match function.action with
  | .length =>
    match arguments with
    | [argument] => return (.int (← argument.length lists), lists)
    | _ => throw (.program (.functionArguments function.name 1 arguments.length))
  | .padding =>
    match arguments with
    | [first, second] =>
      let value ← integerOf first
      let alignment ← integerOf second
      if alignment ≤ 0 then throw (.program (.alignment alignment))
      else return (.int (paddingOf value alignment), lists)
    | _ => throw (.program (.functionArguments function.name 2 arguments.length))
  | .tuple => return (.tuple arguments, lists)
  | .list => return (.list lists.size, lists.push arguments)
  | .sum =>
    let values ← arguments.mapM integerOf
    return (.int (values.foldr (· + ·) 0), lists)
  | .refuse => throw (.decode .refusedByFunction)

end WireProgram
