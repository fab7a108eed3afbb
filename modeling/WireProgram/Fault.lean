/-
**What can go wrong, by cause.**

A fault names its cause; its wording is made in one place. The main definitions:

* `DecodeFault`, input bytes that cannot be decoded, in four families (`DecodeFamily`);
* `ProgramFault`, a program that is inconsistent;
* `MisuseFault`, an operation on a value or a document that does not support it;
* `Fault`, all of them, with `Fault.message`;
* `Failure`, a fault with the instructions that were being executed.
-/

import WireProgram.Primitive
import WireProgram.Register
import WireProgram.Text.Encoding
import WireProgram.Codec.Base64
import WireProgram.Codec.Gzip

namespace WireProgram

/-! ### Input that cannot be decoded -/

/-- The families of faults of the input. -/
inductive DecodeFamily where
  /-- A fault of none of the other families. -/
  | general
  /-- The source failed or ended too early. -/
  | io
  /-- An integer is not the value of any member of an enumeration. -/
  | discriminant
  /-- Bytes cannot be read as the wanted value. -/
  | conversion
  deriving DecidableEq, Inhabited

/-- Why input bytes cannot be decoded. -/
inductive DecodeFault where
  /-- The body of a loop left the input where it was. -/
  | stalledLoop
  /-- The stream ended before a read was complete. -/
  | shortRead (need held : Nat)
  /-- The raw input reported a failure. -/
  | sourceFailed (reason : String)
  /-- The raw input had nothing to give. -/
  | sourceNotReady
  /-- A compressed member ended too early. -/
  | truncatedMember
  /-- No member of an enumeration has the value. -/
  | noVariant (enumeration : String) (value : Int)
  /-- A count is not an integer. -/
  | countNotInteger (what typeName : String)
  /-- A count is negative. -/
  | countNegative (what : String) (count : Int)
  /-- A scalar got a byte string of another length than its own. -/
  | wrongWidth (primitive : Primitive) (given : Nat)
  /-- A byte string ends inside an element. -/
  | partialElement (bytes : Nat) (primitive : Primitive)
  /-- A variable-length integer does not fit its width. -/
  | varintOverflow (name : String) (bits : Nat)
  /-- A variable-length integer does not end. -/
  | varintTooLong (name : String) (limit : Nat)
  /-- The length of a text is not an integer. -/
  | lengthNotInteger (name : String)
  /-- The length of a text is negative. -/
  | lengthNegative (name : String) (length : Int)
  /-- Bytes are not text in the encoding of one to four bytes a character. -/
  | malformedUtf8 (fault : Text.TextFault)
  /-- Bytes are not text in units of two bytes. -/
  | malformedUtf16 (fault : Text.TextFault)
  /-- Bytes are not text in the alphabet of sixty-four characters. -/
  | malformedBase64 (fault : Base64Fault)
  /-- Bytes are not a compressed member. -/
  | malformedGzip (fault : Gzip.Fault)
  /-- A function refused its arguments. -/
  | refusedByFunction
  deriving DecidableEq, Inhabited

/-- The family of a fault of the input. -/
def DecodeFault.family : DecodeFault → DecodeFamily
  | .stalledLoop => .general
  | .shortRead _ _ | .sourceFailed _ | .sourceNotReady | .truncatedMember => .io
  | .noVariant _ _ => .discriminant
  | _ => .conversion

/-- The wording of a fault of the input. -/
def DecodeFault.message : DecodeFault → String
  | .stalledLoop => "loop body consumed no input; refusing to spin"
  | .shortRead need held =>
    "unexpected end of stream: need " ++ toString need ++ " bytes, have " ++ toString held ++
      " remaining"
  | .sourceFailed reason => "source read failed: " ++ reason
  | .sourceNotReady => "source has no data ready (non-blocking file?)"
  | .truncatedMember => "gzip: compressed stream is truncated"
  | .noVariant enumeration value =>
    "no variant of " ++ enumeration ++ " has discriminant " ++ toString value
  | .countNotInteger what typeName => what ++ " must be an integer, got " ++ typeName
  | .countNegative what count => what ++ " must not be negative (got " ++ toString count ++ ")"
  | .wrongWidth primitive given =>
    primitive.name ++ " needs " ++ toString primitive.width ++ " bytes, got " ++ toString given
  | .partialElement bytes primitive =>
    toString bytes ++ " bytes is not a whole number of " ++ primitive.name ++ " elements"
  | .varintOverflow name bits => name ++ ": value overflows " ++ toString bits ++ " bits"
  | .varintTooLong name limit => name ++ ": varint longer than " ++ toString limit ++ " bytes"
  | .lengthNotInteger name => name ++ " length must be an integer"
  | .lengthNegative name length =>
    name ++ " length must not be negative (got " ++ toString length ++ ")"
  | .malformedUtf8 fault => "utf8: " ++ fault.message "utf-8"
  | .malformedUtf16 fault => "utf16: " ++ fault.message "utf-16-be"
  | .malformedBase64 fault => "base64: " ++ fault.message
  | .malformedGzip fault => "gzip: Error -3 while decompressing data: " ++ fault.message
  | .refusedByFunction => "user function failed"

/-! ### Inconsistent programs -/

/-- The two ways in which a raw input is read. -/
inductive Execution where
  | blocking
  | suspending
  deriving DecidableEq, Inhabited

/-- The name of a way of reading. -/
def Execution.name : Execution → String
  | .blocking => "blocking"
  | .suspending => "suspending"

/-- The way of reading that has a name. -/
def Execution.ofName? (name : String) : Option Execution :=
  if name = Execution.blocking.name then some .blocking
  else if name = Execution.suspending.name then some .suspending
  else none

/-- The type name of a root reader. -/
def Execution.sourceName : Execution → String
  | .blocking => "BlockingSource"
  | .suspending => "SuspendingSource"

/-- Why a program is inconsistent. -/
inductive ProgramFault where
  | unknownPrimitive (name : Json)
  | enumerationBacking (enumeration : String) (primitive : Primitive)
  | unknownMode (mode : Json)
  | mixedModes (driver source : Execution)
  | notPopulated (register : Register)
  | writtenTwice (register : Register)
  | noReader
  | notStream (register : Register) (typeName : String)
  | unmappedField (name : Json)
  | unregisteredType (name : Json)
  | twoLoopRules
  | emptyTerminator
  | argumentCount (expected given : Nat)
  | noEntryPoint (type : Json) (entry : String)
  | notEnumeration (type : Json)
  | noRegisters
  | transformArguments (name : String) (given : Nat)
  | lengthArguments (name : String) (given : Nat)
  | typeArguments (name : String) (given : Nat)
  | functionArguments (name : String) (expected given : Nat)
  | alignment (value : Int)
  deriving Inhabited

/-- The wording of a fault of a program. -/
def ProgramFault.message : ProgramFault → String
  | .unknownPrimitive name => "unknown primitive type " ++ name.quoted
  | .enumerationBacking enumeration primitive =>
    "enum " ++ enumeration ++ " cannot be backed by " ++ primitive.name
  | .unknownMode mode => "unknown execution mode " ++ mode.quoted
  | .mixedModes driver source =>
    driver.name ++ " decode received a pull request from <protodec.streams." ++
      source.sourceName ++ " object>; execution modes cannot be mixed"
  | .notPopulated register => "register " ++ register.text ++ " not populated"
  | .writtenTwice register => "register " ++ register.text ++ " written twice"
  | .noReader => "no ambient reader bound"
  | .notStream register typeName =>
    "register " ++ register.text ++ " holds " ++ typeName ++ ", not a stream"
  | .unmappedField name => "missing register for field " ++ name.quoted
  | .unregisteredType name => "type " ++ name.quoted ++ " is not registered"
  | .twoLoopRules => "loop cannot have both a count and a terminator"
  | .emptyTerminator => "loop terminator is empty"
  | .argumentCount expected given =>
    "expected " ++ toString expected ++ " decode arguments, got " ++ toString given
  | .noEntryPoint type entry => "type " ++ type.quoted ++ " has no " ++ entry ++ " entry point"
  | .notEnumeration type => "type " ++ type.quoted ++ " is not an enumeration"
  | .noRegisters => "program allocates no registers"
  | .transformArguments name given =>
    "transform " ++ name ++ " takes no arguments (got " ++ toString given ++ ")"
  | .lengthArguments name given =>
    name ++ " takes at most one length argument (got " ++ toString given ++ ")"
  | .typeArguments name given => name ++ " takes no arguments (got " ++ toString given ++ ")"
  | .functionArguments name expected given =>
    name ++ "() takes " ++ toString expected ++ " argument(s), got " ++ toString given
  | .alignment value => "pad() alignment must be positive (got " ++ toString value ++ ")"

/-! ### Operations on the wrong kind of thing -/

/-- The kinds of capabilities that a program names. -/
inductive CapabilityKind where
  | transform
  | type
  | function
  deriving DecidableEq, Inhabited

/-- The word for a kind of capability. -/
def CapabilityKind.name : CapabilityKind → String
  | .transform => "transform"
  | .type => "type"
  | .function => "function"

/-- The parts of a program that a document describes by kind. -/
inductive PartKind where
  | target
  | expression
  | constructable
  | instruction
  deriving DecidableEq, Inhabited

/-- The word for a part of a program. -/
def PartKind.name : PartKind → String
  | .target => "target"
  | .expression => "expression"
  | .constructable => "constructable"
  | .instruction => "instruction"

/-- Why an operation is not possible. -/
inductive MisuseFault where
  /-- More bytes are dropped than a buffer holds, or fewer than none. -/
  | consumeBeyondBuffer (count : Int) (buffered : Nat)
  /-- More bytes are dropped than a bounded view has left, or fewer than none. -/
  | consumeBeyondView (count left : Int)
  /-- A read of fewer bytes than none. -/
  | negativeRead (count : Int)
  /-- A document describes a part of a program by a kind that there is not. -/
  | unknownPart (part : PartKind) (kind : String)
  /-- A document lacks a key. -/
  | missingKey (key : String)
  /-- A value of another type was wanted. -/
  | wrongType
  /-- A value of the right type is out of range. -/
  | wrongValue
  /-- A value stands for more bytes than there can be. -/
  | tooManyBytes
  /-- A value stands for more bytes than there is room for. -/
  | noRoom
  /-- A value lacks an operation. -/
  | noSuchOperation
  /-- An argument is missing. -/
  | missingArgument
  /-- A text is not a document. -/
  | malformedDocument
  /-- A file is not text. -/
  | undecodableFile
  /-- A name is too long for a file. -/
  | systemFault
  /-- References between messages nest too deep. -/
  | nestingTooDeep
  /-- A loop ran out of the bound that the bytes in reach set it. -/
  | boundExceeded
  deriving DecidableEq, Inhabited

/-- The wording of a fault that has one. -/
def MisuseFault.message : MisuseFault → String
  | .consumeBeyondBuffer count buffered =>
    "cannot consume " ++ toString count ++ " bytes, " ++ toString buffered ++ " buffered"
  | .consumeBeyondView count left =>
    "cannot consume " ++ toString count ++ " bytes, " ++ toString left ++ " left in view"
  | .negativeRead count => "negative read length " ++ toString count
  | .unknownPart part kind => "Unknown " ++ part.name ++ " kind " ++ kind
  | .missingKey key => key
  | _ => ""

/-! ### All faults -/

/-- The cause of an error. -/
inductive Fault where
  /-- The input cannot be decoded. -/
  | decode (fault : DecodeFault)
  /-- The program is inconsistent. -/
  | program (fault : ProgramFault)
  /-- No resolver knows a name. -/
  | unresolved (kind : CapabilityKind) (name : Json)
  /-- An operation is not possible. -/
  | misuse (fault : MisuseFault)
  deriving Inhabited

/-- The wording of a fault. -/
def Fault.message : Fault → String
  | .decode fault => fault.message
  | .program fault => fault.message
  | .unresolved kind name => "unresolved " ++ kind.name ++ " " ++ name.quoted
  | .misuse fault => fault.message

/-- Whether a fault is one of the input, so that the instructions above it are recorded. -/
def Fault.isDecode : Fault → Bool
  | .decode _ => true
  | _ => false

/-! ### Faults in a run -/

/-- A message below the instructions that were being executed, outermost first. -/
def locatedMessage (path : List String) (message : String) : String :=
  if path.isEmpty then message else String.intercalate " > " path ++ ": " ++ message

/-- The place of an instruction: its index in its block and its label. -/
structure Site where
  index : Nat
  label : String
  deriving DecidableEq, Inhabited

/-- The text of a place. -/
def Site.text (site : Site) : String :=
  "#" ++ toString site.index ++ " " ++ site.label

/-- A fault and the instructions that were being executed, outermost first. -/
structure Failure where
  fault : Fault
  path : List Site := []
  deriving Inhabited

/-- Records one more instruction around a fault of the input. -/
def Failure.within (failure : Failure) (site : Site) : Failure :=
  if failure.fault.isDecode then { failure with path := site :: failure.path } else failure

/-- The wording of a failure with its path. -/
def Failure.message (failure : Failure) : String :=
  locatedMessage (failure.path.map Site.text) failure.fault.message

end WireProgram
