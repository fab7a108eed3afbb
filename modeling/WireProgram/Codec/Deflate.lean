/-
**Compressed blocks, read one byte at a time.**

A compressed body is a sequence of blocks: stored bytes, or literals and copies written in prefix
codes. The machine takes one byte, or one bit of a byte, and stands in a new state or refuses; so
feeding it two byte strings one after the other is feeding it their concatenation. The main
definitions:

* `Deflate.Phase`, what the machine waits for;
* `Deflate.takeBit` and `Deflate.takeByte`, its transitions;
* `Deflate.Fault`, why a body is refused.
-/

import WireProgram.Codec.PrefixCode

namespace WireProgram.Deflate

/-- Why a body is refused. -/
inductive Fault where
  | blockType
  | storedLengths
  | tooManySymbols
  | codeLengthsSet
  | bitLengthRepeat
  | missingEndOfBlock
  | literalSet
  | distanceSet
  | literalCode
  | distanceCode
  | distanceTooFar
  deriving DecidableEq, Inhabited

/-- The wording of a fault. -/
def Fault.message : Fault → String
  | .blockType => "invalid block type"
  | .storedLengths => "invalid stored block lengths"
  | .tooManySymbols => "too many length or distance symbols"
  | .codeLengthsSet => "invalid code lengths set"
  | .bitLengthRepeat => "invalid bit length repeat"
  | .missingEndOfBlock => "invalid code -- missing end-of-block"
  | .literalSet => "invalid literal/lengths set"
  | .distanceSet => "invalid distances set"
  | .literalCode => "invalid literal/length code"
  | .distanceCode => "invalid distance code"
  | .distanceTooFar => "invalid distance too far back"

/-! ### Parts of a block -/

/-- Bits that have been collected, first bit least significant. -/
structure Collected where
  count : Nat := 0
  value : Nat := 0
  deriving Inhabited

/-- One more bit. -/
def Collected.push (bits : Collected) (bit : Nat) : Collected :=
  ⟨bits.count + 1, bits.value + bit * Nat.pow 2 bits.count⟩

/-- The numbers of lengths that the head of a block announces. -/
structure TableSizes where
  literals : Nat
  distances : Nat
  codeLengths : Nat
  deriving Inhabited

/-- The two codes of a block. -/
structure Codes where
  literals : PrefixCode
  distances : PrefixCode
  deriving Inhabited

/-- What the machine waits for. -/
inductive Phase where
  /-- Three bits: whether the block is the last one, and its type. -/
  | blockHeader (bits : Collected)
  /-- Four bytes: the length of a stored block and its complement. -/
  | storedLengths (read : Bytes)
  /-- The bytes of a stored block. -/
  | stored (left : Nat)
  /-- Fourteen bits: the numbers of lengths. -/
  | tableSizes (bits : Collected)
  /-- Three bits for each length of the code of lengths. -/
  | codeLengths (sizes : TableSizes) (found : List Nat) (bits : Collected)
  /-- The lengths of the two codes, latest first, and a walk in the code of lengths. -/
  | lengths (sizes : TableSizes) (code : PrefixCode) (found : List Nat) (walk : Walk)
  /-- The extra bits of a repetition of a length. -/
  | repetition (sizes : TableSizes) (code : PrefixCode) (found : List Nat) (symbol : Nat)
    (bits : Collected)
  /-- A literal, a length or the end of the block. -/
  | symbol (codes : Codes) (walk : Walk)
  /-- The extra bits of a length. -/
  | lengthExtra (codes : Codes) (base extra : Nat) (bits : Collected)
  /-- The distance of a copy. -/
  | distance (codes : Codes) (length : Nat) (walk : Walk)
  /-- The extra bits of a distance. -/
  | distanceExtra (codes : Codes) (length base extra : Nat) (bits : Collected)
  /-- Nothing: the last block is complete. -/
  | done
  deriving Inhabited

/-- The machine: what it waits for, whether the block is the last one, and its output so far. -/
structure State where
  phase : Phase := .blockHeader {}
  last : Bool := false
  output : Array UInt8 := #[]
  deriving Inhabited

/-- Whether the machine is done. -/
def State.isDone (state : State) : Bool :=
  match state.phase with
  | .done => true
  | _ => false

/-- Whether the machine waits for whole bytes. -/
def Phase.takesBytes : Phase → Bool
  | .storedLengths _ | .stored _ | .done => true
  | _ => false

/-! ### Tables of the format -/

/-- The order in which the lengths of the code of lengths come. -/
def codeLengthOrder : List Nat :=
  [16, 17, 18, 0, 8, 7, 9, 6, 10, 5, 11, 4, 12, 3, 13, 2, 14, 1, 15]

/-- The base and the extra bits of each length symbol from 257 on. -/
def lengthTable : Array (Nat × Nat) := #[
  (3, 0), (4, 0), (5, 0), (6, 0), (7, 0), (8, 0), (9, 0), (10, 0), (11, 1), (13, 1), (15, 1),
  (17, 1), (19, 2), (23, 2), (27, 2), (31, 2), (35, 3), (43, 3), (51, 3), (59, 3), (67, 4),
  (83, 4), (99, 4), (115, 4), (131, 5), (163, 5), (195, 5), (227, 5), (258, 0)]

/-- The base and the extra bits of each distance symbol. -/
def distanceTable : Array (Nat × Nat) := #[
  (1, 0), (2, 0), (3, 0), (4, 0), (5, 1), (7, 1), (9, 2), (13, 2), (17, 3), (25, 3), (33, 4),
  (49, 4), (65, 5), (97, 5), (129, 6), (193, 6), (257, 7), (385, 7), (513, 8), (769, 8), (1025, 9),
  (1537, 9), (2049, 10), (3073, 10), (4097, 11), (6145, 11), (8193, 12), (12289, 12), (16385, 13),
  (24577, 13)]

/-- The codes of a block that brings none. -/
def fixedCodes : Codes where
  literals := PrefixCode.ofLengths
    (List.replicate 144 8 ++ List.replicate 112 9 ++ List.replicate 24 7 ++ List.replicate 8 8)
  distances := PrefixCode.ofLengths (List.replicate 32 5)

/-! ### Transitions -/

/-- The phase after a block. -/
def State.endBlock (state : State) : State :=
  { state with phase := if state.last then .done else .blockHeader {} }

/-- Repeats the byte at a distance back, once for each byte of a copy. -/
def copyBack (distance : Nat) : Nat → Array UInt8 → Array UInt8
  | 0, output => output
  | length + 1, output =>
    copyBack distance length (output.push (output.getD (output.size - distance) 0))

/-- Copies from the output, if it reaches back that far. -/
def State.copy (state : State) (codes : Codes) (length distance : Nat) : Except Fault State :=
  if state.output.size < distance then .error .distanceTooFar
  else
    .ok { state with
      phase := .symbol codes {}, output := copyBack distance length state.output }

/-- The head of a block. -/
def State.openBlock (state : State) (value : Nat) : Except Fault State :=
  let last : Bool := value % 2 = 1
  match value / 2 with
  | 0 => .ok { state with phase := .storedLengths [], last := last }
  | 1 => .ok { state with phase := .symbol fixedCodes {}, last := last }
  | 2 => .ok { state with phase := .tableSizes {}, last := last }
  | _ => .error .blockType

/-- The numbers of lengths: at most 286 literals and 30 distances. -/
def State.openTables (state : State) (value : Nat) : Except Fault State :=
  let sizes : TableSizes := ⟨value % 32 + 257, value / 32 % 32 + 1, value / 1024 + 4⟩
  if 286 < sizes.literals ∨ 30 < sizes.distances then .error .tooManySymbols
  else .ok { state with phase := .codeLengths sizes [] {} }

/-- The lengths of the code of lengths, in the order of their symbols. -/
def orderedLengths (found : List Nat) : List Nat :=
  (List.range 19).map fun symbol => ((codeLengthOrder.zip found.reverse).lookup symbol).getD 0

/-- The code of lengths. It must be complete or empty. -/
def State.openLengths (state : State) (sizes : TableSizes) (found : List Nat) :
    Except Fault State :=
  let code := PrefixCode.ofLengths (orderedLengths found)
  if code.isEmpty ∨ code.fullness = .complete then
    .ok { state with phase := .lengths sizes code [] {} }
  else .error .codeLengthsSet

/-- Whether the words of a literal or distance code are taken: one of one bit may stand alone. -/
def acceptsCode (code : PrefixCode) : Bool :=
  match code.fullness with
  | .complete => true
  | .oversubscribed => false
  | .incomplete => code.longest ≤ 1

/-- The two codes of a block, once all lengths are there. -/
def State.openCodes (state : State) (sizes : TableSizes) (found : List Nat) : Except Fault State :=
  let lengths := found.reverse
  let literals := PrefixCode.ofLengths (lengths.take sizes.literals)
  let distances := PrefixCode.ofLengths (lengths.drop sizes.literals)
  if lengths.getD 256 0 = 0 then .error .missingEndOfBlock
  else if !acceptsCode literals then .error .literalSet
  else if !acceptsCode distances then .error .distanceSet
  else .ok { state with phase := .symbol ⟨literals, distances⟩ {} }

/-- Goes on with the lengths, or with the block if all are there. -/
def State.moreLengths (state : State) (sizes : TableSizes) (code : PrefixCode) (found : List Nat) :
    Except Fault State :=
  if found.length < sizes.literals + sizes.distances then
    .ok { state with phase := .lengths sizes code found {} }
  else state.openCodes sizes found

/-- The extra bits of a repetition symbol and the least number of repetitions. -/
def repetitionOf (symbol : Nat) : Nat × Nat :=
  if symbol = 16 then (2, 3) else if symbol = 17 then (3, 3) else (7, 11)

/-- Repeats the last length, or zero. -/
def State.repeatLength (state : State) (sizes : TableSizes) (code : PrefixCode)
    (found : List Nat) (symbol extra : Nat) : Except Fault State :=
  let count := (repetitionOf symbol).2 + extra
  if symbol = 16 ∧ found.isEmpty then .error .bitLengthRepeat
  else
    let length := if symbol = 16 then found.headD 0 else 0
    if sizes.literals + sizes.distances < found.length + count then .error .bitLengthRepeat
    else state.moreLengths sizes code (List.replicate count length ++ found)

/-- A symbol of the code of lengths. -/
def State.lengthSymbol (state : State) (sizes : TableSizes) (code : PrefixCode)
    (found : List Nat) (symbol : Nat) : Except Fault State :=
  if symbol < 16 then state.moreLengths sizes code (symbol :: found)
  else .ok { state with phase := .repetition sizes code found symbol {} }

/-- A literal, the end of the block, or the length of a copy. -/
def State.blockSymbol (state : State) (codes : Codes) (symbol : Nat) : Except Fault State :=
  if symbol < 256 then
    .ok { state with
      phase := .symbol codes {}, output := state.output.push (UInt8.ofNat symbol) }
  else if symbol = 256 then .ok state.endBlock
  else
    match lengthTable[symbol - 257]? with
    | none => .error .literalCode
    | some (base, 0) => .ok { state with phase := .distance codes base {} }
    | some (base, extra) => .ok { state with phase := .lengthExtra codes base extra {} }

/-- The distance of a copy. -/
def State.distanceSymbol (state : State) (codes : Codes) (length symbol : Nat) :
    Except Fault State :=
  match distanceTable[symbol]? with
  | none => .error .distanceCode
  | some (base, 0) => state.copy codes length base
  | some (base, extra) => .ok { state with phase := .distanceExtra codes length base extra {} }

/-- Takes one bit. -/
def State.takeBit (state : State) (bit : Nat) : Except Fault State :=
  match state.phase with
  | .blockHeader bits =>
    let bits := bits.push bit
    if bits.count < 3 then .ok { state with phase := .blockHeader bits }
    else state.openBlock bits.value
  | .tableSizes bits =>
    let bits := bits.push bit
    if bits.count < 14 then .ok { state with phase := .tableSizes bits }
    else state.openTables bits.value
  | .codeLengths sizes found bits =>
    let bits := bits.push bit
    if bits.count < 3 then .ok { state with phase := .codeLengths sizes found bits }
    else if found.length + 1 < sizes.codeLengths then
      .ok { state with phase := .codeLengths sizes (bits.value :: found) {} }
    else state.openLengths sizes (bits.value :: found)
  | .lengths sizes code found walk =>
    if code.isEmpty then state.lengthSymbol sizes code found 0
    else
      match code.step walk bit with
      | .symbol value => state.lengthSymbol sizes code found value
      | .inside walk => .ok { state with phase := .lengths sizes code found walk }
      | .invalid => .error .codeLengthsSet
  | .repetition sizes code found symbol bits =>
    let bits := bits.push bit
    if bits.count < (repetitionOf symbol).1 then
      .ok { state with phase := .repetition sizes code found symbol bits }
    else state.repeatLength sizes code found symbol bits.value
  | .symbol codes walk =>
    match codes.literals.step walk bit with
    | .symbol value => state.blockSymbol codes value
    | .inside walk => .ok { state with phase := .symbol codes walk }
    | .invalid => .error .literalCode
  | .lengthExtra codes base extra bits =>
    let bits := bits.push bit
    if bits.count < extra then .ok { state with phase := .lengthExtra codes base extra bits }
    else .ok { state with phase := .distance codes (base + bits.value) {} }
  | .distance codes length walk =>
    match codes.distances.step walk bit with
    | .symbol value => state.distanceSymbol codes length value
    | .inside walk => .ok { state with phase := .distance codes length walk }
    | .invalid => .error .distanceCode
  | .distanceExtra codes length base extra bits =>
    let bits := bits.push bit
    if bits.count < extra then
      .ok { state with phase := .distanceExtra codes length base extra bits }
    else state.copy codes length (base + bits.value)
  | .storedLengths _ | .stored _ | .done => .ok state

/-- Takes the low bits of a byte, first bit first, until whole bytes are wanted. -/
def State.takeBits (state : State) : (count : Nat) → (value : Nat) → Except Fault State
  | 0, _ => .ok state
  | count + 1, value =>
    if state.phase.takesBytes then .ok state
    else
      match state.takeBit (value % 2) with
      | .ok next => next.takeBits count (value / 2)
      | .error fault => .error fault

/-- Opens a stored block, once its length and the complement of it are there. -/
def State.openStored (state : State) (read : Bytes) : Except Fault State :=
  let length := Bytes.littleEndian (read.take 2)
  let complement := Bytes.littleEndian (read.drop 2)
  if length + complement ≠ 0xFFFF then .error .storedLengths
  else if length = 0 then .ok state.endBlock
  else .ok { state with phase := .stored length }

/-- Takes one byte. -/
def State.takeByte (state : State) (byte : UInt8) : Except Fault State :=
  match state.phase with
  | .storedLengths read =>
    let read := read ++ [byte]
    if read.length < 4 then .ok { state with phase := .storedLengths read }
    else state.openStored read
  | .stored left =>
    let next := { state with output := state.output.push byte }
    if left ≤ 1 then .ok next.endBlock else .ok { next with phase := .stored (left - 1) }
  | .done => .ok state
  | _ => state.takeBits 8 byte.toNat

end WireProgram.Deflate
