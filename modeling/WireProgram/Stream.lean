/-
**Streams of bytes behind views.**

The state of all layers is kept in one place. A view is read through four operations: peeking at
pending bytes, dropping bytes, reading an exact number of bytes, and reading to the end. Only a root
over a raw input ever pulls, and what was peeked at and not dropped is seen again.

* `Streams` is the state of all layers;
* `Source.pullUntil` and `refill` fetch bytes for a root and for a transformed view;
* `View.fillBuf`, `View.consume`, `View.readExact` and `View.readToEnd` are the operations;
* `View.weight` bounds the number of bytes that a view can still give, and `View.turns` the number of
  pieces in which they come.
-/

import WireProgram.Stream.Buffer
import WireProgram.Stream.ChunkCodec
import WireProgram.Stream.Input
import WireProgram.Stream.View
import WireProgram.Table

namespace WireProgram

/-! ### The state of the layers -/

/-- A root over a raw input. -/
structure Source where
  buffer : Buffer := {}
  input : Input := {}
  deriving DecidableEq, Inhabited

/-- A root over bytes that are all there. -/
structure Cursor where
  buffer : Buffer := { ended := true }
  /-- The number of bytes there were at first. -/
  length : Nat := 0
  deriving DecidableEq

instance : Inhabited Cursor := ⟨{}⟩

/-- A bound on another view. -/
structure Bound where
  /-- The number of bytes that may still be read. -/
  left : Int := 0
  /-- The number of bytes consumed so far. -/
  position : Nat := 0
  deriving DecidableEq, Inhabited

/-- A view that runs another one through a codec. -/
structure Transformed (κ : Type) where
  /-- The decoded bytes; ended once the codec gives no more. -/
  buffer : Buffer := {}
  /-- The state of the codec; a layer that was never made has none. -/
  codec : Option κ := none
  /-- Whether the codec is finished or its input has ended. -/
  finished : Bool := true

instance {κ : Type} : Inhabited (Transformed κ) := ⟨{}⟩

/-- The state of all layers. -/
structure Streams (κ : Type) where
  /-- The way in which the run reads raw inputs. -/
  driver : Execution := .blocking
  sources : Table Source := {}
  cursors : Table Cursor := {}
  bounds : Table Bound := {}
  transforms : Table (Transformed κ) := {}

instance {κ : Type} : Inhabited (Streams κ) := ⟨{}⟩

/-- An operation on streams. The state outlives a fault. -/
abbrev StreamStep (κ : Type) (α : Type) := ExceptT Fault (StateM (Streams κ)) α

namespace Streams

variable {κ : Type}

/-- Opens a root over a raw input. -/
def openSource (streams : Streams κ) (execution : Execution) (input : Input) : View × Streams κ :=
  (.source execution streams.sources.size,
    { streams with sources := streams.sources.push { input := input } })

/-- Opens a root over a byte string. -/
def openCursor (streams : Streams κ) (bytes : Bytes) : View × Streams κ :=
  (.cursor streams.cursors.size,
    { streams with
      cursors := streams.cursors.push
        { buffer := { content := bytes, ended := true }, length := bytes.length } })

/-- Opens a view of at most `limit` bytes of another view. -/
def openTake (streams : Streams κ) (parent : View) (limit : Int) : View × Streams κ :=
  (.take streams.bounds.size parent,
    { streams with bounds := streams.bounds.push { left := limit } })

/-- Opens a view that runs another one through a codec. -/
def openTransformed (streams : Streams κ) (parent : View) (codec : κ) : View × Streams κ :=
  (.transformed streams.transforms.size parent,
    { streams with
      transforms := streams.transforms.push { codec := some codec, finished := false } })

end Streams

/-! ### Roots -/

/--
Pulls chunks until so many bytes are held or the input ends. A root can only be pulled by a driver
of its own kind.
-/
def Source.pullFrom (driver own : Execution) (want : Nat) :
    (pending : List Chunk) → (buffer : Buffer) → (pulled : Nat) → Except Fault Unit × Source
  | pending, buffer, pulled =>
    if buffer.ended || buffer.holds want then (.ok (), ⟨buffer, ⟨pending, pulled⟩⟩)
    else if driver ≠ own then
      (.error (.program (.mixedModes driver own)), ⟨buffer, ⟨pending, pulled⟩⟩)
    else
      match pending with
      | [] => (.ok (), ⟨{ buffer with ended := true }, ⟨[], pulled⟩⟩)
      | chunk :: rest =>
        match chunk with
        | .bytes content =>
          if content.isEmpty then (.ok (), ⟨{ buffer with ended := true }, ⟨rest, pulled⟩⟩)
          else pullFrom driver own want rest (buffer.append content) (pulled + content.length)
        | .absent =>
          (.error (if driver = .blocking then .decode .sourceNotReady else .misuse .wrongType),
            ⟨buffer, ⟨rest, pulled⟩⟩)
        | .failure reason =>
          (.error (.decode (.sourceFailed reason)), ⟨buffer, ⟨rest, pulled⟩⟩)

/-- Pulls until so many bytes are held or the input ends. -/
def Source.pullUntil (driver own : Execution) (want : Nat) (source : Source) :
    Except Fault Unit × Source :=
  pullFrom driver own want source.input.pending source.buffer source.input.pulled

namespace View

variable {κ : Type} [ChunkCodec κ]

/-! ### Looking at a view -/

/-- The number of bytes consumed through a view. -/
def position (streams : Streams κ) : View → Nat
  | .source _ cell => (streams.sources.get cell).buffer.position
  | .cursor cell => (streams.cursors.get cell).buffer.position
  | .take cell _ => (streams.bounds.get cell).position
  | .transformed cell _ => (streams.transforms.get cell).buffer.position

/-- Whether a view is known to have nothing left. -/
def atEnd (streams : Streams κ) : View → Bool
  | .source _ cell => (streams.sources.get cell).buffer.atEnd
  | .cursor cell => (streams.cursors.get cell).buffer.atEnd
  | .take cell parent => (streams.bounds.get cell).left ≤ 0 || atEnd streams parent
  | .transformed cell _ => (streams.transforms.get cell).buffer.atEnd

/-- The number of bytes that a view can still give, at most. -/
def weight (streams : Streams κ) : View → Nat
  | .source _ cell =>
    let source := streams.sources.get cell
    source.buffer.content.length + source.input.remaining
  | .cursor cell => (streams.cursors.get cell).buffer.content.length
  | .take cell parent => min (streams.bounds.get cell).left.toNat (weight streams parent)
  | .transformed cell parent =>
    let layer := streams.transforms.get cell
    layer.buffer.content.length + (layer.codec.elim 0 ChunkCodec.reserve) +
      ChunkCodec.gain κ * weight streams parent

/--
The number of pieces in which a view can still give bytes, at most: whatever the codecs give, no more
pieces come out of one than go in, but for what is held and for the last one.
-/
def turns (streams : Streams κ) : View → Nat
  | .source _ cell => (streams.sources.get cell).input.pending.length + 1
  | .cursor _ => 1
  | .take _ parent => turns streams parent
  | .transformed _ parent => turns streams parent + 2

/-! ### Reading a view -/

/-- Runs an operation on the state of a source. -/
def onSource {α : Type} (cell : Nat) (act : Execution → Source → Except Fault α × Source) :
    StreamStep κ α :=
  ExceptT.mk fun streams =>
    let result := act streams.driver (streams.sources.get cell)
    (result.1, { streams with sources := streams.sources.set cell result.2 })

/-- Runs an operation on the state of a cursor. -/
def onCursor {α : Type} (cell : Nat) (act : Buffer → Except Fault α × Buffer) : StreamStep κ α :=
  ExceptT.mk fun streams =>
    let cursor := streams.cursors.get cell
    let result := act cursor.buffer
    (result.1, { streams with
      cursors := streams.cursors.set cell { cursor with buffer := result.2 } })

/-- Runs an operation on the state of a bound. -/
def onBound {α : Type} (cell : Nat) (act : Bound → Except Fault α × Bound) : StreamStep κ α :=
  ExceptT.mk fun streams =>
    let result := act (streams.bounds.get cell)
    (result.1, { streams with bounds := streams.bounds.set cell result.2 })

/-- Runs an operation on the state of a transformed view. -/
def onTransformed {α : Type} (cell : Nat)
    (act : Transformed κ → Except Fault α × Transformed κ) : StreamStep κ α :=
  ExceptT.mk fun streams =>
    let result := act (streams.transforms.get cell)
    (result.1, { streams with transforms := streams.transforms.set cell result.2 })

/-- Looks at the streams. -/
def look {α : Type} (question : Streams κ → α) : StreamStep κ α :=
  ExceptT.mk fun streams => (.ok (question streams), streams)

/-- Drops bytes that were peeked at. A bound counts them too. -/
def consume : View → Int → StreamStep κ Unit
  | .source _ cell, count =>
    onSource cell fun _ source =>
      let result := source.buffer.consume count
      (result.1, { source with buffer := result.2 })
  | .cursor cell, count => onCursor cell fun buffer => buffer.consume count
  | .transformed cell _, count =>
    onTransformed cell fun layer =>
      let result := layer.buffer.consume count
      (result.1, { layer with buffer := result.2 })
  | .take cell parent, count => do
    onBound cell fun bound =>
      if count < 0 ∨ bound.left < count then
        (.error (.misuse (.consumeBeyondView count bound.left)), bound)
      else (.ok (), bound)
    consume parent count
    onBound cell fun bound =>
      (.ok (), ⟨bound.left - count, bound.position + count.toNat⟩)

/-- Feeds the codec of a transformed view with bytes of its parent. -/
def feedCodec (cell : Nat) (given : Bytes) : StreamStep κ (Bytes × Int) :=
  onTransformed cell fun layer =>
    match layer.codec with
    | none => (.ok ([], 0), layer)
    | some codec =>
      let result := ChunkCodec.feed codec given
      (result.1, { layer with codec := some result.2 })

/-- Ends the input of a codec. The view is finished even if the codec refuses. -/
def finishCodec (cell : Nat) : StreamStep κ Bytes :=
  onTransformed cell fun layer =>
    match layer.codec with
    | none => (.ok [], { layer with finished := true })
    | some codec =>
      let result := ChunkCodec.finish codec
      (result.1, { layer with codec := some result.2, finished := true })

/-- Adds decoded bytes; `settle` also asks the codec whether it is finished. -/
def deliver (cell : Nat) (settle : Bool) (bytes : Bytes) : StreamStep κ Unit :=
  onTransformed cell fun layer =>
    let finished := if settle then layer.codec.elim true ChunkCodec.finished else layer.finished
    (.ok (), { layer with finished := finished, buffer := layer.buffer.append bytes })

/--
Feeds the codec of a transformed view until so many decoded bytes are held or no more will come. The
operations on the parent are given; the fuel bounds the number of feeds.
-/
def refill (cell : Nat) (peekParent : StreamStep κ Bytes) (dropParent : Int → StreamStep κ Unit)
    (want : Nat) : (fuel : Nat) → StreamStep κ Unit
  | 0 => throw (.misuse .boundExceeded)
  | fuel + 1 => do
    let layer ← look fun streams => streams.transforms.get cell
    if layer.buffer.ended || layer.buffer.holds want then return ()
    else if layer.finished then
      onTransformed cell fun layer =>
        (.ok (), { layer with buffer := { layer.buffer with ended := true } })
    else
      let given ← peekParent
      if given.isEmpty then
        let bytes ← finishCodec cell
        deliver cell false bytes
      else
        let (bytes, used) ← feedCodec cell given
        dropParent used
        deliver cell true bytes
      refill cell peekParent dropParent want fuel

/-- Makes a transformed view hold so many decoded bytes, if there are as many. -/
def prepare (cell : Nat) (parent : View) (peekParent : StreamStep κ Bytes)
    (dropParent : Int → StreamStep κ Unit) (want : Nat) : StreamStep κ Unit := do
  let ready ← look fun streams =>
    let buffer := (streams.transforms.get cell).buffer
    buffer.ended || buffer.holds want
  if ready then return ()
  else
    -- every feed uses up a byte of the parent, or all of a piece; then the codec ends, the view ends,
    -- and it is seen
    let bound ← look fun streams => weight streams parent + turns streams parent
    refill cell peekParent dropParent want (bound + 3)

/--
Peeks at the pending bytes of a view, after pulling until `want` of them are held or the input ends.
All bytes that are held are given, which may be more.
-/
def fillBuf : View → (want : Nat) → StreamStep κ Bytes
  | .source execution cell, want =>
    onSource cell fun driver source =>
      let result := source.pullUntil driver execution (max want 1)
      (result.1.map fun _ => result.2.buffer.content, result.2)
  | .cursor cell, _ => onCursor cell fun buffer => (.ok buffer.content, buffer)
  | .take cell parent, want => do
    let bound ← look fun streams => streams.bounds.get cell
    if bound.left ≤ 0 then return []
    else
      let available ← fillBuf parent (min (max want 1) bound.left.toNat)
      return available.take bound.left.toNat
  | .transformed cell parent, want => do
    prepare cell parent (fillBuf parent 1) (consume parent) (max want 1)
    look fun streams => (streams.transforms.get cell).buffer.content

/-- Reads exactly so many bytes, or none at all if the view ends before. -/
def readExact : View → (count : Int) → StreamStep κ Bytes
  | .source execution cell, count =>
    if count < 0 then throw (.misuse (.negativeRead count))
    else
      onSource cell fun driver source =>
        let result := source.pullUntil driver execution count.toNat
        match result.1 with
        | .error fault => (.error fault, result.2)
        | .ok _ =>
          let bytes := result.2.buffer.read count.toNat
          (bytes.1, { result.2 with buffer := bytes.2 })
  | .cursor cell, count =>
    if count < 0 then throw (.misuse (.negativeRead count))
    else onCursor cell fun buffer => buffer.read count.toNat
  | .transformed cell parent, count =>
    if count < 0 then throw (.misuse (.negativeRead count))
    else do
      prepare cell parent (fillBuf parent 1) (consume parent) count.toNat
      onTransformed cell fun layer =>
        let bytes := layer.buffer.read count.toNat
        (bytes.1, { layer with buffer := bytes.2 })
  | .take cell parent, count => do
    let bound ← look fun streams => streams.bounds.get cell
    if bound.left < count then
      -- more than the bound allows: whatever can be held is too little
      if count < 0 then throw (.misuse (.negativeRead count))
      else if count = 0 then return []
      else
        let available ← fillBuf (.take cell parent) count.toNat
        throw (.decode (.shortRead count.toNat available.length))
    else
      let bytes ← readExact parent count
      onBound cell fun bound =>
        (.ok (), ⟨bound.left - count, bound.position + count.toNat⟩)
      return bytes

/-- Reads and drops what is held until a view ends; the fuel bounds the number of peeks. -/
def drain (view : View) : (fuel : Nat) → StreamStep κ Bytes
  | 0 => throw (.misuse .boundExceeded)
  | fuel + 1 => do
    let available ← fillBuf view 1
    if available.isEmpty then return []
    else
      consume view available.length
      let rest ← drain view fuel
      return available ++ rest

/-- Reads all bytes up to the end of a view. -/
def readToEnd (view : View) : StreamStep κ Bytes := do
  let bound ← look fun streams => weight streams view + turns streams view
  drain view (bound + 1)

end View

end WireProgram
