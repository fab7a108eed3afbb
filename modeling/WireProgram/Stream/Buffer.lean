/-
**Buffers: bytes that were pulled and not yet consumed.**

* `Buffer.holds` tests for a number of bytes without going through them all;
* `Buffer.consume` drops bytes from the front and counts them;
* `Buffer.read` takes an exact number of bytes.
-/

import WireProgram.Fault

namespace WireProgram

/-- Whether a list has at least so many items. -/
def hasAtLeast {α : Type} : Nat → List α → Bool
  | 0, _ => true
  | _ + 1, [] => false
  | count + 1, _ :: rest => hasAtLeast count rest

/-- The test is the comparison with the length. -/
theorem hasAtLeast_eq {α : Type} (count : Nat) (items : List α) :
    hasAtLeast count items = decide (count ≤ items.length) := by
  induction count generalizing items with
  | zero => simp [hasAtLeast]
  | succ count hypothesis =>
    cases items with
    | nil => simp [hasAtLeast]
    | cons item rest => simp [hasAtLeast, hypothesis]

/-- The front of a stream. -/
structure Buffer where
  /-- The bytes that were pulled and not yet consumed. -/
  content : Bytes := []
  /-- Whether nothing more will be pulled. -/
  ended : Bool := false
  /-- The number of bytes consumed so far. -/
  position : Nat := 0
  deriving DecidableEq, Inhabited

namespace Buffer

/-- Whether a buffer holds at least so many bytes. -/
def holds (buffer : Buffer) (count : Nat) : Bool :=
  hasAtLeast count buffer.content

/-- Whether there is nothing left and nothing to come. -/
def atEnd (buffer : Buffer) : Bool :=
  buffer.ended && buffer.content.isEmpty

/-- Adds bytes at the end. -/
def append (buffer : Buffer) (bytes : Bytes) : Buffer :=
  { buffer with content := buffer.content ++ bytes }

/-- Drops bytes from the front. -/
def drop (buffer : Buffer) (count : Nat) : Buffer :=
  { buffer with
    content := buffer.content.drop count, position := buffer.position + count }

/-- Drops bytes from the front if the buffer holds as many. -/
def consume (buffer : Buffer) (count : Int) : Except Fault Unit × Buffer :=
  if count < 0 ∨ buffer.holds count.toNat = false then
    (.error (.misuse (.consumeBeyondBuffer count buffer.content.length)), buffer)
  else (.ok (), buffer.drop count.toNat)

/-- Takes exactly so many bytes from the front, all that could be pulled being there. -/
def read (buffer : Buffer) (count : Nat) : Except Fault Bytes × Buffer :=
  if buffer.holds count then (.ok (buffer.content.take count), buffer.drop count)
  else (.error (.decode (.shortRead count buffer.content.length)), buffer)

/-! ### What the operations do -/

theorem holds_iff (buffer : Buffer) (count : Nat) :
    buffer.holds count = true ↔ count ≤ buffer.content.length := by
  rw [holds, hasAtLeast_eq, decide_eq_true_iff]

/-- What is held can be dropped. -/
theorem consume_held (buffer : Buffer) (count : Nat) (within : count ≤ buffer.content.length) :
    buffer.consume count = (.ok (), buffer.drop count) := by
  unfold consume
  rw [if_neg]
  · rw [Int.toNat_natCast]
  · rw [Int.toNat_natCast, (holds_iff buffer count).mpr within]
    simp

theorem read_held (buffer : Buffer) (count : Nat) (within : count ≤ buffer.content.length) :
    buffer.read count = (.ok (buffer.content.take count), buffer.drop count) := by
  unfold read
  rw [if_pos ((holds_iff buffer count).mpr within)]

theorem read_short (buffer : Buffer) (count : Nat) (beyond : buffer.content.length < count) :
    buffer.read count =
      (.error (.decode (.shortRead count buffer.content.length)), buffer) := by
  unfold read
  rw [if_neg]
  rw [holds_iff]
  exact Nat.not_le_of_lt beyond

end Buffer

end WireProgram
