/-
**The calls that a run makes.**

A step is put together from others, one after the other, and a run of it comes to some of them. Nothing
handles a fault on the way up, so a call that fails is the end of the run. The main definitions and
statements:

* `StreamStep.Occurs` and `Step.Performs`, an operation on the streams to which a run comes;
* `Step.Performs.fails`, **a run fails as what it performs**;
* `View.holding`, the bytes of one layer, with `View.consume_guards` and `View.readExact_guards`, what
  the guards of the two operations refuse;
* `View.pull` and `View.readExact_eq`, a read that peeks and drops what it gives.
-/

import WireProgram.Proofs.Fault
import WireProgram.Proofs.Step
import WireProgram.Proofs.Stream.Shortage

namespace WireProgram

/-! ### Calls -/

/-- A call to which a run of an operation comes. An operation may be taken apart in any way that leaves
what it does as it is. -/
inductive StreamStep.Occurs {α : Type} (call : StreamStep Codec α) (start : Streams Codec) :
    {β : Type} → StreamStep Codec β → Streams Codec → Prop
  /-- The operation is the call. -/
  | self : Occurs call start call start
  /-- The first part of the operation makes the call. -/
  | first {β γ : Type} {first : StreamStep Codec β} {next : β → StreamStep Codec γ}
    {before : Streams Codec} (occurs : Occurs call start first before) :
    Occurs call start (first >>= next) before
  /-- The first part ends with a value, and what comes then makes the call. -/
  | next {β γ : Type} {first : StreamStep Codec β} {next : β → StreamStep Codec γ} {value : β}
    {before middle : Streams Codec} (ran : first.run before = (.ok value, middle))
    (occurs : Occurs call start (next value) middle) : Occurs call start (first >>= next) before

/-- A call on the streams to which a run comes. -/
inductive Step.Performs {α : Type} (call : StreamStep Codec α) (start : Streams Codec) :
    {β : Type} → Step β → Machine → Prop
  /-- An operation on the streams makes the call. -/
  | onStreams {β : Type} {step : StreamStep Codec β} {machine : Machine}
    (occurs : call.Occurs start step machine.streams) :
    Performs call start (Step.onStreams step) machine
  /-- The first part of a step makes the call. -/
  | first {β γ : Type} {first : Step β} {next : β → Step γ} {before : Machine}
    (performs : Performs call start first before) : Performs call start (first >>= next) before
  /-- The first part ends with a value, and what comes then makes the call. -/
  | next {β γ : Type} {first : Step β} {next : β → Step γ} {value : β} {before middle : Machine}
    (ran : first.run before = (.ok value, middle)) (performs : Performs call start (next value) middle) :
    Performs call start (first >>= next) before
  /-- An instruction at its place makes the call. -/
  | guarded {β : Type} {config : Config} {depth : Nat} {site : Site} {step : Step β}
    {machine : Machine} (performs : Performs call start step machine) :
    Performs call start (Step.guarded config depth site step) machine

section Fails

variable {α β : Type} {call : StreamStep Codec α} {start before last : Streams Codec} {fault : Fault}

/-- An operation fails as a call that it makes. -/
theorem StreamStep.Occurs.fails {step : StreamStep Codec β} (occurs : call.Occurs start step before)
    (failed : call.run start = (.error fault, last)) :
    ∃ after, step.run before = (.error fault, after) := by
  induction occurs with
  | self => exact ⟨last, failed⟩
  | first _ hypothesis =>
    obtain ⟨after, ran⟩ := hypothesis
    exact ⟨after, run_bind_error ran⟩
  | next ran _ hypothesis =>
    obtain ⟨after, failed⟩ := hypothesis
    exact ⟨after, (run_bind_ok ran).trans failed⟩

/-- **A run fails as what it performs.** The path of the failure tells where. -/
theorem Step.Performs.fails {step : Step β} {machine : Machine}
    (performs : step.Performs call start machine) (failed : call.run start = (.error fault, last)) :
    ∃ path after, step.run machine = (.error ⟨fault, path⟩, after) := by
  induction performs with
  | @onStreams β step machine occurs =>
    obtain ⟨after, ran⟩ := occurs.fails failed
    refine ⟨[], { machine with streams := after }, ?_⟩
    rw [run_onStreams, ran]
    rfl
  | first _ hypothesis =>
    obtain ⟨path, after, ran⟩ := hypothesis
    exact ⟨path, after, run_bind_error ran⟩
  | next ran _ hypothesis =>
    obtain ⟨path, after, failed⟩ := hypothesis
    exact ⟨path, after, (run_bind_ok ran).trans failed⟩
  | @guarded β config depth site step machine _ hypothesis =>
    obtain ⟨path, after, ran⟩ := hypothesis
    rw [run_guarded, ran]
    dsimp only
    unfold Failure.within
    split
    · exact ⟨_, _, rfl⟩
    · exact ⟨_, _, rfl⟩

/-- A run that does not fail for a guard comes to no call that does. -/
theorem Step.Performs.unguarded {step : Step β} {machine : Machine}
    (performs : step.Performs call start machine)
    (unguarded : ∀ failure after, step.run machine = (.error failure, after) →
      ¬failure.fault.Guards) :
    ¬∃ fault after, call.run start = (.error fault, after) ∧ fault.Guards := by
  rintro ⟨fault, after, failed, guards⟩
  obtain ⟨path, last, ran⟩ := performs.fails failed
  exact unguarded _ _ ran guards

end Fails

/-! ### Buffers of views -/

/-- A buffer refuses to drop what it does not hold. -/
theorem Buffer.consume_refused {buffer : Buffer} {count : Int}
    (beyond : ¬(0 ≤ count ∧ count ≤ buffer.content.length)) : buffer.consume count =
      (.error (.misuse (.consumeBeyondBuffer count buffer.content.length)), buffer) := by
  unfold consume
  rw [if_pos]
  rw [← Bool.not_eq_true, holds_iff]
  omega

/-- The first so many bytes, if a buffer holds as many. They stay there. -/
def Buffer.front (buffer : Buffer) (count : Nat) : Except Fault Bytes × Buffer :=
  if buffer.holds count then (.ok (buffer.content.take count), buffer)
  else (.error (.decode (.shortRead count buffer.content.length)), buffer)

namespace View

variable {α : Type} {streams : Streams Codec} {view : View} {count : Int}

/-- A view with a buffer of its own. -/
def Buffered : View → Prop
  | .take _ _ => False
  | _ => True

/-- The buffer of a view. -/
def buffer (streams : Streams Codec) : View → Buffer
  | .source _ cell => (streams.sources.get cell).buffer
  | .cursor cell => (streams.cursors.get cell).buffer
  | .take _ _ => {}
  | .transformed cell _ => (streams.transforms.get cell).buffer

/-- Writes the buffer of a view. -/
def withBuffer (streams : Streams Codec) (buffer : Buffer) : View → Streams Codec
  | .source _ cell => { streams with
      sources := streams.sources.set cell { streams.sources.get cell with buffer := buffer } }
  | .cursor cell => { streams with
      cursors := streams.cursors.set cell { streams.cursors.get cell with buffer := buffer } }
  | .take _ _ => streams
  | .transformed cell _ => { streams with
      transforms := streams.transforms.set cell
        { streams.transforms.get cell with buffer := buffer } }

/-- Runs an operation on the buffer of a view. -/
def onBuffer (view : View) (act : Buffer → Except Fault α × Buffer) : StreamStep Codec α :=
  ExceptT.mk fun streams =>
    let result := act (view.buffer streams)
    (result.1, view.withBuffer streams result.2)

theorem run_onBuffer (view : View) (act : Buffer → Except Fault α × Buffer)
    (streams : Streams Codec) : (view.onBuffer act).run streams =
      ((act (view.buffer streams)).1, view.withBuffer streams (act (view.buffer streams)).2) := rfl

theorem buffer_withBuffer (buffered : view.Buffered) (streams : Streams Codec) (buffer : Buffer) :
    view.buffer (view.withBuffer streams buffer) = buffer := by
  cases view with
  | take cell parent => exact buffered.elim
  | source own cell | cursor cell | transformed cell parent =>
    dsimp only [View.buffer, withBuffer]
    rw [Table.get_set_self]

theorem withBuffer_withBuffer (buffered : view.Buffered) (streams : Streams Codec)
    (first last : Buffer) :
    view.withBuffer (view.withBuffer streams first) last = view.withBuffer streams last := by
  cases view with
  | take cell parent => exact buffered.elim
  | source own cell | cursor cell | transformed cell parent =>
    dsimp only [withBuffer]
    rw [Table.get_set_self, Table.set_set]

theorem consume_eq (buffered : view.Buffered) (count : Int) :
    view.consume count = view.onBuffer fun buffer => buffer.consume count := by
  cases view with
  | take cell parent => exact buffered.elim
  | source own cell | cursor cell | transformed cell parent => rfl

/-! ### What the guards refuse -/

/-- The bytes that the topmost layer of a view holds: those in its buffer, or what is left of a
bound. -/
def holding (streams : Streams Codec) : View → Int
  | .take cell _ => (streams.bounds.get cell).left
  | view => (view.buffer streams).content.length

/-- **Dropping what a layer does not hold** is refused by a guard. -/
theorem consume_guards (beyond : ¬(0 ≤ count ∧ count ≤ view.holding streams)) :
    ∃ fault after, (view.consume count).run streams = (.error fault, after) ∧ fault.Guards := by
  have refuses : ∀ view : View, view.Buffered →
      ¬(0 ≤ count ∧ count ≤ (view.buffer streams).content.length) →
        ∃ fault after, (view.consume count).run streams = (.error fault, after) ∧ fault.Guards := by
    intro view buffered beyond
    rw [consume_eq buffered, run_onBuffer, Buffer.consume_refused beyond]
    exact ⟨_, _, rfl, trivial⟩
  cases view with
  | source own cell | cursor cell | transformed cell parent => exact refuses _ trivial beyond
  | take cell parent =>
    have refused : count < 0 ∨ (streams.bounds.get cell).left < count := by
      dsimp only [holding] at beyond
      omega
    exact ⟨_, _, (run_consume_take cell parent count streams).trans (if_pos refused), trivial⟩

/-- **Reading a negative number of bytes** is refused by a guard. -/
theorem readExact_guards (view : View) (streams : Streams Codec) (negative : count < 0) :
    ∃ fault after, (view.readExact count).run streams = (.error fault, after) ∧ fault.Guards :=
  ⟨_, _, readExact_negative negative view streams, trivial⟩

/-! ### Reading drops what it gives -/

/-- Makes a view with a buffer hold so many bytes, if it can give as many. -/
def pull : View → (want : Nat) → StreamStep Codec Unit
  | .source execution cell, want =>
    onSource cell fun driver source => source.pullUntil driver execution want
  | .transformed cell parent, want =>
    prepare cell parent (fillBuf parent 1) (consume parent) want
  | _, _ => return ()

/-- A read pulls, and takes what is held then. -/
theorem readExact_pull (buffered : view.Buffered) (count : Nat) :
    view.readExact count = view.pull count >>= fun _ => view.onBuffer fun buffer =>
      buffer.read count := by
  have natural : ¬(count : Int) < 0 := Int.not_lt.mpr (Int.natCast_nonneg count)
  cases view with
  | take cell parent => exact buffered.elim
  | cursor cell =>
    unfold readExact
    rw [if_neg natural]
    rfl
  | transformed cell parent =>
    unfold readExact
    rw [if_neg natural]
    rfl
  | source own cell =>
    funext streams
    unfold readExact
    rw [if_neg natural, Int.toNat_natCast]
    show (onSource cell _).run streams = ((View.source own cell).pull count >>= _).run streams
    have ran : ((View.source own cell).pull count).run streams =
      (((streams.sources.get cell).pullUntil streams.driver own count).1, { streams with
        sources := streams.sources.set cell
          ((streams.sources.get cell).pullUntil streams.driver own count).2 }) := rfl
    rw [run_bind, ran, run_onSource rfl]
    rcases (streams.sources.get cell).pullUntil streams.driver own count with ⟨fault | _, source⟩
    · rfl
    · dsimp only
      rw [run_onBuffer]
      dsimp only [View.buffer, withBuffer]
      rw [Table.get_set_self, Table.set_set]

/-- What is taken from a buffer is looked at and then dropped. -/
theorem onBuffer_read (buffered : view.Buffered) (count : Nat) :
    (view.onBuffer fun buffer => buffer.read count) = (do
      let bytes ← view.onBuffer fun buffer => buffer.front count
      view.consume count
      return bytes) := by
  funext streams
  show (view.onBuffer _).run streams = (view.onBuffer _ >>= _).run streams
  rw [consume_eq buffered, run_onBuffer]
  rcases Nat.lt_or_ge (view.buffer streams).content.length count with short | enough
  · have refused : (view.buffer streams).front count = (.error (.decode (.shortRead count
        (view.buffer streams).content.length)), view.buffer streams) :=
      if_neg (by rw [Buffer.holds_iff]; exact Nat.not_le_of_lt short)
    rw [Buffer.read_short _ _ short, run_bind, run_onBuffer, refused]
  · have given : (view.buffer streams).front count =
        (.ok ((view.buffer streams).content.take count), view.buffer streams) :=
      if_pos ((Buffer.holds_iff _ _).mpr enough)
    have dropped : (view.onBuffer fun buffer => buffer.consume count).run
        (view.withBuffer streams (view.buffer streams)) =
          (.ok (), view.withBuffer streams ((view.buffer streams).drop count)) := by
      rw [run_onBuffer, buffer_withBuffer buffered, Buffer.consume_held _ _ enough,
        withBuffer_withBuffer buffered]
    rw [Buffer.read_held _ _ enough, run_bind, run_onBuffer, given]
    dsimp only
    rw [run_bind_ok dropped]
    rfl

/-- **A read from a buffer** pulls, looks at what is held and drops it. -/
theorem readExact_eq (buffered : view.Buffered) (count : Nat) :
    view.readExact count = (do
      view.pull count
      let bytes ← view.onBuffer fun buffer => buffer.front count
      view.consume count
      return bytes) := by
  rw [readExact_pull buffered, onBuffer_read buffered]

/-! ### Calls that operations make -/

section Occurs

variable {cell want fuel : Nat} {parent : View} {peeked after : Streams Codec} {bytes given : Bytes}

/-- A read from a buffer that gives bytes drops them. -/
theorem readExact_occurs (buffered : view.Buffered) {count : Nat}
    (ran : (view.readExact count).run streams = (.ok bytes, after)) :
    ∃ start, (view.consume count : StreamStep Codec Unit).Occurs start (view.readExact count)
      streams := by
  rw [readExact_eq buffered] at ran ⊢
  obtain ⟨_, pulled, first, rest⟩ := run_bind_eq_ok ran
  obtain ⟨_, looked, second, -⟩ := run_bind_eq_ok rest
  exact ⟨looked, .next first (.next second (.first .self))⟩

/-- A read within a bound is one below it. -/
theorem readExact_take_occurs (within : count ≤ (streams.bounds.get cell).left) :
    (parent.readExact count : StreamStep Codec Bytes).Occurs streams
      (readExact (.take cell parent) count) streams := by
  refine .next (run_look _ _) ?_
  rw [if_neg (Int.not_lt.mpr within)]
  exact .first .self

/-- What is dropped within a bound is dropped below it. -/
theorem consume_take_occurs (natural : 0 ≤ count) (within : count ≤ (streams.bounds.get cell).left) :
    ∃ start, (parent.consume count : StreamStep Codec Unit).Occurs start
      (consume (.take cell parent) count) streams :=
  ⟨_, .next (run_onBound (if_neg (by omega))) (.first .self)⟩

/-- What a codec used is dropped from the view under it. -/
theorem refill_occurs {peekParent : StreamStep Codec Bytes}
    {dropParent : Int → StreamStep Codec Unit} {fed : Streams Codec} {used : Int}
    (wanting : ((streams.transforms.get cell).buffer.ended ||
      (streams.transforms.get cell).buffer.holds want) = false)
    (unfinished : (streams.transforms.get cell).finished = false)
    (peeks : peekParent.run streams = (.ok given, peeked)) (some : given.isEmpty = false)
    (feeds : (feedCodec cell given).run peeked = (.ok (bytes, used), fed)) :
    (dropParent used).Occurs fed (refill cell peekParent dropParent want (fuel + 1)) streams := by
  refine .next (run_look _ _) ?_
  rw [wanting, if_neg Bool.false_ne_true, unfinished, if_neg Bool.false_ne_true]
  refine .next peeks ?_
  rw [some, if_neg Bool.false_ne_true]
  exact .next feeds (.first .self)

/-- A read that wants more than a codec gave feeds it first. -/
theorem readExact_transformed_occurs {α : Type} {call : StreamStep Codec α} {start : Streams Codec}
    (wanting : ((streams.transforms.get cell).buffer.ended ||
      (streams.transforms.get cell).buffer.holds want) = false)
    (occurs : ∀ fuel, call.Occurs start
      (refill cell (fillBuf parent 1) (consume parent) want (fuel + 1)) streams) :
    call.Occurs start (readExact (.transformed cell parent) want) streams := by
  rw [readExact_pull (show (View.transformed cell parent).Buffered from trivial)]
  refine .first (.next (run_look _ _) ?_)
  rw [wanting, if_neg Bool.false_ne_true]
  exact .next (run_look _ _) (occurs _)

/-- What is seen on the way to the end of a view is dropped. -/
theorem drain_occurs (peeks : (view.fillBuf 1).run streams = (.ok given, peeked))
    (some : given.isEmpty = false) :
    (view.consume given.length : StreamStep Codec Unit).Occurs peeked (view.drain (fuel + 1))
      streams := by
  refine .next peeks ?_
  rw [some, if_neg Bool.false_ne_true]
  exact .first .self

end Occurs

end View

/-- A terminator that stands next is dropped. -/
theorem untilTerminator_performs {view : View} {terminator given : Bytes} {body : Step Unit}
    {machine peeked : Machine}
    (peeks : (Step.onStreams (view.fillBuf terminator.length)).run machine = (.ok given, peeked))
    (some : given.isEmpty = false) (next : given.take terminator.length = terminator)
    (fuel : Nat) : (untilTerminator view terminator body (fuel + 1)).Performs
      (view.consume terminator.length) peeked.streams machine := by
  refine .next peeks ?_
  rw [some, if_neg Bool.false_ne_true, if_pos next]
  exact .onStreams .self

end WireProgram
