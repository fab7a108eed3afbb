/-
**The faults of reading.**

What reads a stream can fail in some ways only, which are listed here once: those of the stream and of
its codecs, and those of the capabilities that read from it. None of them comes from the program alone,
and none is that of an array that ends inside an element. The main definitions and statements:

* `Fault.OfReading`, these faults, and `ReadsOnly`, an operation on the streams that raises no other fault;
* `View.readExact_reads` and its like, the operations on views;
* `Transform.wrap_reads` and `ForeignType.decode_reads`, those of capabilities.
-/

import WireProgram.Proofs.Run.Computes
import WireProgram.Proofs.Stream.Operation

namespace WireProgram

/-! ### The faults -/

/-- The faults of reading, and those of the values that tell how to read. -/
def Fault.OfReading : Fault → Prop
  | .decode (.shortRead _ _) | .decode (.sourceFailed _) | .decode .sourceNotReady
  | .decode .truncatedMember | .decode (.malformedBase64 _) | .decode (.malformedGzip _)
  | .decode (.malformedUtf8 _) | .decode (.malformedUtf16 _) | .decode (.varintOverflow _ _)
  | .decode (.varintTooLong _ _)
  | .misuse (.consumeBeyondBuffer _ _) | .misuse (.consumeBeyondView _ _)
  | .misuse (.negativeRead _) | .misuse .boundExceeded
  | .program (.mixedModes _ _) | .program (.transformArguments _ _)
  | .program (.typeArguments _ _) => True
  | fault => fault.OfValues

namespace Fault.OfReading

variable {fault : Fault}

theorem not_static (ofReading : fault.OfReading) : ¬fault.Static := by
  unfold OfReading at ofReading
  split at ofReading
  case h_18 => exact fun static => ofReading.not_structural static.structural
  all_goals exact id

theorem not_partial (ofReading : fault.OfReading) : ¬fault.Partial := by
  unfold OfReading at ofReading
  split at ofReading
  case h_18 => exact ofReading.not_partial
  all_goals exact id

end Fault.OfReading

/-- The faults of values are among them. -/
theorem Fault.OfValues.reading {fault : Fault} (ofValues : fault.OfValues) : fault.OfReading := by
  unfold OfReading
  split
  case h_18 => exact ofValues
  all_goals trivial

/-- A result that is no fault but one of reading. -/
abbrev ReadResult {α : Type} (result : Except Fault α) : Prop :=
  Ends result (fun _ => True) Fault.OfReading

theorem Ends.reading {α : Type} {result : Except Fault α} {good : α → Prop}
    (ends : Ends result good Fault.OfValues) : Ends result good Fault.OfReading :=
  ends.mono (fun _ holds => holds) fun _ => Fault.OfValues.reading

/-- An operation on the streams that raises no fault but one of reading. -/
def ReadsOnly {α : Type} (step : StreamStep Codec α) : Prop :=
  ∀ streams, ReadResult (step.run streams).1

namespace ReadsOnly

variable {α β : Type}

theorem pure (value : α) : ReadsOnly (Pure.pure value) :=
  fun _ => trivial

theorem throw {fault : Fault} (ofReading : fault.OfReading) :
    ReadsOnly (MonadExcept.throw fault : StreamStep Codec α) :=
  fun _ => ofReading

theorem bind {step : StreamStep Codec α} {next : α → StreamStep Codec β} (first : ReadsOnly step)
    (second : ∀ value, ReadsOnly (next value)) : ReadsOnly (step >>= next) := by
  intro streams
  have here := first streams
  rw [run_bind]
  rcases ran : step.run streams with ⟨fault | value, after⟩
  · rwa [ran] at here
  · exact second value after

theorem ofExcept {result : Except Fault α} (reading : ReadResult result) :
    ReadsOnly (StreamStep.ofExcept result) :=
  fun _ => reading

theorem openedBy (make : Streams Codec → View × Streams Codec) :
    ReadsOnly (WireProgram.openedBy make) :=
  fun _ => trivial

end ReadsOnly

/-! ### Buffers and sources -/

theorem Buffer.consume_reads (buffer : Buffer) (count : Int) :
    ReadResult (buffer.consume count).1 := by
  unfold Buffer.consume
  split
  · exact trivial
  · trivial

theorem Buffer.read_reads (buffer : Buffer) (count : Nat) : ReadResult (buffer.read count).1 := by
  unfold Buffer.read
  split
  · trivial
  · exact trivial

theorem Source.pullFrom_reads (driver own : Execution) (want : Nat) (pending : List Chunk)
    (buffer : Buffer) (pulled : Nat) :
    ReadResult (Source.pullFrom driver own want pending buffer pulled).1 := by
  induction pending generalizing buffer pulled with
  | nil =>
    unfold Source.pullFrom
    split
    · trivial
    · split
      · exact trivial
      · trivial
  | cons chunk rest hypothesis =>
    unfold Source.pullFrom
    split
    · trivial
    · split
      · exact trivial
      · cases chunk with
        | bytes content =>
          dsimp only
          split
          · trivial
          · exact hypothesis _ _
        | absent =>
          dsimp only
          split
          · exact trivial
          · exact trivial
        | failure reason => exact trivial

/-! ### Codecs -/

theorem Codec.decodeText_reads (text : Bytes) : ReadResult (Codec.decodeText text) := by
  unfold Codec.decodeText
  cases Base64.decode text with
  | ok bytes => trivial
  | error fault => exact trivial

theorem Codec.feed_reads (codec : Codec) (given : Bytes) : ReadResult (codec.feed given).1 := by
  cases codec with
  | base64 pending => exact (Codec.decodeText_reads _).map fun _ _ => trivial
  | gzip member refused =>
    cases refused with
    | some fault => exact trivial
    | none =>
      show ReadResult (Codec.feedGzip member none given).1
      unfold Codec.feedGzip
      dsimp only
      split
      · exact trivial
      · trivial
  | xor key =>
    simp only [Codec.feed]
    split
    · trivial
    · exact trivial
  | block left => trivial

theorem Codec.finish_reads (codec : Codec) : ReadResult codec.finish.1 := by
  cases codec with
  | base64 pending =>
    show ReadResult (if pending.isEmpty then .ok [] else Codec.decodeText pending)
    split
    · trivial
    · exact Codec.decodeText_reads pending
  | gzip member refused =>
    show ReadResult (if member.isComplete then .ok [] else .error (.decode .truncatedMember))
    split
    · trivial
    · exact trivial
  | xor key => trivial
  | block left => trivial

/-! ### Views -/

namespace View

theorem onSource_reads {α : Type} {cell : Nat} {act : Execution → Source → Except Fault α × Source}
    (reading : ∀ driver source, ReadResult (act driver source).1) : ReadsOnly (onSource cell act) :=
  fun _ => reading _ _

theorem onCursor_reads {α : Type} {cell : Nat} {act : Buffer → Except Fault α × Buffer}
    (reading : ∀ buffer, ReadResult (act buffer).1) : ReadsOnly (onCursor cell act) :=
  fun _ => reading _

theorem onBound_reads {α : Type} {cell : Nat} {act : Bound → Except Fault α × Bound}
    (reading : ∀ bound, ReadResult (act bound).1) : ReadsOnly (onBound cell act) :=
  fun _ => reading _

theorem onTransformed_reads {α : Type} {cell : Nat}
    {act : Transformed Codec → Except Fault α × Transformed Codec}
    (reading : ∀ layer, ReadResult (act layer).1) : ReadsOnly (onTransformed cell act) :=
  fun _ => reading _

theorem look_reads {α : Type} (question : Streams Codec → α) : ReadsOnly (look question) :=
  fun _ => trivial

theorem consume_reads (view : View) (count : Int) : ReadsOnly (consume view count) := by
  induction view with
  | source execution cell => exact onSource_reads fun _ _ => Buffer.consume_reads _ _
  | cursor cell => exact onCursor_reads fun _ => Buffer.consume_reads _ _
  | transformed cell parent => exact onTransformed_reads fun _ => Buffer.consume_reads _ _
  | take cell parent hypothesis =>
    refine (onBound_reads fun bound => ?_).bind fun _ => hypothesis.bind fun _ =>
      onBound_reads fun _ => trivial
    split
    · exact trivial
    · trivial

theorem feedCodec_reads (cell : Nat) (given : Bytes) :
    ReadsOnly (feedCodec cell given : StreamStep Codec (Bytes × Int)) := by
  refine onTransformed_reads fun layer => ?_
  split
  · trivial
  · exact Codec.feed_reads _ _

theorem finishCodec_reads (cell : Nat) : ReadsOnly (finishCodec cell : StreamStep Codec Bytes) := by
  refine onTransformed_reads fun layer => ?_
  split
  · trivial
  · exact Codec.finish_reads _

theorem refill_reads {cell : Nat} {peekParent : StreamStep Codec Bytes}
    {dropParent : Int → StreamStep Codec Unit} (peeks : ReadsOnly peekParent)
    (drops : ∀ count, ReadsOnly (dropParent count)) (want fuel : Nat) :
    ReadsOnly (refill cell peekParent dropParent want fuel) := by
  induction fuel with
  | zero => exact .throw trivial
  | succ fuel hypothesis =>
    refine (look_reads _).bind fun layer => ?_
    split
    · exact .pure _
    · split
      · exact onTransformed_reads fun _ => trivial
      · refine peeks.bind fun given => ?_
        have delivered : ∀ (settle : Bool) (bytes : Bytes),
            ReadsOnly (deliver cell settle bytes : StreamStep Codec Unit) :=
          fun _ _ => onTransformed_reads fun _ => trivial
        split
        · exact (finishCodec_reads cell).bind fun bytes =>
            (delivered false bytes).bind fun _ => hypothesis
        · exact (feedCodec_reads cell given).bind fun result =>
            (drops _).bind fun _ => (delivered true _).bind fun _ => hypothesis

theorem prepare_reads {cell : Nat} {parent : View} {peekParent : StreamStep Codec Bytes}
    {dropParent : Int → StreamStep Codec Unit} (peeks : ReadsOnly peekParent)
    (drops : ∀ count, ReadsOnly (dropParent count)) (want : Nat) :
    ReadsOnly (prepare cell parent peekParent dropParent want) := by
  refine (look_reads _).bind fun ready => ?_
  split
  · exact .pure _
  · exact (look_reads _).bind fun _ => refill_reads peeks drops want _

theorem fillBuf_reads (view : View) (want : Nat) :
    ReadsOnly (fillBuf view want : StreamStep Codec Bytes) := by
  induction view generalizing want with
  | source execution cell =>
    exact onSource_reads fun _ _ => (Source.pullFrom_reads _ _ _ _ _ _).map fun _ _ => trivial
  | cursor cell => exact onCursor_reads fun _ => trivial
  | take cell parent hypothesis =>
    refine (look_reads _).bind fun bound => ?_
    split
    · exact .pure _
    · exact (hypothesis _).bind fun _ => .pure _
  | transformed cell parent hypothesis =>
    exact (prepare_reads (hypothesis 1) (consume_reads parent) _).bind fun _ => look_reads _

theorem approach_reads (view : View) (terminator : Bytes) :
    ReadsOnly (approach view terminator : StreamStep Codec Approach) := by
  refine (fillBuf_reads view _).bind fun peeked => ?_
  cases Approach.of terminator peeked with
  | ended => exact .pure _
  | ahead => exact .pure _
  | reached => exact (consume_reads view _).bind fun _ => .pure _

theorem readExact_reads (view : View) (count : Int) :
    ReadsOnly (readExact view count : StreamStep Codec Bytes) := by
  induction view with
  | source execution cell =>
    unfold readExact
    split
    · exact .throw trivial
    · refine onSource_reads fun driver source => ?_
      dsimp only
      have pulled := Source.pullFrom_reads driver execution count.toNat source.input.pending
        source.buffer source.input.pulled
      split
      · rename_i fault same
        exact pulled.error same
      · exact Buffer.read_reads _ _
  | cursor cell =>
    unfold readExact
    split
    · exact .throw trivial
    · exact onCursor_reads fun _ => Buffer.read_reads _ _
  | transformed cell parent =>
    unfold readExact
    split
    · exact .throw trivial
    · exact (prepare_reads (fillBuf_reads parent 1) (consume_reads parent) _).bind fun _ =>
        onTransformed_reads fun _ => Buffer.read_reads _ _
  | take cell parent hypothesis =>
    refine (look_reads _).bind fun bound => ?_
    split
    · split
      · exact .throw trivial
      · split
        · exact .pure _
        · exact (fillBuf_reads _ _).bind fun _ => .throw trivial
    · refine hypothesis.bind fun bytes => ?_
      refine ReadsOnly.bind ?_ fun _ => .pure _
      exact onBound_reads fun _ => trivial

theorem drain_reads (view : View) (fuel : Nat) :
    ReadsOnly (drain view fuel : StreamStep Codec Bytes) := by
  induction fuel with
  | zero => exact .throw trivial
  | succ fuel hypothesis =>
    refine (fillBuf_reads view 1).bind fun available => ?_
    split
    · exact .pure _
    · exact (consume_reads view _).bind fun _ => hypothesis.bind fun _ => .pure _

theorem readToEnd_reads (view : View) : ReadsOnly (readToEnd view : StreamStep Codec Bytes) :=
  (look_reads _).bind fun _ => drain_reads view _

end View

/-! ### Capabilities -/

theorem Transform.wrap_reads (transform : Transform) (stream : View) (arguments : List Value) :
    ReadsOnly (transform.wrap stream arguments) := by
  unfold Transform.wrap
  cases transform.action with
  | base64 =>
    dsimp only
    split
    · exact .openedBy _
    · exact .throw trivial
  | gzip =>
    dsimp only
    split
    · exact .openedBy _
    · exact .throw trivial
  | identity => exact .pure _
  | head => exact (ReadsOnly.ofExcept (firstInteger_computes _).reading).bind fun _ => .openedBy _
  | xor => exact (ReadsOnly.ofExcept (firstInteger_computes _).reading).bind fun _ => .openedBy _
  | block => exact (ReadsOnly.ofExcept (firstInteger_computes _).reading).bind fun _ => .openedBy _

theorem readGroups_reads (name : String) (bits : Nat) (view : View) (count index total : Nat) :
    ReadsOnly (readGroups name bits view count index total) := by
  induction count generalizing index total with
  | zero => exact .throw trivial
  | succ count hypothesis =>
    refine (View.readExact_reads view 1).bind fun bytes => ?_
    dsimp only
    split
    · exact hypothesis _ _
    · split
      · exact .pure _
      · exact .throw trivial

theorem readLength_reads (view : View) (length : Option Nat) :
    ReadsOnly (readLength view length) := by
  cases length with
  | none => exact View.readToEnd_reads view
  | some length => exact View.readExact_reads view length

theorem ForeignType.decode_reads (foreign : ForeignType) (view : View) (arguments : List Value)
    (mode : String) : ReadsOnly (foreign.decode view arguments mode) := by
  unfold ForeignType.decode
  cases foreign.action with
  | varint bits =>
    dsimp only
    split
    · exact readGroups_reads _ _ _ _ _ _
    · exact .throw trivial
  | utf8 =>
    refine (ReadsOnly.ofExcept (textLength_computes _ _).reading).bind fun length =>
      (readLength_reads view _).bind fun bytes => ?_
    split
    · exact .pure _
    · exact .throw trivial
  | utf16 =>
    refine (ReadsOnly.ofExcept (textLength_computes _ _).reading).bind fun length =>
      (readLength_reads view _).bind fun bytes => ?_
    split
    · exact .pure _
    · exact .throw trivial
  | raw =>
    dsimp only
    split
    · exact (View.readToEnd_reads view).bind fun _ => .pure _
    · split
      · exact (View.readExact_reads view _).bind fun _ => .pure _
      · exact .throw trivial
  | peek =>
    dsimp only
    split
    · exact (View.fillBuf_reads view _).bind fun _ => .pure _
    · split
      · exact (View.fillBuf_reads view _).bind fun _ => .pure _
      · exact .throw trivial
    · exact .throw trivial
  | mode => exact .pure _

end WireProgram
