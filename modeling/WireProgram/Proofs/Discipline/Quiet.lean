/-
**Faults that come from the program alone.**

Three faults say that a program breaks the discipline of registers: a register was read before it was
written, one was written twice, or a loop has two rules. A fourth one says that a name is not
registered. Only frames, loops and references raise them; nothing that reads a stream or computes a
value does. The main definitions:

* `Quiet`, an operation on the streams that ends in none of the four faults;
* `View.readExact_quiet` and its like, the operations on views, and those of capabilities.
-/

import WireProgram.Proofs.Run.Calm
import WireProgram.Proofs.Stream.Reads

namespace WireProgram

/-- The contract of operations that may do anything but fail for the program alone. -/
def Contract.quiet (σ : Type) : Contract Fault σ Unit where
  later _ _ := True
  tolerates fault := ¬fault.Static
  refl _ := trivial
  trans _ _ := trivial

/-- An operation on the streams that does not fail for the program alone. -/
def Quiet {α : Type} (step : StreamStep Codec α) : Prop :=
  ∀ state, Keeps (.quiet _) (fun _ _ => True) step state

/-- Reading does not fail for the program alone. -/
theorem ReadsOnly.quiet {α : Type} {step : StreamStep Codec α} (reads : ReadsOnly step) :
    Quiet step := by
  intro state
  have ends := reads state.1
  rcases same : step.run state.1 with ⟨fault | value, after⟩
  · rw [same] at ends
    exact .of_error same ends.not_static trivial
  · exact Leads.of_ok same ⟨(), trivial, trivial⟩

theorem Quiet.openedBy (make : Streams Codec → View × Streams Codec) :
    Quiet (WireProgram.openedBy make) :=
  (ReadsOnly.openedBy make).quiet

namespace View

theorem consume_quiet (view : View) (count : Int) :
    Quiet (consume view count : StreamStep Codec Unit) :=
  (view.consume_reads count).quiet

theorem fillBuf_quiet (view : View) (want : Nat) :
    Quiet (fillBuf view want : StreamStep Codec Bytes) :=
  (view.fillBuf_reads want).quiet

theorem approach_quiet (view : View) (terminator : Bytes) :
    Quiet (approach view terminator : StreamStep Codec Approach) :=
  (view.approach_reads terminator).quiet

theorem readExact_quiet (view : View) (count : Int) :
    Quiet (readExact view count : StreamStep Codec Bytes) :=
  (view.readExact_reads count).quiet

theorem readToEnd_quiet (view : View) : Quiet (readToEnd view : StreamStep Codec Bytes) :=
  view.readToEnd_reads.quiet

end View

theorem Transform.wrap_quiet (transform : Transform) (stream : View) (arguments : List Value) :
    Quiet (transform.wrap stream arguments) :=
  (transform.wrap_reads stream arguments).quiet

theorem ForeignType.decode_quiet (foreign : ForeignType) (view : View) (arguments : List Value)
    (mode : String) : Quiet (foreign.decode view arguments mode) :=
  (foreign.decode_reads view arguments mode).quiet

end WireProgram
