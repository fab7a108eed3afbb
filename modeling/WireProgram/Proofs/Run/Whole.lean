/-
**Which steps meet a partial element.**

Only an array that runs to the end of its stream may end inside an element. An array with a count reads
whole elements or fails before, and nothing else cuts bytes into elements. The main definitions and
statements:

* `Step.WholeFrom` and `Step.Whole`, a step that does not fail for a partial element;
* `Instruction.run_whole`, **every instruction without a block** is such a step, but for the arrays that
  run to the end of their stream (`Instruction.isOpenArray`).
-/

import WireProgram.Proofs.Address
import WireProgram.Proofs.Stream.Effect

namespace WireProgram

variable {α β : Type}

/-! ### Steps that do not fail for a partial element -/

/-- From a machine on, a step does not fail for a partial element. -/
def Step.WholeFrom (step : Step α) (machine : Machine) : Prop :=
  Leads step machine (fun _ _ => True) fun failure _ => ¬failure.fault.Partial

/-- A step that never fails for a partial element. -/
def Step.Whole (step : Step α) : Prop :=
  ∀ machine, step.WholeFrom machine

/-- A result that is no fault of a partial element. -/
abbrev Unbroken (result : Except Fault α) : Prop :=
  Ends result (fun _ => True) fun fault => ¬fault.Partial

theorem Ends.computed_unbroken {result : Except Fault α} (computes : Computes result) :
    Unbroken result :=
  computes.mono (fun _ holds => holds) fun _ => Fault.OfValues.not_partial

theorem Ends.framed_unbroken {result : Except Fault α} (framed : Framed result) : Unbroken result :=
  framed.mono (fun _ holds => holds) fun _ => Fault.OfFrame.not_partial

namespace Step.Whole

theorem pure (value : α) : (Pure.pure value : Step α).Whole :=
  fun _ => Leads.pure trivial

theorem throw {failure : Failure} (other : ¬failure.fault.Partial) :
    (MonadExcept.throw failure : Step α).Whole :=
  fun _ => Leads.throw other

/-- **Sequencing.** -/
theorem bind {step : Step α} {next : α → Step β} (first : step.Whole)
    (second : ∀ value, (next value).Whole) : (step >>= next).Whole :=
  fun machine => Leads.bind (first machine) fun value after _ => second value after

theorem ofExcept {result : Except Fault α} (unbroken : Unbroken result) :
    (Step.ofExcept result).Whole := by
  intro machine
  cases result with
  | ok value => exact Leads.of_ok rfl trivial
  | error fault => exact Leads.of_error rfl unbroken

theorem computed {result : Except Fault α} (computes : Computes result) :
    (Step.ofExcept result).Whole :=
  ofExcept (Ends.computed_unbroken computes)

theorem framed {result : Except Fault α} (framed : Framed result) : (Step.ofExcept result).Whole :=
  ofExcept (Ends.framed_unbroken framed)

theorem onStreams {step : StreamStep Codec α} (reads : ReadsOnly step) :
    (Step.onStreams step).Whole := by
  intro machine
  have ends := reads machine.streams
  rcases ran : step.run machine.streams with ⟨fault | value, streams⟩
  · rw [ran] at ends
    exact Leads.of_error (by rw [run_onStreams, ran]; rfl) ends.not_partial
  · exact Leads.of_ok (by rw [run_onStreams, ran]; rfl) trivial

theorem onLists {act : Lists → Except Fault (α × Lists)} (unbroken : ∀ lists, Unbroken (act lists)) :
    (Step.onLists act).Whole := by
  intro machine
  have ends := unbroken machine.lists
  unfold WholeFrom Leads
  rw [run_onLists]
  cases same : act machine.lists with
  | error fault => exact ends.error same
  | ok found => trivial

theorem look (question : Machine → α) : (Step.look question).Whole :=
  fun machine => Leads.of_ok (run_look question machine) trivial

/-! ### Parts of instructions -/

theorem newList : WireProgram.newList.Whole :=
  onLists fun _ => trivial

theorem countIn (frame : Frame) (what : String) (register : Register) :
    (WireProgram.countIn frame what register).Whole :=
  (framed (frame.get_framed register)).bind fun value => computed (countOf_computes what value)

theorem conditionHolds (frame : Frame) (condition : Register) :
    (WireProgram.conditionHolds frame condition).Whole :=
  (framed (frame.get_framed condition)).bind fun value => (look _).bind fun lists =>
    computed (value.truth_computes lists)

theorem addOutput (frame : Frame) (output item : Register) :
    (WireProgram.addOutput frame output item).Whole := by
  refine (framed (frame.get_framed output)).bind fun list => ?_
  split
  · exact (framed (frame.get_framed item)).bind fun _ => onLists fun _ => trivial
  · exact throw id

theorem readScalar (view : View) (name : Json) : (WireProgram.readScalar view name).Whole :=
  (computed (requirePrimitive_computes name)).bind fun primitive =>
    (onStreams (view.readExact_reads _)).bind fun bytes =>
      computed (scalarOfBytes_computes primitive bytes)

theorem readMember (view : View) (entry : TypeEntry) (backing : Json) :
    (WireProgram.readMember view entry backing).Whole := by
  refine (computed (requirePrimitive_computes backing)).bind fun primitive => ?_
  split
  · exact (onStreams (view.readExact_reads _)).bind fun bytes =>
      computed (entry.ofDiscriminant_computes _)
  · split
    · exact throw id
    · exact throw id

/-- **An array with a count** reads whole elements. -/
theorem readArray (view : View) (name : Json) (count : Nat) (allowPartialTail : Bool) :
    (WireProgram.readArray view name (some count) allowPartialTail).Whole := by
  refine (computed (requirePrimitive_computes name)).bind fun primitive => ?_
  have reads := onStreams (view.readExact_reads (count * primitive.width : Nat))
  intro machine
  refine Leads.bind_run (reads machine) fun bytes after ran => ?_
  have length : bytes.length = count * primitive.width :=
    View.readExact_length (Step.run_onStreams_eq_ok ran)
  rw [arrayOfBytes_whole (by rw [length, Nat.mul_mod_left])]
  exact Leads.of_ok (Step.run_ofExcept_ok rfl after) trivial

theorem goesOn (view : View) (terminator : Bytes) : (view.goesOn terminator).Whole := by
  refine (onStreams (view.approach_reads terminator)).bind fun approach => ?_
  cases approach <;> exact pure _

theorem hasMore (cursor : View) : cursor.hasMore.Whole :=
  look _

end Step.Whole

theorem Step.WholeFrom.bind {step : Step α} {next : α → Step β} {machine : Machine}
    (first : step.WholeFrom machine) (second : ∀ value, (next value).Whole) :
    (step >>= next).WholeFrom machine :=
  Leads.bind first fun value after _ => second value after

/-- **An array that runs to the end of its stream** finds bytes there that end inside an element, or it
does not matter whether these may be dropped. -/
theorem readArray_open (view : View) (name : Json) (machine : Machine) :
    (readArray view name none false).WholeFrom machine ∧
        (readArray view name none true).run machine = (readArray view name none false).run machine ∨
      ∃ primitive bytes drained, requirePrimitive name = .ok primitive ∧
        (Step.onStreams view.readToEnd).run machine = (.ok bytes, drained) ∧
        bytes.length % primitive.width ≠ 0 := by
  cases named : requirePrimitive name with
  | error fault =>
    have failed : ∀ allows, (readArray view name none allows).run machine =
        (.error ⟨fault, []⟩, machine) := by
      intro allows
      unfold readArray
      rw [named]
      rfl
    have other := Ends.computed_unbroken (requirePrimitive_computes name)
    exact .inl ⟨Leads.of_error (failed false) (other.error named),
      (failed true).trans (failed false).symm⟩
  | ok primitive =>
    rcases read : (Step.onStreams view.readToEnd).run machine with ⟨failure | bytes, drained⟩
    · have failed : ∀ allows, (readArray view name none allows).run machine =
          (.error failure, drained) := by
        intro allows
        unfold readArray
        rw [run_bind_ok (Step.run_ofExcept_ok named machine)]
        exact run_bind_error read
      have other := Step.Whole.onStreams view.readToEnd_reads machine
      exact .inl ⟨Leads.of_error (failed false) (other.error read),
        (failed true).trans (failed false).symm⟩
    · by_cases part : bytes.length % primitive.width = 0
      · have gave : ∀ allows, (readArray view name none allows).run machine =
            (.ok (.array primitive (primitive.decodeAll bytes)), drained) := by
          intro allows
          unfold readArray
          rw [run_bind_ok (Step.run_ofExcept_ok named machine)]
          dsimp only
          rw [run_bind_ok read, if_neg fun both => both.1 part, arrayOfBytes_whole part]
          rfl
        exact .inl ⟨Leads.of_ok (gave false) trivial, (gave true).trans (gave false).symm⟩
      · exact .inr ⟨primitive, bytes, drained, rfl, rfl, part⟩

/-! ### Instructions -/

/-- The instruction is an array that runs to the end of its stream. -/
def Instruction.isOpenArray : Instruction → Bool
  | .decodeArray _ _ _ none => true
  | _ => false

theorem Instruction.eq_of_isOpenArray (instruction : Instruction)
    (opened : instruction.isOpenArray = true) :
    ∃ target data name, instruction = .decodeArray target data name none := by
  unfold isOpenArray at opened
  split at opened
  · exact ⟨_, _, _, rfl⟩
  · cases opened

/-- **An instruction without a block,** unless it is an array that runs to the end of its stream, does
not fail for a partial element. -/
theorem Instruction.run_whole (environment : Environment) (refer : Referral)
    {instruction : Instruction} (immediate : instruction.isImmediate = true)
    (closed : instruction.isOpenArray = false) (frame : Frame) :
    (instruction.run environment refer frame).Whole := by
  cases instruction with
  | eval target expression =>
    refine Step.Whole.bind (.onLists fun lists => ?_) fun value => .framed (frame.set_framed _ _)
    have evaluates := @Expression.evaluate_ends _ [] (fun _ => Fault.OfValues.not_partial)
      (environment.program.fieldValue frame) expression lists fun _ name =>
        Ends.framed_unbroken (environment.program.fieldValue_framed frame name)
    exact evaluates.mono (fun _ _ => trivial) fun _ holds => holds
  | construct target constructable =>
    have builds : Unbroken (constructable.build environment.types frame) :=
      constructable.build_ends (fun _ => Fault.OfValues.not_partial) environment.types
        fun register _ => Ends.framed_unbroken (frame.get_framed register)
    exact (Step.Whole.ofExcept builds).bind fun _ => .framed (frame.set_framed _ _)
  | constrict stream newStream length =>
    exact (Step.Whole.framed (frame.target_framed _)).bind fun _ =>
      (Step.Whole.countIn _ _ _).bind fun _ =>
        (Step.Whole.onStreams (.openedBy _)).bind fun _ => .framed (frame.set_framed _ _)
  | wrapStream stream newStream transform arguments =>
    exact (Step.Whole.framed (frame.target_framed _)).bind fun _ =>
      (Step.Whole.framed (frame.getMany_framed _)).bind fun _ =>
        (Step.Whole.onStreams (transform.wrap_reads _ _)).bind fun _ =>
          .framed (frame.set_framed _ _)
  | decodeForeign target data foreign arguments =>
    exact (Step.Whole.framed (frame.target_framed _)).bind fun _ =>
      (Step.Whole.framed (frame.getMany_framed _)).bind fun _ =>
        (Step.Whole.onStreams (foreign.decode_reads _ _ _)).bind fun _ =>
          .framed (frame.set_framed _ _)
  | decodeEnumeration enumeration backing data target =>
    have required :=
      environment.types.require_ends (fun _ => Fault.OfValues.not_partial) enumeration id
    exact (Step.Whole.framed (frame.target_framed _)).bind fun _ =>
      (Step.Whole.ofExcept required).bind fun _ =>
        (Step.Whole.readMember _ _ _).bind fun _ => .framed (frame.set_framed _ _)
  | decodePrimitive target data primitive =>
    exact (Step.Whole.framed (frame.target_framed _)).bind fun _ =>
      (Step.Whole.readScalar _ _).bind fun _ => .framed (frame.set_framed _ _)
  | decodeArray target data primitive length =>
    cases length with
    | none => cases closed
    | some length =>
      exact (Step.Whole.framed (frame.target_framed _)).bind fun _ =>
        (Step.Whole.countIn _ _ _).bind fun _ =>
          (Step.Whole.readArray _ _ _ _).bind fun _ => .framed (frame.set_framed _ _)
  | loopOutput output item => exact (Step.Whole.addOutput _ _ _).bind fun _ => .pure _
  | conditionalWrapStream | decodeReference | loop | conditional => cases immediate

end WireProgram
