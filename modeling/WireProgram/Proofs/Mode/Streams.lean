/-
**Streams in both modes.**

The way in which a raw input is read stands in two places: in the driver of a run and in the roots
of its views. A root is pulled if the two agree, and then gives the same in both modes as long as
its input always has a reply: only a reply of nothing yet is worded by the mode. The main definitions
and statements:

* `View.under` and `Streams.under`, the same view and the same streams in one of the modes;
* `Streams.paired`, one state of the streams in both modes;
* `View.fillBuf_both`, `View.consume_both`, `View.readExact_both` and `View.readToEnd_both`: all
  operations give the same in both modes, a value or a fault.
-/

import WireProgram.Proofs.Ensemble.Unison
import WireProgram.Proofs.Stream.Operation

namespace WireProgram

/-! ### One state in both modes -/

/-- A view whose roots over raw inputs are read in a given way. -/
def View.under (execution : Execution) : View → View
  | .source _ cell => .source execution cell
  | .cursor cell => .cursor cell
  | .take cell parent => .take cell (parent.under execution)
  | .transformed cell parent => .transformed cell (parent.under execution)

/-- Streams that a run reads in a given way. -/
def Streams.under {κ : Type} (execution : Execution) (streams : Streams κ) : Streams κ :=
  { streams with driver := execution }

/-- A source whose input always has a reply. -/
def Source.Prompt (source : Source) : Prop :=
  Chunk.absent ∉ source.input.pending

/-- Streams whose raw inputs always have a reply. -/
def Streams.Prompt {κ : Type} (streams : Streams κ) : Prop :=
  ∀ cell, (streams.sources.get cell).Prompt

/-- One state of the streams in both modes, and the same fault. -/
def Streams.paired (κ : Type) : Accord Execution Fault (Streams κ) where
  states streams := ∃ common : Streams κ, common.Prompt ∧
    streams = fun execution => common.under execution
  faults := Constant
  later _ _ := True
  refl _ := trivial
  trans _ _ := trivial

/-- Each state of the streams in both modes may come after any other. -/
theorem Streams.reached {κ : Type} {before : Execution → Streams κ} {streams : Streams κ}
    (prompt : streams.Prompt) :
    (Streams.paired κ).Reached before fun execution => streams.under execution :=
  ⟨⟨streams, prompt, rfl⟩, trivial⟩

/-! ### Sources -/

namespace Source

theorem pullFrom_same (want : Nat) (pending : List Chunk) (buffer : Buffer) (pulled : Nat)
    (prompt : Chunk.absent ∉ pending) :
    ∃ result source, source.Prompt ∧ ∀ execution,
      pullFrom execution execution want pending buffer pulled = (result, source) := by
  induction pending generalizing buffer pulled with
  | nil =>
    by_cases enough : (buffer.ended || buffer.holds want) = true
    · refine ⟨.ok (), ⟨buffer, ⟨[], pulled⟩⟩, prompt, fun execution => ?_⟩
      rw [pullFrom, if_pos enough]
    · refine ⟨.ok (), ⟨{ buffer with ended := true }, ⟨[], pulled⟩⟩, prompt, fun execution => ?_⟩
      rw [pullFrom, if_neg enough, if_neg (not_not.mpr rfl)]
  | cons chunk rest hypothesis =>
    have promptRest : Chunk.absent ∉ rest := fun member => prompt (List.mem_cons_of_mem _ member)
    by_cases enough : (buffer.ended || buffer.holds want) = true
    · refine ⟨.ok (), ⟨buffer, ⟨chunk :: rest, pulled⟩⟩, prompt, fun execution => ?_⟩
      rw [pullFrom.eq_def]
      exact if_pos enough
    · cases chunk with
      | bytes content =>
        by_cases last : content.isEmpty = true
        · refine ⟨.ok (), ⟨{ buffer with ended := true }, ⟨rest, pulled⟩⟩, promptRest,
            fun execution => ?_⟩
          rw [pullFrom, if_neg enough, if_neg (not_not.mpr rfl)]
          exact if_pos last
        · obtain ⟨result, source, kept, same⟩ :=
            hypothesis (buffer.append content) (pulled + content.length) promptRest
          refine ⟨result, source, kept, fun execution => ?_⟩
          rw [pullFrom, if_neg enough, if_neg (not_not.mpr rfl)]
          exact (if_neg last).trans (same execution)
      | absent =>
        -- the one reply that is worded by the driver
        exact absurd (List.mem_cons_self ..) prompt
      | failure reason =>
        refine ⟨.error (.decode (.sourceFailed reason)), ⟨buffer, ⟨rest, pulled⟩⟩, promptRest,
          fun execution => ?_⟩
        rw [pullFrom, if_neg enough, if_neg (not_not.mpr rfl)]

/-- A root is pulled in the same way by a driver of either kind, if it is of that kind. -/
theorem pullUntil_same (want : Nat) {source : Source} (prompt : source.Prompt) :
    ∃ result after, Prompt after ∧ ∀ execution,
      source.pullUntil execution execution want = (result, after) :=
  pullFrom_same want source.input.pending source.buffer source.input.pulled prompt

end Source

namespace View

variable {κ α β : Type} {cell : Nat}

/-! ### Looking at a view -/

theorem position_under (execution : Execution) (streams : Streams κ) (view : View) :
    (view.under execution).position (streams.under execution) = view.position streams := by
  cases view <;> rfl

theorem atEnd_under (execution : Execution) (streams : Streams κ) (view : View) :
    (view.under execution).atEnd (streams.under execution) = view.atEnd streams := by
  induction view with
  | source own cell => rfl
  | cursor cell => rfl
  | take cell parent hypothesis =>
    simp only [under, atEnd, hypothesis]
    rfl
  | transformed cell parent => rfl

theorem turns_under (execution : Execution) (streams : Streams κ) (view : View) :
    (view.under execution).turns (streams.under execution) = view.turns streams := by
  induction view with
  | source own cell => rfl
  | cursor cell => rfl
  | take cell parent hypothesis => simp only [under, turns, hypothesis]
  | transformed cell parent hypothesis => simp only [under, turns, hypothesis]

theorem weight_under [ChunkCodec κ] (execution : Execution) (streams : Streams κ) (view : View) :
    (view.under execution).weight (streams.under execution) = view.weight streams := by
  induction view with
  | source own cell => rfl
  | cursor cell => rfl
  | take cell parent hypothesis =>
    simp only [under, weight, hypothesis]
    rfl
  | transformed cell parent hypothesis =>
    simp only [under, weight, hypothesis]
    rfl

/-! ### Steps of an operation -/

/-- An operation in both modes, with results that belong together. -/
abbrev Both (good : (Execution → α) → Prop) (step : Execution → StreamStep κ α) : Prop :=
  ∀ streams : Streams κ, streams.Prompt →
    Unison (Streams.paired κ) (fun _ => good) step fun execution => streams.under execution

theorem Both.bind {put : Execution → α → α} {good : (Execution → β) → Prop}
    {step : Execution → StreamStep κ α} {next : Execution → α → StreamStep κ β}
    (first : Both (Common put) step)
    (second : ∀ value, Both good fun execution => next execution (put execution value)) :
    Both good fun execution => step execution >>= next execution := by
  intro streams prompt
  refine (first streams prompt).bind ?_
  rintro _ _ ⟨⟨common, kept, rfl⟩, -⟩ ⟨value, rfl⟩
  exact second value common kept

theorem Both.ite {condition : Prop} [Decidable condition] {good : (Execution → α) → Prop}
    {step step' : Execution → StreamStep κ α} (holds : condition → Both good step)
    (fails : ¬condition → Both good step') :
    Both good fun execution => if condition then step execution else step' execution :=
  fun streams prompt => .ite (fun test => holds test streams prompt)
    fun test => fails test streams prompt

theorem both_pure (put : Execution → α → α) (value : α) :
    Both (Common put) fun execution => (pure (put execution value) : StreamStep κ α) :=
  fun streams prompt => .pure ⟨streams, prompt, rfl⟩ (.intro put value)

theorem both_throw {good : (Execution → α) → Prop} (fault : Fault) :
    Both good fun _ => (throw fault : StreamStep κ α) :=
  fun streams prompt => .throw ⟨streams, prompt, rfl⟩ ⟨fault, rfl⟩

theorem both_look {question : Execution → Streams κ → α} (answer : Streams κ → α)
    (same : ∀ execution streams, question execution (streams.under execution) = answer streams) :
    Both Constant fun execution => look (question execution) := by
  intro streams prompt
  refine .of_ok (Streams.reached prompt) (.intro _ (answer streams)) fun execution => ?_
  rw [run_look, same]

theorem both_onSource {act : Execution → Execution → Source → Except Fault α × Source}
    (same : ∀ source : Source, source.Prompt → ∃ result after, Source.Prompt after ∧
      ∀ execution, act execution execution source = (result, after)) :
    Both Constant fun execution => (onSource cell (act execution) : StreamStep κ α) := by
  intro streams prompt
  obtain ⟨result, source, kept, ran⟩ := same _ (prompt cell)
  have prompt' : Streams.Prompt
      { streams with sources := streams.sources.set cell source } := by
    intro other
    show Source.Prompt ((streams.sources.set cell source).get other)
    rw [Table.get_set]
    by_cases here : other = cell
    · rw [if_pos here]
      exact kept
    · rw [if_neg here]
      exact prompt other
  have done : ∀ execution : Execution, (onSource cell (act execution) : StreamStep κ α).run
      (streams.under execution) = (result, Streams.under execution
        { streams with sources := streams.sources.set cell source }) :=
    fun execution => run_onSource (ran execution)
  cases result with
  | ok value => exact .of_ok (Streams.reached prompt') (.intro _ value) done
  | error fault => exact .of_error (Streams.reached prompt') (.intro _ fault) done

/-- A change of the streams that sees neither the driver nor a source. -/
theorem both_of_run {put : Execution → α → α} {step : Execution → StreamStep κ α}
    (result : Streams κ → Except Fault α × Streams κ)
    (ran : ∀ execution streams, (step execution).run (streams.under execution) =
      ((result streams).1.map (put execution), (result streams).2.under execution))
    (sources : ∀ streams, (result streams).2.sources = streams.sources) :
    Both (Common put) step := by
  intro streams prompt
  have prompt' : (result streams).2.Prompt := by
    intro other
    rw [sources]
    exact prompt other
  cases found : (result streams).1 with
  | ok value =>
    refine .of_ok (Streams.reached prompt') (.intro put value) fun execution => ?_
    rw [ran, found]
    rfl
  | error fault =>
    refine .of_error (Streams.reached prompt') (.intro _ fault) fun execution => ?_
    rw [ran, found]
    rfl

/-- A change of the streams with the same result. -/
theorem both_of_run_same {step : Execution → StreamStep κ α}
    (result : Streams κ → Except Fault α × Streams κ)
    (ran : ∀ execution streams, (step execution).run (streams.under execution) =
      ((result streams).1, (result streams).2.under execution))
    (sources : ∀ streams, (result streams).2.sources = streams.sources) :
    Both Constant step := by
  refine both_of_run result (fun execution streams => ?_) sources
  rw [ran]
  cases (result streams).1 <;> rfl

theorem both_onCursor {act : Buffer → Except Fault α × Buffer} :
    Both Constant fun _ => (onCursor cell act : StreamStep κ α) :=
  both_of_run_same (onCursor cell act) (fun _ _ => rfl) fun _ => rfl

theorem both_onBound {act : Bound → Except Fault α × Bound} :
    Both Constant fun _ => (onBound cell act : StreamStep κ α) :=
  both_of_run_same (onBound cell act) (fun _ _ => rfl) fun _ => rfl

theorem both_onTransformed {act : Transformed κ → Except Fault α × Transformed κ} :
    Both Constant fun _ => onTransformed cell act :=
  both_of_run_same (onTransformed cell act) (fun _ _ => rfl) fun _ => rfl

/-! ### Operations -/

theorem consume_both (view : View) (count : Int) :
    Both Constant fun execution => ((view.under execution).consume count : StreamStep κ Unit) := by
  induction view with
  | source own cell =>
    exact both_onSource fun source prompt => ⟨(source.buffer.consume count).1,
      { source with buffer := (source.buffer.consume count).2 }, prompt, fun _ => rfl⟩
  | cursor cell => exact both_onCursor
  | take cell parent hypothesis =>
    exact both_onBound.bind fun _ => hypothesis.bind fun _ => both_onBound
  | transformed cell parent => exact both_onTransformed

section Operations

variable [ChunkCodec κ]

/-- Feeding a codec gives the same in both modes if the operations on its input do. -/
theorem refill_both {peekParent : Execution → StreamStep κ Bytes}
    {dropParent : Execution → Int → StreamStep κ Unit} (peek : Both Constant peekParent)
    (drop : ∀ count, Both Constant fun execution => dropParent execution count)
    (cell want fuel : Nat) :
    Both Constant fun execution =>
      refill cell (peekParent execution) (dropParent execution) want fuel := by
  induction fuel with
  | zero => exact both_throw _
  | succ fuel hypothesis =>
    have looked : Both Constant fun _ => (look fun streams => streams.transforms.get cell :
        StreamStep κ (Transformed κ)) :=
      both_look (fun streams => streams.transforms.get cell) fun _ _ => rfl
    refine looked.bind fun layer => ?_
    refine .ite (fun _ => both_pure _ ()) fun _ => .ite (fun _ => both_onTransformed) fun _ => ?_
    refine peek.bind fun given => ?_
    refine .ite (fun _ => ?_) fun _ => ?_
    · exact both_onTransformed.bind fun bytes => both_onTransformed.bind fun _ => hypothesis
    · exact both_onTransformed.bind fun fed => (drop fed.2).bind fun _ =>
        both_onTransformed.bind fun _ => hypothesis

theorem prepare_both {peekParent : Execution → StreamStep κ Bytes}
    {dropParent : Execution → Int → StreamStep κ Unit} (peek : Both Constant peekParent)
    (drop : ∀ count, Both Constant fun execution => dropParent execution count) (cell want : Nat)
    (parent : View) :
    Both Constant fun execution =>
      prepare cell (parent.under execution) (peekParent execution) (dropParent execution) want := by
  have ready : Both Constant fun _ => (look fun streams =>
      let buffer := (streams.transforms.get cell).buffer
      buffer.ended || buffer.holds want : StreamStep κ Bool) :=
    both_look (fun streams =>
      let buffer := (streams.transforms.get cell).buffer
      buffer.ended || buffer.holds want) fun _ _ => rfl
  have bound : Both Constant fun execution => (look fun streams =>
      weight streams (parent.under execution) + turns streams (parent.under execution) :
        StreamStep κ Nat) :=
    both_look (fun streams => weight streams parent + turns streams parent)
      fun execution streams => by rw [weight_under, turns_under]
  refine ready.bind fun held => .ite (fun _ => both_pure _ ()) fun _ => ?_
  exact bound.bind fun most => refill_both peek drop cell want (most + 3)

/-- **Peeking** gives the same in both modes. -/
theorem fillBuf_both (view : View) (want : Nat) :
    Both Constant fun execution => ((view.under execution).fillBuf want : StreamStep κ Bytes) := by
  induction view generalizing want with
  | source own cell =>
    refine both_onSource fun source prompt => ?_
    obtain ⟨result, after, kept, same⟩ := source.pullUntil_same (max want 1) prompt
    refine ⟨result.map fun _ => after.buffer.content, after, kept, fun execution => ?_⟩
    simp only [same]
  | cursor cell => exact both_onCursor
  | take cell parent hypothesis =>
    have looked : Both Constant fun _ => (look fun streams => streams.bounds.get cell :
        StreamStep κ Bound) :=
      both_look (fun streams => streams.bounds.get cell) fun _ _ => rfl
    refine looked.bind fun bound => .ite (fun _ => both_pure _ []) fun _ => ?_
    exact (hypothesis _).bind fun available => both_pure _ _
  | transformed cell parent hypothesis =>
    refine (prepare_both (hypothesis 1) (fun count => parent.consume_both count) cell
      (max want 1) parent).bind fun _ => ?_
    exact both_look (fun streams => (streams.transforms.get cell).buffer.content)
      fun _ _ => rfl

/-- **Reading exactly so many bytes** gives the same in both modes. -/
theorem readExact_both (view : View) (count : Int) :
    Both Constant fun execution =>
      ((view.under execution).readExact count : StreamStep κ Bytes) := by
  induction view with
  | source own cell =>
    refine .ite (fun _ => both_throw _) fun _ => both_onSource fun source prompt => ?_
    obtain ⟨result, after, kept, same⟩ := source.pullUntil_same count.toNat prompt
    cases result with
    | error fault => exact ⟨.error fault, after, kept, fun execution => by simp only [same]⟩
    | ok _ =>
      refine ⟨(after.buffer.read count.toNat).1,
        { after with buffer := (after.buffer.read count.toNat).2 }, kept, fun execution => ?_⟩
      simp only [same]
  | cursor cell => exact .ite (fun _ => both_throw _) fun _ => both_onCursor
  | take cell parent hypothesis =>
    have looked : Both Constant fun _ => (look fun streams => streams.bounds.get cell :
        StreamStep κ Bound) :=
      both_look (fun streams => streams.bounds.get cell) fun _ _ => rfl
    refine looked.bind fun bound => .ite (fun _ => ?_) fun _ => ?_
    · refine .ite (fun _ => both_throw _) fun _ => .ite (fun _ => both_pure _ []) fun _ => ?_
      exact ((View.take cell parent).fillBuf_both count.toNat).bind fun available => both_throw _
    · exact hypothesis.bind fun bytes => both_onBound.bind fun _ => both_pure _ bytes
  | transformed cell parent hypothesis =>
    refine .ite (fun _ => both_throw _) fun _ => ?_
    exact (prepare_both (parent.fillBuf_both 1) (fun count => parent.consume_both count) cell
      count.toNat parent).bind fun _ => both_onTransformed

theorem drain_both (view : View) (fuel : Nat) :
    Both Constant fun execution => ((view.under execution).drain fuel : StreamStep κ Bytes) := by
  induction fuel with
  | zero => exact both_throw _
  | succ fuel hypothesis =>
    refine (view.fillBuf_both 1).bind fun available => .ite (fun _ => both_pure _ []) fun _ => ?_
    exact (view.consume_both available.length).bind fun _ =>
      hypothesis.bind fun rest => both_pure _ _

/-- **Reading to the end** gives the same in both modes. -/
theorem readToEnd_both (view : View) :
    Both Constant fun execution => ((view.under execution).readToEnd : StreamStep κ Bytes) := by
  have bound : Both Constant fun execution => (look fun streams =>
      weight streams (view.under execution) + turns streams (view.under execution) :
        StreamStep κ Nat) :=
    both_look (fun streams => weight streams view + turns streams view)
      fun execution streams => by rw [weight_under, turns_under]
  exact bound.bind fun most => view.drain_both (most + 1)

end Operations

end View

end WireProgram
