/-
**Runs in which time passes on every view.**

The contract of a run over views in order: they stay so, time passes on each of them, and a fault has
an excuse. The operations on views keep to it, and so does the opening of a new view. The main
definitions and statements:

* `Contract.passing`, the contract;
* `View.readExact_keeps` and its like, the operations on a view;
* `Layout.Opens`, what the opening of a view leaves, and `openCursor_keeps`, `openTake_keeps` and
  `openTransformed_keeps`, new views;
* `openSource_fits`, the source of a run;
* `untilTerminator_passing`, a loop that uses up its input before its bound.
-/

import WireProgram.Proofs.Contract
import WireProgram.Proofs.Stream.Passage

namespace WireProgram

/-! ### The contract -/

/-- Operations that have an excuse if they fail. A view that is in order stays so, and gains
nothing. -/
def Contract.passing (strict : Bool) : Contract Fault (Streams Codec) (Layout strict) where
  later before after := ∀ view, before.2.Fits before.1 view →
    after.2.Fits after.1 view ∧ view.Advances before.1 after.1
  tolerates fault := fault.Excused strict
  refl state view fits := ⟨fits, .refl state.1 view⟩
  trans first second view fits := by
    obtain ⟨fitsMiddle, one⟩ := first view fits
    obtain ⟨fitsAfter, two⟩ := second view fitsMiddle
    exact ⟨fitsAfter, one.trans two⟩

section Views

variable {α : Type} {strict : Bool} {layout : Layout strict} {streams : Streams Codec} {view : View}

/-- An operation through a view, under the contract. -/
theorem Keeps.of_moves {step : StreamStep Codec α} {reaches : α → Streams Codec → Prop}
    {good : α → Streams Codec × Layout strict → Prop}
    (leads : Leads step streams reaches fun fault _ => fault.Excused strict)
    (moves : ∀ value after, reaches value after →
      Moves layout view view streams after ∧ good value (after, layout)) :
    Keeps (.passing strict) good step (streams, layout) := by
  refine leads.mono ?_ fun _ _ excused => ⟨excused, trivial⟩
  intro value after reached
  obtain ⟨moved, holds⟩ := moves value after reached
  exact ⟨layout, fun other fits => moved.advances fits, holds⟩

namespace View

theorem readExact_keeps (fits : layout.Fits streams view) (count : Nat) :
    Keeps (.passing strict) (fun _ _ => True) (view.readExact count) (streams, layout) :=
  .of_moves (readExact_excused fits count) fun _ _ reached => ⟨reached.1, trivial⟩

theorem readToEnd_keeps (fits : layout.Fits streams view) :
    Keeps (.passing strict) (fun _ _ => True) view.readToEnd (streams, layout) :=
  .of_moves (readToEnd_excused fits) fun _ _ moves => ⟨moves, trivial⟩

theorem fillBuf_keeps (fits : layout.Fits streams view) (want : Nat) :
    Keeps (.passing strict) (fun bytes after => bytes = view.held after.1) (view.fillBuf want)
      (streams, layout) :=
  .of_moves (fillBuf_excused fits want) fun _ _ reached => ⟨reached.2, reached.1⟩

theorem consume_keeps (fits : layout.Fits streams view) {count : Nat} (positive : 0 < count)
    (within : count ≤ (view.held streams).length) :
    Keeps (.passing strict) (fun _ _ => True) (view.consume count) (streams, layout) := by
  obtain ⟨after, ran, moves, -⟩ := consume_excused fits positive within
  exact Leads.of_ok ran ⟨layout, fun other fits => moves.advances fits, trivial⟩

/-- Peeking for a terminator, which is dropped where it stands next. -/
theorem approach_keeps (fits : layout.Fits streams view) {terminator : Bytes}
    (filled : terminator ≠ []) :
    Keeps (.passing strict) (fun _ _ => True) (view.approach terminator) (streams, layout) := by
  refine (fillBuf_keeps fits terminator.length).bind fun peeked seen later held => ?_
  split
  · rename_i reached
    refine (consume_keeps (later view fits).1 (List.length_pos_iff.mpr filled) ?_).bind
      fun _ _ _ _ => .pure trivial
    rw [← held]
    exact Approach.length_le_of_reached reached
  · exact .pure trivial

end View

/-! ### New views -/

/-- Opening a view adds one layer, and leaves those that were opened before it as they are. -/
structure Layout.Opens (layout next : Layout strict) (before after : Streams Codec) : Prop where
  grown : Streams.Grown before after
  kept : ∀ other : View, other.Inside before → other.Kept before after
  places : ∀ other : View, other.Inside before → layout.Places other → next.Places other

/-- A view in order stays so under what was opened. -/
theorem Layout.Opens.fits {next : Layout strict} {after : Streams Codec}
    (opens : layout.Opens next streams after) (fits : layout.Fits streams view) :
    next.Fits after view := by
  intro layer member
  obtain ⟨placed, sound⟩ := fits layer member
  exact ⟨opens.places layer sound.inside placed,
    (opens.kept layer sound.inside).sound opens.grown sound⟩

/-- A view that is opened does not disturb those that are there. -/
theorem Keeps.opened (next : Layout strict) {make : Streams Codec → View × Streams Codec}
    {good : View → Streams Codec × Layout strict → Prop}
    (opens : layout.Opens next streams (make streams).2)
    (holds : good (make streams).1 ((make streams).2, next)) :
    Keeps (.passing strict) good (openedBy make) (streams, layout) := by
  have ran : (openedBy make).run streams = (.ok (make streams).1, (make streams).2) := rfl
  refine Leads.of_ok ran ⟨next, fun other old => ⟨opens.fits old, ?_⟩, holds⟩
  exact View.Still.advances fun layer member => opens.kept layer (old layer member).2.inside

/-- A layout with one more bound. -/
def Layout.withBound (layout : Layout strict) (cell : Nat) (view : View) : Layout strict :=
  { layout with bounds := fun other => if other = cell then view else layout.bounds other }

/-- A layout with one more codec. -/
def Layout.withTransform (layout : Layout strict) (cell : Nat) (view : View) : Layout strict :=
  { layout with transforms := fun other => if other = cell then view else layout.transforms other }

theorem Layout.opens_cursor (layout : Layout strict) (streams : Streams Codec) (bytes : Bytes) :
    layout.Opens layout streams (streams.openCursor bytes).2 where
  grown := ⟨rfl, Nat.le_refl _, Nat.le_of_lt (Table.size_lt_push _ _), Nat.le_refl _, Nat.le_refl _⟩
  kept other inside := by
    cases other with
    | cursor cell => exact Table.get_push_old _ _ inside
    | _ => rfl
  places _ _ placed := placed

theorem Layout.opens_take (layout : Layout strict) (streams : Streams Codec) (view : View) (limit : Int) :
    layout.Opens (layout.withBound streams.bounds.size view) streams
      (streams.openTake view limit).2 where
  grown := ⟨rfl, Nat.le_refl _, Nat.le_refl _, Nat.le_of_lt (Table.size_lt_push _ _), Nat.le_refl _⟩
  kept other inside := by
    cases other with
    | take cell parent => exact Table.get_push_old _ _ inside
    | _ => rfl
  places other inside placed := by
    cases other with
    | take cell parent => exact (if_neg (Nat.ne_of_lt inside)).trans placed
    | _ => exact placed

theorem Layout.opens_transformed (layout : Layout strict) (streams : Streams Codec) (view : View)
    (codec : Codec) :
    layout.Opens (layout.withTransform streams.transforms.size view) streams
      (streams.openTransformed view codec).2 where
  grown := ⟨rfl, Nat.le_refl _, Nat.le_refl _, Nat.le_refl _, Nat.le_of_lt (Table.size_lt_push _ _)⟩
  kept other inside := by
    cases other with
    | transformed cell parent => exact Table.get_push_old _ _ inside
    | _ => rfl
  places other inside placed := by
    cases other with
    | transformed cell parent => exact (if_neg (Nat.ne_of_lt inside)).trans placed
    | _ => exact placed

/-- A cursor can give no more than what it was opened over. -/
theorem openCursor_keeps (bytes : Bytes) :
    Keeps (.passing strict) (fun view after => after.2.Fits after.1 view ∧
        ∃ cell, view = .cursor cell ∧ view.budget after.1 ≤ bytes.length)
      (openedBy fun streams => streams.openCursor bytes) (streams, layout) := by
  have new : (streams.openCursor bytes).2.cursors.get streams.cursors.size =
      { buffer := { content := bytes, ended := true }, length := bytes.length } :=
    Table.get_push_self streams.cursors _
  have fits : layout.Fits (streams.openCursor bytes).2 (.cursor streams.cursors.size) := by
    intro layer member
    obtain rfl := List.mem_singleton.mp member
    exact ⟨trivial, Table.size_lt_push _ _, congrArg (fun cursor => cursor.buffer.ended) new⟩
  have budget : (View.cursor streams.cursors.size).budget (streams.openCursor bytes).2 =
      bytes.length := congrArg (fun cursor => cursor.buffer.content.length) new
  exact Keeps.opened layout (layout.opens_cursor streams bytes)
    ⟨fits, _, rfl, Nat.le_of_eq budget⟩

theorem openTake_keeps (fits : layout.Fits streams view) (limit : Nat) :
    Keeps (.passing strict) (fun bounded after => after.2.Fits after.1 bounded)
      (openedBy fun streams => streams.openTake view limit) (streams, layout) := by
  have opens := layout.opens_take streams view limit
  exact Keeps.opened _ opens (.take (if_pos rfl) (Table.size_lt_push _ _) (opens.fits fits))

theorem openTransformed_keeps (fits : layout.Fits streams view) {codec : Codec}
    (sane : codec.Sane) (unfinished : codec.finished = false) :
    Keeps (.passing strict) (fun wrapped after => after.2.Fits after.1 wrapped)
      (openedBy fun streams => streams.openTransformed view codec) (streams, layout) := by
  have opens := layout.opens_transformed streams view codec
  have new : ((streams.openTransformed view codec).2.transforms.get streams.transforms.size).Sane := by
    refine ⟨codec, ?_, sane, fun _ => unfinished⟩
    exact congrArg Transformed.codec (Table.get_push_self streams.transforms _)
  exact Keeps.opened _ opens
    (.transformed (if_pos rfl) ⟨Table.size_lt_push _ _, new⟩ (opens.fits fits))

/-- A source that is opened is in order. In a strict layout it has to be one that can be pulled. -/
theorem openSource_fits (own : Execution) (input : Input)
    (placed : layout.sources streams.sources.size = own)
    (answers : strict = true → own = streams.driver ∧
      (own = .blocking ∨ Chunk.absent ∉ input.pending)) :
    layout.Fits (streams.openSource own input).2 (streams.openSource own input).1 := by
  intro layer member
  obtain rfl := List.mem_singleton.mp member
  have new : (streams.openSource own input).2.sources.get streams.sources.size =
      { input := input } := Table.get_push_self streams.sources _
  refine ⟨placed, Table.size_lt_push _ _, ?_⟩
  rw [new]
  exact answers

end Views

/-! ### Loops -/

section Loops

variable {strict : Bool} {rule : Lists.Rule} {body : Step Unit} {state : Machine × Layout strict}
  {view : View}

/-- A body that has to consume something consumes something. -/
theorem withProgress_passing (fits : state.2.Fits state.1.streams view)
    (keeps : Keeps (.over (.passing strict) rule) (fun _ _ => True) body state) :
    Keeps (.over (.passing strict) rule)
      (fun _ after => view.position state.1.streams < view.position after.1.streams)
      (withProgress view body) state := by
  refine (Keeps.withProgress (Fault.excused strict rfl) keeps).mono fun _ after later moved => ?_
  have position : view.position state.1.streams ≤ view.position after.1.streams :=
    (later.1 view fits).2.position
  omega

/-- Every round of the loop uses up a byte of the view, and so its bound is not reached. -/
theorem untilTerminator_passing {terminator : Bytes}
    (fits : state.2.Fits state.1.streams view) (filled : terminator ≠ [])
    (each : ∀ inner, (Contract.over (.passing strict) rule).later state inner →
      Keeps (.over (.passing strict) rule) (fun _ _ => True) body inner) {fuel : Nat}
    (enough : view.budget state.1.streams < fuel) :
    Keeps (.over (.passing strict) rule) (fun _ _ => True)
      (untilTerminator view terminator body fuel) state := by
  refine Keeps.untilTerminator
    (fun fuel inner => (Contract.over (.passing strict) rule).later state inner ∧
      view.budget inner.1.streams < fuel) (Fault.excused strict rfl) ?_ ?_ ?_ ?_ ?_
    ⟨(Contract.over _ rule).refl state, enough⟩
  · exact fun _ allowed => absurd allowed.2 (Nat.not_lt_zero _)
  · intro fuel before after ⟨start, enough⟩ later
    obtain ⟨-, passing⟩ := later.1 view (start.1 view fits).1
    exact ⟨(Contract.over _ rule).trans start later, Nat.lt_of_le_of_lt passing.budget enough⟩
  · intro fuel before after ⟨start, enough⟩ later moved
    obtain ⟨-, position, total⟩ := later.1 view (start.1 view fits).1
    refine ⟨(Contract.over _ rule).trans start later, ?_⟩
    dsimp only at position total
    omega
  · exact fun ⟨start, _⟩ => view.approach_keeps (start.1 view fits).1 filled
  · exact fun ⟨start, _⟩ => each _ start

end Loops

end WireProgram
