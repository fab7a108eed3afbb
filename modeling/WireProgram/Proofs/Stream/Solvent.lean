/-
**Bounds that are never overdrawn.**

A bound counts off the bytes that go through it. No operation takes more off than is left, whether it
ends with a value or fails, since a layer is not under itself: what goes on below a bound leaves the
bound as it was when it was asked. The main definitions and statements:

* `Streams.Solvent`, bounds with nothing less than nothing left, and `Saves`, an operation that keeps
  them so;
* `Layout.Stands.nodup`, the bounds of a view stand in different cells;
* `View.consume_saves` and its like, the operations on views.
-/

import WireProgram.Proofs.Stream.Drained
import WireProgram.Proofs.Stream.Passing

namespace WireProgram

/-! ### Solvent bounds -/

/-- No bound is overdrawn, from a cell on. -/
def Streams.Solvent (base : Nat) (streams : Streams Codec) : Prop :=
  ∀ cell, base ≤ cell → 0 ≤ (streams.bounds.get cell).left

namespace Streams.Solvent

variable {base cell : Nat} {streams after : Streams Codec} {bound : Bound}

/-- Bounds that were never opened are not overdrawn. -/
theorem of_size_le (streams : Streams Codec) (outside : streams.bounds.size ≤ base) :
    streams.Solvent base := by
  intro cell beyond
  rw [Table.get_of_size_le _ (Nat.le_trans outside beyond)]
  exact Int.le_refl 0

theorem same (solvent : streams.Solvent base) (bounds : after.bounds = streams.bounds) :
    after.Solvent base := by
  intro cell beyond
  rw [bounds]
  exact solvent cell beyond

/-- One bound is written. -/
theorem set (solvent : streams.Solvent base) (left : base ≤ cell → 0 ≤ bound.left) :
    Streams.Solvent base { streams with bounds := streams.bounds.set cell bound } := by
  intro other beyond
  rw [Table.get_set]
  split
  · rename_i here
    exact left (here ▸ beyond)
  · exact solvent other beyond

/-- One bound is opened. -/
theorem openTake (solvent : streams.Solvent base) (view : View) (limit : Nat) :
    (streams.openTake view limit).2.Solvent base := by
  intro other beyond
  show 0 ≤ ((streams.bounds.push _).get other).left
  rw [Table.get_push]
  split
  · exact Int.natCast_nonneg limit
  · exact solvent other beyond

end Streams.Solvent

/-! ### Operations that overdraw no bound -/

/-- An operation that overdraws no bound, also where it fails. -/
def Saves {α : Type} (base : Nat) (step : StreamStep Codec α) : Prop :=
  ∀ streams : Streams Codec, streams.Solvent base → (step.run streams).2.Solvent base

namespace Saves

variable {α β : Type} {base : Nat} {step : StreamStep Codec α}

theorem pure (value : α) : Saves base (Pure.pure value) :=
  fun _ solvent => solvent

theorem throw (fault : Fault) : Saves base (MonadExcept.throw fault : StreamStep Codec α) :=
  fun _ solvent => solvent

theorem bind {next : α → StreamStep Codec β} (first : Saves base step)
    (second : ∀ value, Saves base (next value)) : Saves base (step >>= next) := by
  intro streams solvent
  have here := first streams solvent
  rw [run_bind]
  rcases ran : step.run streams with ⟨fault | value, after⟩
  · rwa [ran] at here
  · rw [ran] at here
    exact second value after here

/-- An operation that leaves all bounds as they are. -/
theorem of_bounds (same : ∀ streams, (step.run streams).2.bounds = streams.bounds) :
    Saves base step :=
  fun streams solvent => solvent.same (same streams)

theorem look (question : Streams Codec → α) : Saves base (View.look question) :=
  .of_bounds fun _ => rfl

end Saves

/-- The bounds of a view stand in different cells. -/
theorem Layout.Stands.nodup {layout : Layout false} {streams : Streams Codec} {view : View}
    (stands : layout.Stands streams view) : view.cells.Nodup := by
  induction view with
  | source own cell => exact List.nodup_nil
  | cursor cell => exact List.nodup_nil
  | take cell parent hypothesis =>
    exact List.nodup_cons.mpr ⟨fun member => stands.bound_not_mem (View.bound_mem.mpr member),
      hypothesis stands.take_parent⟩
  | transformed cell parent hypothesis => exact hypothesis stands.transformed_parent

namespace View

variable {base cell : Nat} {view parent : View}

/-! ### Dropping -/

/-- What goes on below a bound leaves it as it was. -/
theorem left_of_kept {streams after : Streams Codec} (fresh : cell ∉ parent.cells)
    (kept : Streams.Kept parent.touches streams after) :
    after.bounds.get cell = streams.bounds.get cell :=
  kept.same (.bound cell) fun member => fresh (bound_mem.mp member)

/-- **Dropping bytes** takes no more off a bound than is left. -/
theorem consume_saves (apart : view.cells.Nodup) (count : Int) :
    Saves base (view.consume count : StreamStep Codec Unit) := by
  induction view with
  | source own cell => exact .of_bounds fun _ => rfl
  | cursor cell => exact .of_bounds fun _ => rfl
  | transformed cell parent => exact .of_bounds fun _ => rfl
  | take cell parent hypothesis =>
    obtain ⟨fresh, others⟩ := List.nodup_cons.mp apart
    intro streams solvent
    have asked : Streams.Solvent base
        { streams with bounds := streams.bounds.set cell (streams.bounds.get cell) } :=
      solvent.set (solvent cell)
    have saved := hypothesis others _ asked
    have kept := consume_kept parent count
      { streams with bounds := streams.bounds.set cell (streams.bounds.get cell) }
    rw [run_consume_take]
    split
    · exact asked
    · rename_i allowed
      rcases ran : (parent.consume count).run
        { streams with bounds := streams.bounds.set cell (streams.bounds.get cell) } with
        ⟨fault | value, after⟩
      · rwa [ran] at saved
      · rw [ran] at saved kept
        refine saved.set fun _ => ?_
        have same := left_of_kept fresh kept
        rw [Table.get_set_self] at same
        dsimp only
        rw [same]
        omega

/-! ### Peeking -/

theorem refill_saves {peekParent : StreamStep Codec Bytes} {dropParent : Int → StreamStep Codec Unit}
    (peeks : Saves base peekParent) (drops : ∀ count, Saves base (dropParent count))
    (want fuel : Nat) : Saves base (refill cell peekParent dropParent want fuel) := by
  have delivers : ∀ (settle : Bool) (bytes : Bytes),
      Saves base (deliver cell settle bytes : StreamStep Codec Unit) :=
    fun _ _ => .of_bounds fun _ => rfl
  induction fuel with
  | zero => exact .throw _
  | succ fuel hypothesis =>
    refine (Saves.look _).bind fun layer => ?_
    split
    · exact .pure _
    · split
      · exact .of_bounds fun _ => rfl
      · refine peeks.bind fun given => ?_
        have finishes : Saves base (finishCodec cell : StreamStep Codec Bytes) :=
          .of_bounds fun _ => rfl
        have feeds : Saves base (feedCodec cell given : StreamStep Codec (Bytes × Int)) :=
          .of_bounds fun _ => rfl
        split
        · exact finishes.bind fun _ => (delivers _ _).bind fun _ => hypothesis
        · exact feeds.bind fun result => (drops result.2).bind fun _ =>
            (delivers _ _).bind fun _ => hypothesis

theorem prepare_saves {peekParent : StreamStep Codec Bytes} {dropParent : Int → StreamStep Codec Unit}
    (peeks : Saves base peekParent) (drops : ∀ count, Saves base (dropParent count)) (want : Nat) :
    Saves base (prepare cell parent peekParent dropParent want) := by
  refine (Saves.look _).bind fun ready => ?_
  split
  · exact .pure _
  · exact (Saves.look _).bind fun _ => refill_saves peeks drops want _

/-- **Peeking** takes off the bounds below what codecs use only. -/
theorem fillBuf_saves (apart : view.cells.Nodup) (want : Nat) :
    Saves base (view.fillBuf want : StreamStep Codec Bytes) := by
  induction view generalizing want with
  | source own cell => exact .of_bounds fun _ => rfl
  | cursor cell => exact .of_bounds fun _ => rfl
  | take cell parent hypothesis =>
    refine (Saves.look _).bind fun bound => ?_
    split
    · exact .pure _
    · exact (hypothesis (List.nodup_cons.mp apart).2 _).bind fun _ => .pure _
  | transformed cell parent hypothesis =>
    have below : parent.cells.Nodup := apart
    exact (prepare_saves (hypothesis below 1) (consume_saves below) _).bind
      fun _ => .of_bounds fun _ => rfl

/-- Peeking for a terminator, which is dropped where it stands next. -/
theorem approach_saves (apart : view.cells.Nodup) (terminator : Bytes) :
    Saves base (view.approach terminator : StreamStep Codec Approach) := by
  refine (fillBuf_saves apart _).bind fun peeked => ?_
  cases Approach.of terminator peeked with
  | ended => exact .pure _
  | ahead => exact .pure _
  | reached => exact (consume_saves apart _).bind fun _ => .pure _

/-! ### Reading -/

/-- **Reading** takes no more off a bound than is left. -/
theorem readExact_saves (apart : view.cells.Nodup) (count : Int) :
    Saves base (view.readExact count : StreamStep Codec Bytes) := by
  induction view with
  | source own cell =>
    unfold readExact
    split
    · exact .throw _
    · exact .of_bounds fun _ => rfl
  | cursor cell =>
    unfold readExact
    split
    · exact .throw _
    · exact .of_bounds fun _ => rfl
  | transformed cell parent =>
    unfold readExact
    split
    · exact .throw _
    · have below : parent.cells.Nodup := apart
      exact (prepare_saves (fillBuf_saves below 1) (consume_saves below) _).bind
        fun _ => .of_bounds fun _ => rfl
  | take cell parent hypothesis =>
    obtain ⟨fresh, others⟩ := List.nodup_cons.mp apart
    intro streams solvent
    have saved := hypothesis others _ solvent
    have kept := readExact_kept parent count streams
    have peeked : Saves base (fillBuf (.take cell parent) count.toNat : StreamStep Codec Bytes) :=
      fillBuf_saves apart _
    replace peeked := peeked streams solvent
    rw [run_readExact_take]
    split
    · split
      · exact solvent
      · split
        · exact solvent
        · rcases ran : (fillBuf (.take cell parent) count.toNat).run streams with ⟨_ | _, after⟩
          · rwa [ran] at peeked
          · rwa [ran] at peeked
    · rename_i allowed
      rcases ran : (parent.readExact count).run streams with ⟨fault | bytes, after⟩
      · rwa [ran] at saved
      · rw [ran] at saved kept
        refine saved.set fun _ => ?_
        have same := left_of_kept fresh kept
        dsimp only
        rw [same]
        omega

theorem drain_saves (apart : view.cells.Nodup) (fuel : Nat) :
    Saves base (view.drain fuel : StreamStep Codec Bytes) := by
  induction fuel with
  | zero => exact .throw _
  | succ fuel hypothesis =>
    refine (fillBuf_saves apart 1).bind fun available => ?_
    split
    · exact .pure _
    · exact (consume_saves apart _).bind fun _ => hypothesis.bind fun _ => .pure _

theorem readToEnd_saves (apart : view.cells.Nodup) :
    Saves base (view.readToEnd : StreamStep Codec Bytes) :=
  (Saves.look _).bind fun _ => drain_saves apart _

end View

end WireProgram
