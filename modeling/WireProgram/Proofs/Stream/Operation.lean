/-
**The operations on views, step by step.**

Every operation is put together from looks at the streams and from changes of one cell. What each of
them does to a state is said here once:

* `View.run_onSource` and its like, a change of one cell;
* `View.run_look_bind`, a look before the rest of an operation;
* `View.run_fillBuf_take`, `View.run_consume_take` and `View.run_readExact_take`, the operations on a
  bounded view by those on its parent.
-/

import WireProgram.Proofs.Outcome
import WireProgram.Stream

namespace WireProgram.View

variable {κ α β : Type} {streams : Streams κ} {cell : Nat} {result : Except Fault α}

/-! ### Changes of one cell -/

theorem run_onSource {act : Execution → Source → Except Fault α × Source} {source : Source}
    (same : act streams.driver (streams.sources.get cell) = (result, source)) :
    (onSource cell act).run streams =
      (result, { streams with sources := streams.sources.set cell source }) := by
  show ((act _ _).1, { streams with sources := _ }) = _
  rw [same]

theorem run_onCursor {act : Buffer → Except Fault α × Buffer} {buffer : Buffer}
    (same : act (streams.cursors.get cell).buffer = (result, buffer)) :
    (onCursor cell act).run streams =
      (result, { streams with
        cursors := streams.cursors.set cell { streams.cursors.get cell with buffer := buffer } }) := by
  show ((act _).1, { streams with cursors := _ }) = _
  rw [same]

theorem run_onBound {act : Bound → Except Fault α × Bound} {bound : Bound}
    (same : act (streams.bounds.get cell) = (result, bound)) :
    (onBound cell act).run streams =
      (result, { streams with bounds := streams.bounds.set cell bound }) := by
  show ((act _).1, { streams with bounds := _ }) = _
  rw [same]

theorem run_onTransformed {act : Transformed κ → Except Fault α × Transformed κ}
    {layer : Transformed κ} (same : act (streams.transforms.get cell) = (result, layer)) :
    (onTransformed cell act).run streams =
      (result, { streams with transforms := streams.transforms.set cell layer }) := by
  show ((act _).1, { streams with transforms := _ }) = _
  rw [same]

/-! ### Looks -/

theorem run_look (question : Streams κ → α) (streams : Streams κ) :
    (look question).run streams = (.ok (question streams), streams) := rfl

theorem run_look_bind (question : Streams κ → α) (next : α → StreamStep κ β)
    (streams : Streams κ) :
    (look question >>= next).run streams = (next (question streams)).run streams := by
  rw [run_bind, run_look]

/-! ### Bounded views -/

variable [ChunkCodec κ] {parent : View}

theorem run_fillBuf_take (cell : Nat) (parent : View) (want : Nat) (streams : Streams κ) :
    (fillBuf (.take cell parent) want).run streams =
      if (streams.bounds.get cell).left ≤ 0 then (.ok [], streams)
      else
        match (fillBuf parent
            (min (max want 1) (streams.bounds.get cell).left.toNat)).run streams with
        | (.ok available, after) =>
          (.ok (available.take (streams.bounds.get cell).left.toNat), after)
        | (.error fault, after) => (.error fault, after) := by
  rw [fillBuf, run_look_bind]
  split
  · rfl
  · rw [run_bind]
    rcases (fillBuf parent _).run streams with ⟨_ | _, after⟩ <;> rfl

omit [ChunkCodec κ] in
theorem run_consume_take (cell : Nat) (parent : View) (count : Int) (streams : Streams κ) :
    (consume (.take cell parent) count).run streams =
      if count < 0 ∨ (streams.bounds.get cell).left < count then
        (.error (.misuse (.consumeBeyondView count (streams.bounds.get cell).left)),
          { streams with bounds := streams.bounds.set cell (streams.bounds.get cell) })
      else
        match (consume parent count).run
            { streams with bounds := streams.bounds.set cell (streams.bounds.get cell) } with
        | (.ok _, after) =>
          (.ok (), { after with
            bounds := after.bounds.set cell
              ⟨(after.bounds.get cell).left - count,
                (after.bounds.get cell).position + count.toNat⟩ })
        | (.error fault, after) => (.error fault, after) := by
  rw [consume, run_bind]
  by_cases outside : count < 0 ∨ (streams.bounds.get cell).left < count
  · rw [run_onBound (if_pos outside), if_pos outside]
  · rw [run_onBound (if_neg outside), if_neg outside]
    show ((consume parent count >>= _).run _) = _
    rw [run_bind]
    rcases (consume parent count).run _ with ⟨_ | _, after⟩ <;> rfl

theorem run_readExact_take (cell : Nat) (parent : View) (count : Int) (streams : Streams κ) :
    (readExact (.take cell parent) count).run streams =
      if (streams.bounds.get cell).left < count then
        if count < 0 then (.error (.misuse (.negativeRead count)), streams)
        else if count = 0 then (.ok [], streams)
        else
          match (fillBuf (.take cell parent) count.toNat).run streams with
          | (.ok available, after) =>
            (.error (.decode (.shortRead count.toNat available.length)), after)
          | (.error fault, after) => (.error fault, after)
      else
        match (readExact parent count).run streams with
        | (.ok bytes, after) =>
          (.ok bytes, { after with
            bounds := after.bounds.set cell
              ⟨(after.bounds.get cell).left - count,
                (after.bounds.get cell).position + count.toNat⟩ })
        | (.error fault, after) => (.error fault, after) := by
  rw [readExact, run_look_bind]
  split
  · split
    · rfl
    · split
      · rfl
      · rw [run_bind]
        rcases (fillBuf (.take cell parent) count.toNat).run streams with ⟨_ | _, after⟩ <;> rfl
  · rw [run_bind]
    rcases (readExact parent count).run streams with ⟨_ | _, after⟩ <;> rfl

end WireProgram.View
