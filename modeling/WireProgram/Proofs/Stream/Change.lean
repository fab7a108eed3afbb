/-
**Changes of one layer.**

Most operations on a view change its topmost layer, before or after an operation on its parent. If
the layer gains no more than what its parent lost, the view keeps to its budget. The main definitions
and statements:

* `Sets`, a change of the topmost layer of a view only;
* `Moves.settleLayer` and `Moves.spend`, an operation on the parent of a view, settled in the view;
* `Moves.dropSource`, `Moves.dropCursor` and `Moves.dropLayer`, bytes that are dropped from a buffer.
-/

import WireProgram.Proofs.Stream.Budget

namespace WireProgram

/-! ### Sources -/

/-- What pulling does to a source, whatever its replies are. -/
structure Source.Draws (before after : Source) : Prop where
  position : after.buffer.position = before.buffer.position
  total : after.buffer.content.length + after.input.remaining ≤
    before.buffer.content.length + before.input.remaining
  answers : Chunk.absent ∉ before.input.pending → Chunk.absent ∉ after.input.pending

theorem Source.Draws.refl (source : Source) : Source.Draws source source :=
  ⟨rfl, Nat.le_refl _, id⟩

theorem Buffer.length_drop {buffer : Buffer} {count : Nat}
    (within : count ≤ buffer.content.length) :
    (buffer.drop count).content.length + count = buffer.content.length := by
  show (buffer.content.drop count).length + count = _
  rw [List.length_drop]
  exact Nat.sub_add_cancel within

/-! ### Changes of one layer -/

/-- A change of the topmost layer of a view only. -/
structure Sets {strict : Bool} (layout : Layout strict) (view : View) (before after : Streams Codec) :
    Prop where
  shape : Streams.SameShape before after
  kept : ∀ other, layout.Places other → other ≠ view → other.Kept before after

section Changes

variable {strict : Bool} {layout : Layout strict} {streams before middle after : Streams Codec}
  {view parent other : View} {own : Execution} {cell : Nat}

namespace Sets

theorem source (source : Source) (inside : cell < streams.sources.size)
    (placed : layout.sources cell = own) :
    Sets layout (.source own cell) streams
      { streams with sources := streams.sources.set cell source } := by
  refine ⟨⟨rfl, Table.size_set _ _ _ inside, rfl, rfl, rfl⟩, fun other places apart => ?_⟩
  cases other with
  | source other root =>
    have different : root ≠ cell := by
      rintro rfl
      exact apart (congrArg (View.source · root) (places.symm.trans placed))
    show (streams.sources.set cell source).get root = _
    rw [Table.get_set, if_neg different]
  | _ => rfl

theorem cursor (cursor : Cursor) (inside : cell < streams.cursors.size) :
    Sets layout (.cursor cell) streams
      { streams with cursors := streams.cursors.set cell cursor } := by
  refine ⟨⟨rfl, rfl, Table.size_set _ _ _ inside, rfl, rfl⟩, fun other places apart => ?_⟩
  cases other with
  | cursor root =>
    have different : root ≠ cell := fun same => apart (congrArg View.cursor same)
    show (streams.cursors.set cell cursor).get root = _
    rw [Table.get_set, if_neg different]
  | _ => rfl

theorem bound (bound : Bound) (inside : cell < streams.bounds.size)
    (placed : layout.bounds cell = parent) :
    Sets layout (.take cell parent) streams
      { streams with bounds := streams.bounds.set cell bound } := by
  refine ⟨⟨rfl, rfl, rfl, Table.size_set _ _ _ inside, rfl⟩, fun other places apart => ?_⟩
  cases other with
  | take root above =>
    have different : root ≠ cell := by
      rintro rfl
      exact apart (congrArg (View.take root) (places.symm.trans placed))
    show (streams.bounds.set cell bound).get root = _
    rw [Table.get_set, if_neg different]
  | _ => rfl

theorem transformed (layer : Transformed Codec) (inside : cell < streams.transforms.size)
    (placed : layout.transforms cell = parent) :
    Sets layout (.transformed cell parent) streams
      { streams with transforms := streams.transforms.set cell layer } := by
  refine ⟨⟨rfl, rfl, rfl, rfl, Table.size_set _ _ _ inside⟩, fun other places apart => ?_⟩
  cases other with
  | transformed root above =>
    have different : root ≠ cell := by
      rintro rfl
      exact apart (congrArg (View.transformed root) (places.symm.trans placed))
    show (streams.transforms.set cell layer).get root = _
    rw [Table.get_set, if_neg different]
  | _ => rfl

/-- A change of a layer does not reach the views under it. -/
theorem still (sets : Sets layout view before after) (apart : view ∉ other.layers)
    (fits : layout.Fits before other) : other.Still before after := by
  intro layer member
  refine sets.kept layer (fits layer member).1 ?_
  rintro rfl
  exact apart member

theorem moves (sets : Sets layout view before after) (apart : view ∉ parent.layers) :
    Moves layout view parent before after where
  shape := sets.shape
  kept other places outside := by
    refine sets.kept other places ?_
    rintro rfl
    exact outside other.mem_layers
  follows other member fits := by
    have still := sets.still (fun inside => apart (View.layers_subset member inside)) fits
    exact ⟨still.fits sets.shape fits, still.advances⟩

end Sets

namespace Moves

/-- An operation that follows the parent of a view, and what it does to the view itself. -/
theorem settle (moves : Moves layout view parent before after)
    (layered : view.layers = view :: parent.layers)
    (here : layout.Fits before view → layout.Fits after view ∧ view.Advances before after) :
    Moves layout view view before after := by
  refine ⟨moves.shape, moves.kept, fun other member fits => ?_⟩
  rw [layered] at member
  rcases List.mem_cons.mp member with rfl | member
  · exact here fits
  · exact moves.follows other member fits

/-- An operation on a root. -/
theorem of_root (sets : Sets layout view before after) (bare : view.layers = [view])
    (sound : view.Sound strict after) (advances : view.Advances before after) :
    Moves layout view view before after where
  shape := sets.shape
  kept other places outside := by
    refine sets.kept other places ?_
    rintro rfl
    exact outside other.mem_layers
  follows other member fits := by
    rw [bare] at member
    obtain rfl := List.mem_singleton.mp member
    refine ⟨fun layer inside => ?_, advances⟩
    rw [bare] at inside
    obtain rfl := List.mem_singleton.mp inside
    exact ⟨fits.here.1, sound⟩

/-- An operation on a source: it may pull, and bytes may be dropped. -/
theorem source {source : Source} (fits : layout.Fits streams (.source own cell))
    (position : (streams.sources.get cell).buffer.position ≤ source.buffer.position)
    (total : source.buffer.position + (source.buffer.content.length + source.input.remaining) ≤
      (streams.sources.get cell).buffer.position +
        ((streams.sources.get cell).buffer.content.length +
          (streams.sources.get cell).input.remaining))
    (answers : Chunk.absent ∉ (streams.sources.get cell).input.pending →
      Chunk.absent ∉ source.input.pending) :
    Moves layout (.source own cell) (.source own cell) streams
      { streams with sources := streams.sources.set cell source } := by
  obtain ⟨placed, inside, answering⟩ := fits.here
  refine .of_root (.source source inside placed) rfl ⟨?_, fun strict => ?_⟩ ⟨?_, ?_⟩
  · dsimp only
    rw [Table.size_set _ _ _ inside]
    exact inside
  · dsimp only
    rw [Table.get_set_self]
    exact (answering strict).imp_right (Or.imp_right answers)
  · dsimp only [View.position]
    rw [Table.get_set_self]
    exact position
  · dsimp only [View.position, View.budget]
    rw [Table.get_set_self]
    exact total

/-- An operation on a cursor. -/
theorem cursor {cursor : Cursor} (fits : layout.Fits streams (.cursor cell))
    (position : (streams.cursors.get cell).buffer.position ≤ cursor.buffer.position)
    (total : cursor.buffer.position + cursor.buffer.content.length ≤
      (streams.cursors.get cell).buffer.position +
        (streams.cursors.get cell).buffer.content.length)
    (ended : cursor.buffer.ended = (streams.cursors.get cell).buffer.ended) :
    Moves layout (.cursor cell) (.cursor cell) streams
      { streams with cursors := streams.cursors.set cell cursor } := by
  obtain ⟨-, inside, closed⟩ := fits.here
  refine .of_root (.cursor cursor inside) rfl ⟨?_, ?_⟩ ⟨?_, ?_⟩
  · dsimp only
    rw [Table.size_set _ _ _ inside]
    exact inside
  · dsimp only
    rw [Table.get_set_self, ended]
    exact closed
  · dsimp only [View.position]
    rw [Table.get_set_self]
    exact position
  · dsimp only [View.position, View.budget]
    rw [Table.get_set_self]
    exact total

/-- An operation on the parent of a transformed view, then a change of the layer: what it takes from
the parent pays for what it gives. -/
theorem settleLayer (moves : Moves layout (.transformed cell parent) parent before after)
    (fits : layout.Fits before (.transformed cell parent)) (sane : (after.transforms.get cell).Sane)
    (position : (before.transforms.get cell).buffer.position ≤
      (after.transforms.get cell).buffer.position)
    (total : (after.transforms.get cell).buffer.position +
        ((after.transforms.get cell).buffer.content.length +
          (after.transforms.get cell).allowance (parent.budget after)) ≤
      (before.transforms.get cell).buffer.position +
        ((before.transforms.get cell).buffer.content.length +
          (before.transforms.get cell).allowance (parent.budget before))) :
    Moves layout (.transformed cell parent) (.transformed cell parent) before after := by
  obtain ⟨placed, inside, -⟩ := fits.here
  obtain ⟨fitsParent, -⟩ := moves.follows parent parent.mem_layers fits.transformed_parent
  refine moves.settle rfl fun _ => ⟨.transformed placed ⟨?_, sane⟩ fitsParent, position, total⟩
  rw [moves.shape.transforms]
  exact inside

/-- An operation on the parent of a bounded view, then so many bytes off the bound. -/
theorem spend (moves : Moves layout parent parent before middle) {count : Nat}
    (fits : layout.Fits before (.take cell parent))
    (spent : parent.position before + count ≤ parent.position middle)
    (allowed : (count : Int) ≤ (before.bounds.get cell).left)
    (same : after = { middle with
      bounds := middle.bounds.set cell ((middle.bounds.get cell).spend count) }) :
    Moves layout (.take cell parent) (.take cell parent) before after ∧
      (View.take cell parent).position after = (View.take cell parent).position before + count := by
  obtain ⟨placed, inside⟩ := fits.here
  have fresh := View.take_not_mem_layers cell parent
  have kept : middle.bounds.get cell = before.bounds.get cell := moves.kept _ placed fresh
  replace inside : cell < middle.bounds.size := moves.shape.bounds.symm ▸ inside
  have sets : Sets layout (.take cell parent) middle after :=
    same ▸ .bound ((middle.bounds.get cell).spend count) inside placed
  have bound : after.bounds.get cell = (before.bounds.get cell).spend count := by
    rw [same, ← kept]
    show (middle.bounds.set cell _).get cell = _
    rw [Table.get_set, if_pos rfl]
  have position : (View.take cell parent).position after =
      (View.take cell parent).position before + count := by
    show (after.bounds.get cell).position = (before.bounds.get cell).position + count
    rw [bound]
    rfl
  have both := (moves.touch (List.subset_cons_self ..)).trans (sets.moves fresh)
  obtain ⟨fitsParent, advances⟩ := both.follows parent parent.mem_layers fits.take_parent
  refine ⟨both.settle rfl fun _ => ⟨.take placed ?_ fitsParent, ?_, ?_⟩, position⟩
  · show cell < after.bounds.size
    rw [sets.shape.bounds]
    exact inside
  · rw [position]
    exact Nat.le_add_right _ _
  · have given : parent.position before + count ≤ parent.position after := by
      have fitsMiddle := (moves.advances fits.take_parent).1
      rw [(sets.still fresh fitsMiddle parent parent.mem_layers).position]
      exact spent
    have total := advances.total
    have left : (after.bounds.get cell).left = (before.bounds.get cell).left - count := by
      rw [bound]
      rfl
    rw [position]
    unfold View.budget
    omega

/-- A source that has pulled drops some bytes. -/
theorem dropSource {source : Source} (fits : layout.Fits streams (.source own cell))
    (draws : Source.Draws (streams.sources.get cell) source) {count : Nat}
    (within : count ≤ source.buffer.content.length)
    (same : after = { streams with
      sources := streams.sources.set cell { source with buffer := source.buffer.drop count } }) :
    Moves layout (.source own cell) (.source own cell) streams after ∧
      (View.source own cell).position after =
        (View.source own cell).position streams + count := by
  have position := draws.position
  have total := draws.total
  have length := Buffer.length_drop within
  have dropped : (source.buffer.drop count).position = source.buffer.position + count := rfl
  subst same
  refine ⟨.source fits ?_ ?_ draws.answers, ?_⟩
  · dsimp only
    omega
  · dsimp only
    omega
  · dsimp only [View.position]
    rw [Table.get_set_self]
    dsimp only
    omega

theorem dropCursor (fits : layout.Fits streams (.cursor cell)) {count : Nat}
    (within : count ≤ (streams.cursors.get cell).buffer.content.length)
    (same : after = { streams with
      cursors := streams.cursors.set cell { streams.cursors.get cell with
        buffer := (streams.cursors.get cell).buffer.drop count } }) :
    Moves layout (.cursor cell) (.cursor cell) streams after ∧
      (View.cursor cell).position after = (View.cursor cell).position streams + count := by
  have length := Buffer.length_drop within
  have dropped : ((streams.cursors.get cell).buffer.drop count).position =
      (streams.cursors.get cell).buffer.position + count := rfl
  subst same
  refine ⟨.cursor fits ?_ ?_ rfl, ?_⟩
  · dsimp only
    omega
  · dsimp only
    omega
  · dsimp only [View.position]
    rw [Table.get_set_self]
    exact dropped

theorem dropLayer (sets : Sets layout (.transformed cell parent) before after)
    (fits : layout.Fits before (.transformed cell parent)) {count : Nat}
    (within : count ≤ (before.transforms.get cell).buffer.content.length)
    (same : after.transforms.get cell = { before.transforms.get cell with
      buffer := (before.transforms.get cell).buffer.drop count }) :
    Moves layout (.transformed cell parent) (.transformed cell parent) before after ∧
      (View.transformed cell parent).position after =
        (View.transformed cell parent).position before + count := by
  have length := Buffer.length_drop within
  have dropped : ((before.transforms.get cell).buffer.drop count).position =
      (before.transforms.get cell).buffer.position + count := rfl
  have fresh := View.transformed_not_mem_layers cell parent
  have budget := (sets.still fresh fits.transformed_parent).same.1
  refine ⟨(sets.moves fresh).settleLayer fits ?_ ?_ ?_, ?_⟩
  · rw [same]
    exact fits.here.2.2
  · rw [same]
    dsimp only
    omega
  · rw [same, budget]
    dsimp only [Transformed.allowance]
    omega
  · dsimp only [View.position]
    rw [same]
    exact dropped

end Moves

end Changes

end WireProgram
