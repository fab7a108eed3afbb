/-
**The budget of a view.**

A view can still give so many bytes at most: those that it holds, and those that its parent can still
give it. What is read through one view may shorten every other view that shares a layer with it, but
it never adds to what any view can give. The main definitions and statements:

* `Layout`, which layer stands over which, and `Layout.Fits`, a view whose layers are in order;
* `View.budget`, the bytes that a view can still give, and `View.Advances`, the passage of time on it;
* `Moves`, an operation through a view, and `Moves.advances`, what it does to every other view.
-/

import WireProgram.Proofs.Codec.Growth
import WireProgram.Proofs.Stream.Region

namespace WireProgram

/-! ### Layers -/

/-- The views under a view, the view itself first. -/
def View.layers : View → List View
  | .source execution cell => [.source execution cell]
  | .cursor cell => [.cursor cell]
  | .take cell parent => .take cell parent :: parent.layers
  | .transformed cell parent => .transformed cell parent :: parent.layers

namespace View

variable {view other : View}

theorem mem_layers (view : View) : view ∈ view.layers := by
  cases view <;> exact List.mem_cons_self ..

theorem layers_subset (member : other ∈ view.layers) : other.layers ⊆ view.layers := by
  induction view with
  | source execution cell =>
    obtain rfl := List.mem_singleton.mp member
    exact List.Subset.refl _
  | cursor cell =>
    obtain rfl := List.mem_singleton.mp member
    exact List.Subset.refl _
  | take cell parent hypothesis =>
    rcases List.mem_cons.mp member with rfl | member
    · exact List.Subset.refl _
    · exact fun layer inside => List.mem_cons_of_mem _ (hypothesis member inside)
  | transformed cell parent hypothesis =>
    rcases List.mem_cons.mp member with rfl | member
    · exact List.Subset.refl _
    · exact fun layer inside => List.mem_cons_of_mem _ (hypothesis member inside)

theorem depth_le (member : other ∈ view.layers) : other.depth ≤ view.depth := by
  induction view with
  | source execution cell =>
    obtain rfl := List.mem_singleton.mp member
    exact Nat.le_refl _
  | cursor cell =>
    obtain rfl := List.mem_singleton.mp member
    exact Nat.le_refl _
  | take cell parent hypothesis =>
    rcases List.mem_cons.mp member with rfl | member
    · exact Nat.le_refl _
    · exact Nat.le_succ_of_le (hypothesis member)
  | transformed cell parent hypothesis =>
    rcases List.mem_cons.mp member with rfl | member
    · exact Nat.le_refl _
    · exact Nat.le_succ_of_le (hypothesis member)

theorem take_not_mem_layers (cell : Nat) (parent : View) : View.take cell parent ∉ parent.layers :=
  fun member => Nat.not_succ_le_self _ (depth_le member)

theorem transformed_not_mem_layers (cell : Nat) (parent : View) :
    View.transformed cell parent ∉ parent.layers :=
  fun member => Nat.not_succ_le_self _ (depth_le member)

end View

/-! ### Layers in order -/

/-- What every root was opened for, and over which view every bound and every codec. In a strict
layout the roots can be pulled, too. -/
structure Layout (strict : Bool) where
  sources : Nat → Execution
  bounds : Nat → View
  transforms : Nat → View

/-- Whether the topmost layer of a view stands where it was opened. -/
def Layout.Places {strict : Bool} (layout : Layout strict) : View → Prop
  | .source own cell => layout.sources cell = own
  | .cursor _ => True
  | .take cell parent => layout.bounds cell = parent
  | .transformed cell parent => layout.transforms cell = parent

/-- The topmost layer of a view was opened. -/
def View.Inside (streams : Streams Codec) : View → Prop
  | .source _ cell => cell < streams.sources.size
  | .cursor cell => cell < streams.cursors.size
  | .take cell _ => cell < streams.bounds.size
  | .transformed cell _ => cell < streams.transforms.size

/-- A layer with a codec that takes no argument; a finished codec is known to be. -/
def Transformed.Sane (layer : Transformed Codec) : Prop :=
  ∃ codec, layer.codec = some codec ∧ codec.Sane ∧
    (layer.finished = false → codec.finished = false)

/-- The state of the topmost layer of a view is one that a run can come to. In a strict layout a
source has the right driver, and if it is awaited it always has an answer. -/
def View.Sound (strict : Bool) (streams : Streams Codec) : View → Prop
  | .source own cell => cell < streams.sources.size ∧
    (strict = true → own = streams.driver ∧
      (own = .blocking ∨ Chunk.absent ∉ (streams.sources.get cell).input.pending))
  | .cursor cell =>
    cell < streams.cursors.size ∧ (streams.cursors.get cell).buffer.ended = true
  | .take cell _ => cell < streams.bounds.size
  | .transformed cell _ =>
    cell < streams.transforms.size ∧ (streams.transforms.get cell).Sane

theorem View.Sound.inside {strict : Bool} {streams : Streams Codec} {view : View}
    (sound : view.Sound strict streams) : view.Inside streams := by
  cases view with
  | take cell parent => exact sound
  | _ => exact sound.1

/-- A view whose layers stand where they were opened and are in order. -/
def Layout.Fits {strict : Bool} (layout : Layout strict) (streams : Streams Codec) (view : View) :
    Prop :=
  ∀ layer ∈ view.layers, layout.Places layer ∧ layer.Sound strict streams

namespace Layout.Fits

variable {strict : Bool} {layout : Layout strict} {streams : Streams Codec} {view other : View}
  {cell : Nat}

theorem here (fits : layout.Fits streams view) :
    layout.Places view ∧ view.Sound strict streams :=
  fits view view.mem_layers

theorem of_mem (fits : layout.Fits streams view) (member : other ∈ view.layers) :
    layout.Fits streams other :=
  fun layer inside => fits layer (View.layers_subset member inside)

theorem take_parent (fits : layout.Fits streams (.take cell view)) : layout.Fits streams view :=
  fits.of_mem (List.mem_cons_of_mem _ view.mem_layers)

theorem transformed_parent (fits : layout.Fits streams (.transformed cell view)) :
    layout.Fits streams view :=
  fits.of_mem (List.mem_cons_of_mem _ view.mem_layers)

theorem take (places : layout.bounds cell = view) (sound : (View.take cell view).Sound strict streams)
    (fits : layout.Fits streams view) : layout.Fits streams (.take cell view) := by
  intro layer member
  rcases List.mem_cons.mp member with rfl | member
  · exact ⟨places, sound⟩
  · exact fits layer member

theorem transformed (places : layout.transforms cell = view)
    (sound : (View.transformed cell view).Sound strict streams) (fits : layout.Fits streams view) :
    layout.Fits streams (.transformed cell view) := by
  intro layer member
  rcases List.mem_cons.mp member with rfl | member
  · exact ⟨places, sound⟩
  · exact fits layer member

end Layout.Fits

/-! ### Budgets -/

/-- What the codec of a layer can still make of so many bytes. -/
def Transformed.allowance (layer : Transformed Codec) (supply : Nat) : Nat :=
  if layer.finished then 0
  else layer.codec.elim 0 ChunkCodec.reserve + ChunkCodec.gain Codec * supply

/-- The number of bytes that a view can still give, at most. It is a sharper bound than
`View.weight`, which does not see that a codec is finished. -/
def View.budget (streams : Streams Codec) : View → Nat
  | .source _ cell => (streams.sources.get cell).buffer.content.length +
    (streams.sources.get cell).input.remaining
  | .cursor cell => (streams.cursors.get cell).buffer.content.length
  | .take cell parent => min (streams.bounds.get cell).left.toNat (parent.budget streams)
  | .transformed cell parent => (streams.transforms.get cell).buffer.content.length +
    (streams.transforms.get cell).allowance (parent.budget streams)

theorem Transformed.allowance_mono (layer : Transformed Codec) {less more : Nat}
    (le : less ≤ more) : layer.allowance less ≤ layer.allowance more := by
  unfold allowance
  split
  · exact Nat.le_refl _
  · exact Nat.add_le_add_left (Nat.mul_le_mul_left _ le) _

theorem View.budget_le_weight (streams : Streams Codec) (view : View) :
    view.budget streams ≤ view.weight streams := by
  induction view with
  | source execution cell => exact Nat.le_refl _
  | cursor cell => exact Nat.le_refl _
  | take cell parent hypothesis =>
    unfold budget weight
    omega
  | transformed cell parent hypothesis =>
    have more := (streams.transforms.get cell).allowance_mono hypothesis
    unfold budget weight
    dsimp only
    refine Nat.le_trans (Nat.add_le_add_left more _) ?_
    unfold Transformed.allowance
    split
    · omega
    · omega

/-- What the passage of time does to a view: what it gave and what it can still give are not more
than before, and nothing is taken back. -/
structure View.Advances (before after : Streams Codec) (view : View) : Prop where
  position : view.position before ≤ view.position after
  total : view.position after + view.budget after ≤ view.position before + view.budget before

namespace View.Advances

variable {before middle after : Streams Codec} {view : View}

theorem refl (streams : Streams Codec) (view : View) : view.Advances streams streams :=
  ⟨Nat.le_refl _, Nat.le_refl _⟩

theorem trans (first : view.Advances before middle) (second : view.Advances middle after) :
    view.Advances before after :=
  ⟨Nat.le_trans first.position second.position, Nat.le_trans second.total first.total⟩

theorem budget (advances : view.Advances before after) :
    view.budget after ≤ view.budget before := by
  have position := advances.position
  have total := advances.total
  omega

end View.Advances

/-! ### Layers that are kept -/

/-- Streams that differ in the state of some layers at most. -/
structure Streams.SameShape (before after : Streams Codec) : Prop where
  driver : after.driver = before.driver
  sources : after.sources.size = before.sources.size
  cursors : after.cursors.size = before.cursors.size
  bounds : after.bounds.size = before.bounds.size
  transforms : after.transforms.size = before.transforms.size

theorem Streams.SameShape.refl (streams : Streams Codec) : Streams.SameShape streams streams :=
  ⟨rfl, rfl, rfl, rfl, rfl⟩

theorem Streams.SameShape.trans {before middle after : Streams Codec}
    (first : Streams.SameShape before middle) (second : Streams.SameShape middle after) :
    Streams.SameShape before after :=
  ⟨second.driver.trans first.driver, second.sources.trans first.sources,
    second.cursors.trans first.cursors, second.bounds.trans first.bounds,
    second.transforms.trans first.transforms⟩

/-- Streams that may have new layers, with the same driver. -/
structure Streams.Grown (before after : Streams Codec) : Prop where
  driver : after.driver = before.driver
  sources : before.sources.size ≤ after.sources.size
  cursors : before.cursors.size ≤ after.cursors.size
  bounds : before.bounds.size ≤ after.bounds.size
  transforms : before.transforms.size ≤ after.transforms.size

theorem Streams.SameShape.grown {before after : Streams Codec} (shape : Streams.SameShape before after) :
    Streams.Grown before after :=
  ⟨shape.driver, Nat.le_of_eq shape.sources.symm, Nat.le_of_eq shape.cursors.symm,
    Nat.le_of_eq shape.bounds.symm, Nat.le_of_eq shape.transforms.symm⟩

/-- The topmost layer of a view is in the same state. -/
def View.Kept (before after : Streams Codec) : View → Prop
  | .source _ cell => after.sources.get cell = before.sources.get cell
  | .cursor cell => after.cursors.get cell = before.cursors.get cell
  | .take cell _ => after.bounds.get cell = before.bounds.get cell
  | .transformed cell _ => after.transforms.get cell = before.transforms.get cell

namespace View

variable {strict : Bool} {before middle after : Streams Codec} {view : View} {cell : Nat}

theorem Kept.refl (streams : Streams Codec) (view : View) : view.Kept streams streams := by
  cases view <;> rfl

theorem Kept.trans (first : view.Kept before middle) (second : view.Kept middle after) :
    view.Kept before after := by
  cases view <;> exact Eq.trans second first

theorem Kept.position (kept : view.Kept before after) :
    view.position after = view.position before := by
  cases view with
  | source execution cell => exact congrArg (fun source => source.buffer.position) kept
  | cursor cell => exact congrArg (fun cursor => cursor.buffer.position) kept
  | take cell parent => exact congrArg Bound.position kept
  | transformed cell parent => exact congrArg (fun layer => layer.buffer.position) kept

theorem Kept.sound (kept : view.Kept before after) (grown : Streams.Grown before after)
    (sound : view.Sound strict before) : view.Sound strict after := by
  cases view with
  | source execution cell =>
    refine ⟨Nat.lt_of_lt_of_le sound.1 grown.sources, ?_⟩
    rw [grown.driver, show after.sources.get cell = before.sources.get cell from kept]
    exact sound.2
  | cursor cell =>
    refine ⟨Nat.lt_of_lt_of_le sound.1 grown.cursors, ?_⟩
    rw [show after.cursors.get cell = before.cursors.get cell from kept]
    exact sound.2
  | take cell parent => exact Nat.lt_of_lt_of_le sound grown.bounds
  | transformed cell parent =>
    refine ⟨Nat.lt_of_lt_of_le sound.1 grown.transforms, ?_⟩
    rw [show after.transforms.get cell = before.transforms.get cell from kept]
    exact sound.2

/-- A view over a parent that can give less can give less, too. -/
theorem Kept.advances {parent : View} (kept : view.Kept before after)
    (layered : view = .take cell parent ∨ view = .transformed cell parent)
    (budget : parent.budget after ≤ parent.budget before) : view.Advances before after := by
  refine ⟨Nat.le_of_eq kept.position.symm, ?_⟩
  rw [kept.position]
  refine Nat.add_le_add_left ?_ _
  rcases layered with rfl | rfl
  · unfold View.budget
    rw [show after.bounds.get cell = before.bounds.get cell from kept]
    omega
  · unfold View.budget
    rw [show after.transforms.get cell = before.transforms.get cell from kept]
    exact Nat.add_le_add_left (Transformed.allowance_mono _ budget) _

/-- A view all of whose layers are in the same state. -/
def Still (before after : Streams Codec) (view : View) : Prop :=
  ∀ layer ∈ view.layers, layer.Kept before after

theorem Still.fits {layout : Layout strict} (still : view.Still before after)
    (shape : Streams.SameShape before after) (fits : layout.Fits before view) :
    layout.Fits after view := by
  intro layer member
  obtain ⟨places, sound⟩ := fits layer member
  exact ⟨places, (still layer member).sound shape.grown sound⟩

theorem Still.same (still : view.Still before after) :
    view.budget after = view.budget before ∧ view.held after = view.held before := by
  have kept : view.Kept before after := still view view.mem_layers
  induction view with
  | source execution cell =>
    constructor
    · exact congrArg (fun source => source.buffer.content.length + source.input.remaining) kept
    · exact congrArg (fun source => source.buffer.content) kept
  | cursor cell =>
    constructor
    · exact congrArg (fun cursor => cursor.buffer.content.length) kept
    · exact congrArg (fun cursor => cursor.buffer.content) kept
  | take cell parent hypothesis =>
    have above : parent.Still before after := fun layer member =>
      still layer (List.mem_cons_of_mem _ member)
    obtain ⟨budget, held⟩ := hypothesis above (above parent parent.mem_layers)
    have bound : after.bounds.get cell = before.bounds.get cell := kept
    constructor
    · unfold View.budget
      rw [bound, budget]
    · show (parent.held after).take _ = (parent.held before).take _
      rw [bound, held]
  | transformed cell parent hypothesis =>
    have above : parent.Still before after := fun layer member =>
      still layer (List.mem_cons_of_mem _ member)
    obtain ⟨budget, -⟩ := hypothesis above (above parent parent.mem_layers)
    have layer : after.transforms.get cell = before.transforms.get cell := kept
    constructor
    · unfold View.budget
      rw [layer, budget]
    · exact congrArg (fun layer => layer.buffer.content) kept

theorem Still.advances (still : view.Still before after) : view.Advances before after := by
  have position := (still view view.mem_layers).position
  exact ⟨Nat.le_of_eq position.symm, Nat.le_of_eq (by rw [position, still.same.1])⟩

end View

/-! ### Operations through a view -/

/-- What an operation through a view does: it touches no layer but those of a view, and those of a
second view that it follows stay in order and give nothing back. -/
structure Moves {strict : Bool} (layout : Layout strict) (touched view : View)
    (before after : Streams Codec) : Prop where
  shape : Streams.SameShape before after
  kept : ∀ other, layout.Places other → other ∉ touched.layers → other.Kept before after
  follows : ∀ other ∈ view.layers, layout.Fits before other →
    layout.Fits after other ∧ other.Advances before after

namespace Moves

variable {strict : Bool} {layout : Layout strict} {touched view other : View}
  {before middle after : Streams Codec}

theorem refl (layout : Layout strict) (touched view : View) (streams : Streams Codec) :
    Moves layout touched view streams streams :=
  ⟨.refl streams, fun other _ _ => .refl streams other,
    fun other _ fits => ⟨fits, .refl streams other⟩⟩

theorem trans (first : Moves layout touched view before middle)
    (second : Moves layout touched view middle after) : Moves layout touched view before after where
  shape := first.shape.trans second.shape
  kept other places apart :=
    (first.kept other places apart).trans (second.kept other places apart)
  follows other member fits := by
    obtain ⟨fitsMiddle, one⟩ := first.follows other member fits
    obtain ⟨fitsAfter, two⟩ := second.follows other member fitsMiddle
    exact ⟨fitsAfter, one.trans two⟩

theorem touch (moves : Moves layout touched view before after) (more : touched.layers ⊆ other.layers) :
    Moves layout other view before after :=
  ⟨moves.shape, fun layer places apart => moves.kept layer places fun member => apart (more member),
    moves.follows⟩

theorem advances_root (moves : Moves layout view view before after) (bare : other.layers = [other])
    (fits : layout.Fits before other) :
    layout.Fits after other ∧ other.Advances before after := by
  by_cases member : other ∈ view.layers
  · exact moves.follows other member fits
  · have kept := moves.kept other fits.here.1 member
    have still : other.Still before after := by
      intro layer inside
      rw [bare] at inside
      exact List.mem_singleton.mp inside ▸ kept
    exact ⟨still.fits moves.shape fits, still.advances⟩

/-- **What an operation through one view does to another one:** it stays in order, and it can give
less, if anything. -/
theorem advances (moves : Moves layout view view before after) (fits : layout.Fits before other) :
    layout.Fits after other ∧ other.Advances before after := by
  induction other with
  | source execution cell => exact moves.advances_root rfl fits
  | cursor cell => exact moves.advances_root rfl fits
  | take cell parent hypothesis =>
    by_cases member : View.take cell parent ∈ view.layers
    · exact moves.follows _ member fits
    · obtain ⟨places, sound⟩ := fits.here
      obtain ⟨fitsParent, advances⟩ := hypothesis fits.take_parent
      have kept := moves.kept _ places member
      have soundAfter := kept.sound moves.shape.grown sound
      exact ⟨.take places soundAfter fitsParent, kept.advances (Or.inl rfl) advances.budget⟩
  | transformed cell parent hypothesis =>
    by_cases member : View.transformed cell parent ∈ view.layers
    · exact moves.follows _ member fits
    · obtain ⟨places, sound⟩ := fits.here
      obtain ⟨fitsParent, advances⟩ := hypothesis fits.transformed_parent
      have kept := moves.kept _ places member
      have soundAfter := kept.sound moves.shape.grown sound
      exact ⟨.transformed places soundAfter fitsParent,
        kept.advances (Or.inr rfl) advances.budget⟩

/-- An operation through one layer of a view is one through the view. -/
theorem raise (moves : Moves layout view view before after) (member : view ∈ other.layers) :
    Moves layout other other before after :=
  ⟨moves.shape, fun layer places apart =>
      moves.kept layer places fun inside => apart (View.layers_subset member inside),
    fun _ _ fits => moves.advances fits⟩

end Moves

end WireProgram
