/-
**A view in place of a cursor.**

A plain view has some bytes to give. A fresh cursor over the same bytes can stand for it: what is read
through the cursor, or through bounds over it, is what is read through the view or through the same
bounds over the view, and the rest of the streams is as it was. The main definitions and statements:

* `Placement` and `Placement.view`, the view that stands where a cursor stands in the other run;
* `Placement.Joined`, the streams of both runs;
* `Placement.Above` and `Placement.Beside`, the views over the cursor, and those apart from the view;
* `Placement.Joined.read`, what a reader of views does in both runs;
* `View.Standing` and `Placement.joined_of`, the streams at first.
-/

import WireProgram.Proofs.Stream.Abreast

namespace WireProgram

variable {κ : Type}

/-! ### Layers of plain views -/

namespace View

variable {view : View} {layers : List Layer} {before after : Streams κ} {count : Nat}

theorem root_mem (view : View) : view.root.top ∈ view.touches := by
  induction view with
  | take cell parent hypothesis => exact List.mem_cons_of_mem _ hypothesis
  | _ => exact List.mem_cons_self ..

/-- The layers of a plain view are its bounds and its root. -/
theorem mem_touches {streams : Streams κ} (plain : view.Plain streams) {layer : Layer} :
    layer ∈ view.touches ↔ (∃ cell ∈ view.cells, layer = .bound cell) ∨ layer = view.root.top := by
  induction view with
  | source own cell => simp [touches, cells, root, top]
  | cursor cell => simp [touches, cells, root, top]
  | take cell parent hypothesis => simp [touches, cells, root, hypothesis plain.2.2, or_assoc]
  | transformed cell parent => exact plain.elim

/-- A change of other layers keeps a view plain. -/
theorem Plain.kept (plain : view.Plain before) (kept : Streams.Kept layers before after)
    (free : view.touches.Disjoint layers) : view.Plain after := by
  induction view with
  | source own cell =>
    have same : after.sources.get cell = before.sources.get cell :=
      kept.same _ (List.disjoint_cons_left.mp free).1
    exact ⟨plain.1.trans kept.driver.symm, same ▸ plain.2⟩
  | cursor cell => trivial
  | take cell parent hypothesis =>
    exact ⟨Nat.lt_of_lt_of_le plain.1 kept.bounds, plain.2.1,
      hypothesis plain.2.2 (List.disjoint_cons_left.mp free).2⟩
  | transformed cell parent => exact plain.elim

/-- A change of other layers leaves what a view has to give. -/
theorem content_kept (kept : Streams.Kept layers before after)
    (free : view.touches.Disjoint layers) : view.content after = view.content before := by
  induction view with
  | source own cell =>
    exact congrArg Source.rest (kept.same (.source cell) (List.disjoint_cons_left.mp free).1)
  | cursor cell =>
    exact congrArg (·.buffer.content) (kept.same (.cursor cell) (List.disjoint_cons_left.mp free).1)
  | take cell parent hypothesis =>
    obtain ⟨apart, freeParent⟩ := List.disjoint_cons_left.mp free
    have bound : after.bounds.get cell = before.bounds.get cell := kept.same (.bound cell) apart
    show (parent.content after).take _ = (parent.content before).take _
    rw [hypothesis freeParent, bound]
  | transformed cell parent =>
    exact congrArg (·.buffer.content) (kept.same (.codec cell) (List.disjoint_cons_left.mp free).1)

/-- A change of other layers leaves how much went through a view. -/
theorem position_kept (kept : Streams.Kept layers before after) (free : view.top ∉ layers) :
    view.position after = view.position before := by
  cases view with
  | source own cell => exact congrArg (·.buffer.position) (kept.same (.source cell) free)
  | cursor cell => exact congrArg (·.buffer.position) (kept.same (.cursor cell) free)
  | take cell parent => exact congrArg Bound.position (kept.same (.bound cell) free)
  | transformed cell parent => exact congrArg (·.buffer.position) (kept.same (.codec cell) free)

/-- What goes through a view is spent. -/
theorem position_spent (root : view.RootSpends count before after)
    (bounds : ∀ cell ∈ view.cells, after.bounds.get cell = (before.bounds.get cell).spend count) :
    view.position after = view.position before + count := by
  cases view with
  | source own cell => exact root.1.position
  | cursor cell =>
    show (after.cursors.get cell).buffer.position = _
    rw [root.1]
    rfl
  | take cell parent =>
    show (after.bounds.get cell).position = _
    rw [bounds cell (List.mem_cons_self ..)]
    rfl
  | transformed cell parent => exact root.elim

/-- What is spent through a view is spent of its root. -/
theorem rootSpends_root :
    view.RootSpends count before after ↔ view.root.RootSpends count before after := by
  induction view with
  | take cell parent hypothesis => exact hypothesis
  | _ => exact Iff.rfl

end View

/-! ### Opening views -/

namespace Streams

variable {streams left right : Streams κ} {shift : Nat → Nat} {apart : List Layer}

theorem openTake_kept (streams : Streams κ) (view : View) (limit : Int) :
    Kept [.bound streams.bounds.size] streams (streams.openTake view limit).2 := by
  refine ⟨rfl, fun layer free => ?_, ?_, Nat.le_refl _, fun _ => rfl⟩
  · cases layer with
    | bound cell =>
      show (streams.bounds.push _).get cell = _
      rw [Table.get_push, if_neg]
      rintro rfl
      exact free (List.mem_singleton_self _)
    | _ => rfl
  · show _ ≤ (streams.bounds.push _).size
    exact Nat.le_of_lt (Table.size_lt_push _ _)

theorem openCursor_kept (streams : Streams κ) (content : Bytes) :
    Kept [.cursor streams.cursors.size] streams (streams.openCursor content).2 := by
  refine ⟨rfl, fun layer free => ?_, Nat.le_refl _, ?_, fun opened => ?_⟩
  · cases layer with
    | cursor cell =>
      show (streams.cursors.push _).get cell = _
      rw [Table.get_push, if_neg]
      rintro rfl
      exact free (List.mem_singleton_self _)
    | _ => rfl
  · show _ ≤ (streams.cursors.push _).size
    exact Nat.le_of_lt (Table.size_lt_push _ _)
  · exact absurd (opened _ (List.mem_singleton_self _)) (Nat.lt_irrefl _)

theorem Agree.openTake (agree : Agree shift apart left right) (view view' : View) (limit : Int) :
    Agree shift apart (left.openTake view limit).2 (right.openTake view' limit).2 where
  injective := agree.injective
  driver := agree.driver
  sources := agree.sources
  cursors := agree.cursors
  next := agree.next
  bounds cell free := by
    show (right.bounds.push _).get cell = (left.bounds.push _).get cell
    rw [Table.get_push, Table.get_push, agree.size, agree.bounds cell free]
  size := by
    show (right.bounds.push _).size = (left.bounds.push _).size
    rw [Table.size_push, Table.size_push, agree.size]
  transforms := agree.transforms

theorem Agree.openCursor (agree : Agree shift apart left right) (content : Bytes) :
    Agree shift apart (left.openCursor content).2 (right.openCursor content).2 where
  injective := agree.injective
  driver := agree.driver
  sources := agree.sources
  cursors cell free := by
    show (right.cursors.push _).get (shift cell) = (left.cursors.push _).get cell
    have next : shift left.cursors.size = right.cursors.size := agree.next 0
    rw [Table.get_push, Table.get_push, ← next, agree.cursors cell free]
    simp only [agree.injective.eq_iff]
  next more := by
    show shift ((left.cursors.push _).size + more) = (right.cursors.push _).size + more
    rw [Table.size_push, Table.size_push, Nat.add_assoc, agree.next, Nat.add_assoc]
  bounds := agree.bounds
  size := agree.size
  transforms := agree.transforms

end Streams

/-! ### Placements -/

/-- A view in one run, for which a cursor stands in another one: the cell of the cursor, and how much
more went through the view before. -/
structure Placement where
  target : View
  fresh : Nat
  passed : Nat

namespace Placement

variable (place : Placement)

/-- The cell that a cursor has besides the fresh one. -/
def shift (cell : Nat) : Nat :=
  if cell < place.fresh then cell else cell + 1

/-- What stands where a view stands in the run with the cursor. -/
def view : View → View
  | .source own cell => .source own cell
  | .cursor cell =>
    if cell < place.fresh then .cursor cell
    else if cell = place.fresh then place.target
    else .cursor (cell - 1)
  | .take cell parent => .take cell (view parent)
  | .transformed cell parent => .transformed cell (view parent)

theorem shift_injective : Function.Injective place.shift := by
  intro cell other same
  unfold shift at same
  split at same <;> split at same <;> omega

theorem shift_ne_fresh (cell : Nat) : place.shift cell ≠ place.fresh := by
  unfold shift
  split <;> omega

theorem shift_old {cell : Nat} (old : cell < place.fresh) : place.shift cell = cell :=
  if_pos old

theorem shift_beyond {cell : Nat} (beyond : place.fresh ≤ cell) : place.shift cell = cell + 1 :=
  if_neg (Nat.not_lt.mpr beyond)

theorem view_fresh : place.view (.cursor place.fresh) = place.target := by
  unfold view
  rw [if_neg (Nat.lt_irrefl _), if_pos rfl]

@[simp] theorem view_moved (other : View) : place.view (other.moved place.shift) = other := by
  induction other with
  | source own cell => rfl
  | cursor cell =>
    unfold View.moved view shift
    by_cases old : cell < place.fresh
    · rw [if_pos old, if_pos old]
    · rw [if_neg old, if_neg (by omega), if_neg (by omega), Nat.add_sub_cancel]
  | take cell parent hypothesis => rw [View.moved, view, hypothesis]
  | transformed cell parent hypothesis => rw [View.moved, view, hypothesis]

/-- A cursor other than the fresh one stands for one of the other run. -/
theorem exists_shift {cell : Nat} (other : cell ≠ place.fresh) : ∃ old, place.shift old = cell := by
  unfold shift
  rcases Nat.lt_or_gt_of_ne other with less | greater
  · exact ⟨cell, if_pos less⟩
  · exact ⟨cell - 1, by rw [if_neg (by omega)]; omega⟩

/-- The class of a view other than the cursor is that of what stands there. -/
theorem typeName_view {other : View} (different : other ≠ .cursor place.fresh) :
    (place.view other).typeName = other.typeName := by
  cases other with
  | cursor cell =>
    obtain ⟨old, rfl⟩ := place.exists_shift fun same => different (congrArg View.cursor same)
    rw [show View.cursor (place.shift old) = (View.cursor old).moved place.shift from rfl, view_moved]
    rfl
  | _ => rfl

/-! ### Streams that are joined -/

/-- The streams of a run with the cursor and of one with the view in its place. -/
structure Joined (alone inPlace : Streams κ) : Prop where
  agree : Streams.Agree place.shift place.target.touches inPlace alone
  plain : place.target.Plain inPlace
  opened : place.fresh < alone.cursors.size
  rooted : ∀ cell, .cursor cell ∈ place.target.touches → cell < inPlace.cursors.size
  content : place.target.content inPlace = (View.cursor place.fresh).content alone
  position : place.target.position inPlace =
    place.passed + (View.cursor place.fresh).position alone

/-- A view through bounds over the cursor that are none of the view in its place. -/
structure Above (streams : Streams κ) (other : View) : Prop where
  plain : other.Plain streams
  root : other.root = .cursor place.fresh
  apart : other.cells.Disjoint place.target.cells

/-- A view that stands for one apart from the view in place of the cursor. -/
def Beside (other : View) : Prop :=
  ∃ here : View, here.moved place.shift = other ∧ here.touches.Disjoint place.target.touches

variable {place} {alone inPlace alone' inPlace' : Streams κ} {other : View}
  {layers layers' : List Layer}

theorem Above.fresh (streams : Streams κ) : place.Above streams (.cursor place.fresh) :=
  ⟨trivial, rfl, List.disjoint_nil_left _⟩

theorem Above.parent {cell : Nat} (above : place.Above alone (.take cell other)) :
    place.Above alone other :=
  ⟨above.plain.2.2, above.root, (List.disjoint_cons_left.mp above.apart).2⟩

theorem Above.later (above : place.Above alone other)
    (later : alone.bounds.size ≤ alone'.bounds.size) : place.Above alone' other := by
  refine ⟨?_, above.root, above.apart⟩
  induction other with
  | source own cell => exact absurd above.root nofun
  | cursor cell => trivial
  | take cell parent hypothesis =>
    exact ⟨Nat.lt_of_lt_of_le above.plain.1 later, above.plain.2.1, hypothesis above.parent⟩
  | transformed cell parent => exact above.plain.elim

/-- The view over the cursor and what stands there have the same bounds, but for those of the view in
place of the cursor. -/
theorem Above.cells (above : place.Above alone other) :
    (place.view other).cells = other.cells ++ place.target.cells := by
  induction other with
  | source own cell => exact absurd above.root nofun
  | cursor cell =>
    rw [show View.cursor cell = .cursor place.fresh from above.root, view_fresh]
    rfl
  | take cell parent hypothesis => exact congrArg (cell :: ·) (hypothesis above.parent)
  | transformed cell parent => exact above.plain.elim

theorem Above.root_view (above : place.Above alone other) :
    (place.view other).root = place.target.root := by
  induction other with
  | source own cell => exact absurd above.root nofun
  | cursor cell => rw [show View.cursor cell = .cursor place.fresh from above.root, view_fresh]
  | take cell parent hypothesis => exact hypothesis above.parent
  | transformed cell parent => exact above.plain.elim

/-- What stands where a view over the cursor stands is plain, and has the same to give. -/
theorem Above.placed (above : place.Above alone other) (joined : place.Joined alone inPlace) :
    (place.view other).Plain inPlace ∧ (place.view other).content inPlace = other.content alone := by
  induction other with
  | source own cell => exact absurd above.root nofun
  | cursor cell =>
    rw [show View.cursor cell = .cursor place.fresh from above.root, view_fresh]
    exact ⟨joined.plain, joined.content⟩
  | take cell parent hypothesis =>
    obtain ⟨plain, same⟩ := hypothesis above.parent
    obtain ⟨inside, apart, -⟩ := above.plain
    obtain ⟨free, -⟩ := List.disjoint_cons_left.mp above.apart
    have bound := joined.agree.bounds cell fun member => free (View.bound_mem.mp member)
    refine ⟨⟨joined.agree.size ▸ inside, ?_, plain⟩, ?_⟩
    · rw [above.parent.cells, List.mem_append]
      exact fun member => member.elim apart free
    · show ((place.view parent).content inPlace).take _ = (parent.content alone).take _
      rw [same, bound]
  | transformed cell parent => exact above.plain.elim

/-! ### Operations -/

namespace Joined

/-- **Spending through a view over the cursor** is spending through what stands there. -/
theorem spend (joined : place.Joined alone inPlace) (above : place.Above alone other) {count : Nat}
    (spends : other.Spends count alone alone')
    (spends' : (place.view other).Spends count inPlace inPlace')
    (kept : Streams.Kept other.touches alone alone')
    (kept' : Streams.Kept (place.view other).touches inPlace inPlace') :
    place.Joined alone' inPlace' := by
  have roots : (View.cursor place.fresh).RootSpends count alone alone' := by
    rw [← above.root]
    exact View.rootSpends_root.mp spends.roots
  have roots' : place.target.RootSpends count inPlace inPlace' := by
    rw [View.rootSpends_root, ← above.root_view]
    exact View.rootSpends_root.mp spends'.roots
  have bounds : ∀ cell ∈ place.target.cells,
      inPlace'.bounds.get cell = (inPlace.bounds.get cell).spend count := fun cell member => by
    rw [spends'.bounds, if_pos (above.cells ▸ List.mem_append_right _ member)]
  have plainPlaced := (above.placed joined).1
  have settled : alone'.cursors.size = alone.cursors.size := by
    refine kept.settled fun cell member => ?_
    rcases (View.mem_touches above.plain).mp member with ⟨bound, -, same⟩ | same
    · cases same
    · rw [above.root] at same
      cases same
      exact joined.opened
  have settled' : inPlace'.cursors.size = inPlace.cursors.size := by
    refine kept'.settled fun cell member => ?_
    rcases (View.mem_touches plainPlaced).mp member with ⟨bound, -, same⟩ | same
    · cases same
    · exact joined.rooted cell (same ▸ above.root_view ▸ View.root_mem _)
  -- a layer that is none of the view in place of the cursor is changed as a bound, or not at all
  have free : ∀ layer, layer ∉ place.target.touches → (∀ cell, layer ≠ .bound cell) →
      layer ∉ (place.view other).touches := by
    intro layer apart root member
    rcases (View.mem_touches plainPlaced).mp member with ⟨cell, -, same⟩ | same
    · exact root cell same
    · exact apart (same ▸ above.root_view ▸ View.root_mem _)
  constructor
  · constructor
    · exact joined.agree.injective
    · rw [spends.driver, spends'.driver, joined.agree.driver]
    · intro cell apart
      have here : inPlace'.sources.get cell = inPlace.sources.get cell :=
        kept'.same _ (free _ apart nofun)
      rw [show alone'.sources = alone.sources from roots.2.2, here, joined.agree.sources cell apart]
    · intro cell apart
      have here : inPlace'.cursors.get cell = inPlace.cursors.get cell :=
        kept'.same _ (free _ apart nofun)
      rw [show alone'.cursors.get (place.shift cell) = alone.cursors.get (place.shift cell) from
        roots.2.1 _ (place.shift_ne_fresh cell), here, joined.agree.cursors cell apart]
    · intro more
      rw [settled, settled', joined.agree.next]
    · intro cell apart
      have outside : cell ∉ place.target.cells := fun member => apart (View.bound_mem.mpr member)
      rw [spends.bounds, spends'.bounds, above.cells, joined.agree.bounds cell apart]
      simp only [List.mem_append, outside, or_false]
    · rw [spends.size, spends'.size, joined.agree.size]
    · rw [spends.transforms, spends'.transforms, joined.agree.transforms]
  · exact joined.plain.spends spends'
  · exact settled ▸ joined.opened
  · exact fun cell member => settled' ▸ joined.rooted cell member
  · have cursor : (View.cursor place.fresh).content alone' =
        ((View.cursor place.fresh).content alone).drop count := View.content_drop roots nofun
    rw [View.content_drop roots' bounds, joined.content, cursor]
  · have cursor : (View.cursor place.fresh).position alone' =
        (View.cursor place.fresh).position alone + count := View.position_spent roots nofun
    rw [View.position_spent roots' bounds, joined.position, cursor, Nat.add_assoc]

/-- **A change of layers apart** from the cursor and from the view in its place. -/
theorem kept (joined : place.Joined alone inPlace)
    (agree : Streams.Agree place.shift place.target.touches inPlace' alone')
    (kept : Streams.Kept layers alone alone') (free : .cursor place.fresh ∉ layers)
    (kept' : Streams.Kept layers' inPlace inPlace')
    (free' : place.target.touches.Disjoint layers') : place.Joined alone' inPlace' where
  agree := agree
  plain := joined.plain.kept kept' free'
  opened := Nat.lt_of_lt_of_le joined.opened kept.cursors
  rooted cell member := Nat.lt_of_lt_of_le (joined.rooted cell member) kept'.cursors
  content := by
    have free : (View.cursor place.fresh).touches.Disjoint layers :=
      List.singleton_disjoint.mpr free
    rw [View.content_kept kept' free', View.content_kept kept free, joined.content]
  position := by
    have cursor : (View.cursor place.fresh).position alone' =
        (View.cursor place.fresh).position alone := View.position_kept kept free
    rw [View.position_kept kept' (free' place.target.top_mem), cursor, joined.position]

/-- Opening a bound over any view. -/
theorem openTake (joined : place.Joined alone inPlace) (view view' : View) (limit : Int) :
    place.Joined (alone.openTake view limit).2 (inPlace.openTake view' limit).2 := by
  refine joined.kept (joined.agree.openTake _ _ limit) (alone.openTake_kept view limit) (by simp)
    (inPlace.openTake_kept view' limit) (List.disjoint_singleton.mpr fun member => ?_)
  exact Nat.lt_irrefl _ (View.cells_lt_size joined.plain _ (View.bound_mem.mp member))

theorem openCursor (joined : place.Joined alone inPlace) (content : Bytes) :
    place.Joined (alone.openCursor content).2 (inPlace.openCursor content).2 := by
  refine joined.kept (joined.agree.openCursor content) (alone.openCursor_kept content)
    (fun member => ?_) (inPlace.openCursor_kept content) (List.disjoint_singleton.mpr fun member => ?_)
  · exact Nat.ne_of_lt joined.opened (Layer.cursor.inj (List.mem_singleton.mp member))
  · exact Nat.lt_irrefl _ (joined.rooted _ member)

/-- How much went through a view other than the cursor, if its top layer is none of the view in place
of the cursor. -/
theorem position_view (joined : place.Joined alone inPlace) (different : other ≠ .cursor place.fresh)
    (free : (place.view other).top ∉ place.target.touches) :
    (place.view other).position inPlace = other.position alone := by
  cases other with
  | source own cell => exact (congrArg (·.buffer.position) (joined.agree.sources cell free)).symm
  | cursor cell =>
    obtain ⟨old, rfl⟩ := place.exists_shift fun same => different (congrArg View.cursor same)
    have moved : place.view (.cursor (place.shift old)) = .cursor old :=
      place.view_moved (.cursor old)
    rw [moved] at free ⊢
    have same : ((View.cursor old).moved place.shift).position alone =
        (View.cursor old).position inPlace := View.position_agree joined.agree free
    exact same.symm
  | take cell parent => exact (congrArg Bound.position (joined.agree.bounds cell free)).symm
  | transformed cell parent =>
    show (inPlace.transforms.get cell).buffer.position = (alone.transforms.get cell).buffer.position
    rw [joined.agree.transforms]

end Joined

end Placement

namespace Placement

variable {place : Placement} {alone inPlace : Streams κ} {other : View}

/-- A view that may be read in both runs. -/
def Reads (place : Placement) (streams : Streams κ) (view : View) : Prop :=
  place.Above streams view ∨ place.Beside view

theorem Beside.free (beside : place.Beside other) : .cursor place.fresh ∉ other.touches := by
  obtain ⟨here, rfl, -⟩ := beside
  induction here with
  | source own cell => exact fun member => nomatch List.mem_singleton.mp member
  | cursor cell =>
    exact fun member =>
      place.shift_ne_fresh cell (Layer.cursor.inj (List.mem_singleton.mp member)).symm
  | take cell parent hypothesis =>
    exact fun member => (List.mem_cons.mp member).elim nofun hypothesis
  | transformed cell parent hypothesis =>
    exact fun member => (List.mem_cons.mp member).elim nofun hypothesis

/-- The top layer of a view other than the cursor is none of the view in place of the cursor. -/
theorem Reads.free (reads : place.Reads alone other) (different : other ≠ .cursor place.fresh) :
    (place.view other).top ∉ place.target.touches := by
  rcases reads with above | ⟨here, rfl, apart⟩
  · cases other with
    | source own cell => exact absurd above.root nofun
    | cursor cell => exact absurd above.root different
    | take cell parent =>
      exact fun member => (List.disjoint_cons_left.mp above.apart).1 (View.bound_mem.mp member)
    | transformed cell parent => exact above.plain.elim
  · rw [place.view_moved]
    exact apart here.top_mem

theorem Reads.later {alone' : Streams κ} (reads : place.Reads alone other)
    (later : alone.bounds.size ≤ alone'.bounds.size) : place.Reads alone' other :=
  reads.imp_left fun above => above.later later

/-- As much can come from a view in both runs. -/
theorem Reads.weight [ChunkCodec κ] (reads : place.Reads alone other)
    (joined : place.Joined alone inPlace) :
    (place.view other).weight inPlace = other.weight alone := by
  rcases reads with above | ⟨here, rfl, apart⟩
  · obtain ⟨plain, same⟩ := above.placed joined
    rw [View.weight_plain plain, View.weight_plain above.plain, same]
  · rw [place.view_moved]
    exact (View.weight_agree joined.agree apart).symm

/-- **Reading** gives the same in both runs, and leaves their streams joined. -/
theorem Joined.read [ChunkCodec κ] {α : Type} {step : View → StreamStep κ α}
    {answer : Bytes → Except Fault α} {cost : Bytes → Nat} (joined : place.Joined alone inPlace)
    (reader : View.Reader step answer cost) (reads : place.Reads alone other) :
    ∃ result alone' inPlace', (step other).run alone = (result, alone') ∧
      (step (place.view other)).run inPlace = (result, inPlace') ∧ place.Joined alone' inPlace' ∧
      alone.bounds.size ≤ alone'.bounds.size := by
  have kept := reader.kept other alone
  have kept' := reader.kept (place.view other) inPlace
  rcases reads with above | beside
  · obtain ⟨plain, same⟩ := above.placed joined
    obtain ⟨alone', ran, spends⟩ := reader.plain above.plain
    obtain ⟨inPlace', ran', spends'⟩ := reader.plain plain
    rw [same] at ran' spends'
    rw [ran] at kept
    rw [ran'] at kept'
    exact ⟨_, alone', inPlace', ran, ran', joined.spend above spends spends' kept kept', kept.bounds⟩
  · have free := beside.free
    obtain ⟨here, rfl, apart⟩ := beside
    rw [place.view_moved] at kept' ⊢
    obtain ⟨result, agree, -, -⟩ := reader.abreast apart inPlace alone joined.agree
    exact ⟨_, _, ((step here).run inPlace).2, rfl, Prod.ext result.symm rfl,
      joined.kept agree kept free kept' (List.disjoint_symm apart), kept.bounds⟩

end Placement

/-! ### The streams at first -/

/-- A view whose cursor was opened. -/
def View.Standing (streams : Streams κ) (view : View) : Prop :=
  ∀ cell, .cursor cell ∈ view.touches → cell < streams.cursors.size

namespace View.Standing

variable {streams : Streams κ} {view : View} {place : Placement}

theorem moved (standing : view.Standing streams) (fresh : place.fresh = streams.cursors.size) :
    view.moved place.shift = view := by
  induction view with
  | source own cell => rfl
  | cursor cell =>
    exact congrArg View.cursor
      (place.shift_old (fresh ▸ standing cell (List.mem_singleton_self _)))
  | take cell parent hypothesis =>
    exact congrArg (View.take cell)
      (hypothesis fun other member => standing other (List.mem_cons_of_mem _ member))
  | transformed cell parent hypothesis =>
    exact congrArg (View.transformed cell)
      (hypothesis fun other member => standing other (List.mem_cons_of_mem _ member))

/-- A view that was opened before the cursor stands for itself. -/
theorem view_eq_self (standing : view.Standing streams)
    (fresh : place.fresh = streams.cursors.size) : place.view view = view := by
  have same := place.view_moved view
  rwa [standing.moved fresh] at same

theorem ne_fresh (standing : view.Standing streams) : view ≠ .cursor streams.cursors.size := by
  rintro rfl
  exact Nat.lt_irrefl _ (standing _ (List.mem_singleton_self _))

end View.Standing

/-- A view in place of a cursor that is opened now. -/
def Placement.of (streams : Streams κ) (view : View) : Placement :=
  ⟨view, streams.cursors.size, view.position streams⟩

/-- A cursor is opened over what a view has to give. -/
theorem Placement.joined_of {streams : Streams κ} {view : View} (plain : view.Plain streams)
    (standing : view.Standing streams) :
    (of streams view).Joined (streams.openCursor (view.content streams)).2 streams := by
  have size : (streams.openCursor (view.content streams)).2.cursors.size = streams.cursors.size + 1 :=
    Table.size_push _ _
  have fresh : (streams.openCursor (view.content streams)).2.cursors.get streams.cursors.size =
      ⟨{ content := view.content streams, ended := true }, (view.content streams).length⟩ :=
    Table.get_push_self _ _
  refine ⟨⟨shift_injective _, rfl, fun _ _ => rfl, fun cell _ => ?_, fun more => ?_, fun _ _ => rfl,
    rfl, rfl⟩, plain, size ▸ Nat.lt_succ_self _, standing, ?_, ?_⟩
  · show (streams.cursors.push _).get ((of streams view).shift cell) = _
    have apart : (of streams view).shift cell ≠ streams.cursors.size :=
      (of streams view).shift_ne_fresh cell
    rw [Table.get_push, if_neg apart]
    rcases Nat.lt_or_ge cell streams.cursors.size with old | beyond
    · rw [shift_old _ old]
    · rw [shift_beyond _ beyond, Table.get_of_size_le _ beyond,
        Table.get_of_size_le _ (Nat.le_succ_of_le beyond)]
  · have beyond : (of streams view).fresh ≤ streams.cursors.size + more := Nat.le_add_right _ _
    rw [size, shift_beyond _ beyond]
    omega
  · exact (congrArg (·.buffer.content) fresh).symm
  · exact (congrArg (fun cursor => view.position streams + cursor.buffer.position) fresh).symm

end WireProgram
