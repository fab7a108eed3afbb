/-
**Plain views: a root, seen through bounds.**

What a plain view still has to give is the rest of its root, cut by the bounds over it; how much of
it is held does not matter. Every operation on a plain view is described by what it returns and by
how many bytes it spends. The main definitions and statements:

* `View.Plain`, and `View.content` and `View.held`, what a view has to give and what it holds;
* `View.Spends`, the change of the streams when so many bytes are spent through a view;
* `View.fillBuf_plain`, `View.consume_plain`, `View.readExact_plain` and `View.readToEnd_plain`, one
  for each operation.
-/

import Mathlib.Data.List.Infix
import WireProgram.Proofs.Stream.Delivery
import WireProgram.Proofs.Stream.Operation

namespace WireProgram

/-- A bound after so many bytes were spent. -/
def Bound.spend (bound : Bound) (count : Nat) : Bound :=
  ⟨bound.left - count, bound.position + count⟩

theorem Bound.spend_zero (bound : Bound) : bound.spend 0 = bound := by
  simp [Bound.spend]

theorem Bound.spend_spend (bound : Bound) (first second : Nat) :
    (bound.spend first).spend second = bound.spend (first + second) := by
  unfold Bound.spend
  simp only [Int.natCast_add, Bound.mk.injEq]
  omega

/-- A source after so many bytes were spent: it may also have pulled. -/
structure Source.Spent (count : Nat) (before after : Source) : Prop where
  fair : before.Fair → after.Fair
  rest : after.rest = before.rest.drop count
  position : after.buffer.position = before.buffer.position + count

/-- A source of which so many bytes were spent, and which had as many. -/
structure Source.Gives (count : Nat) (before after : Source) : Prop extends
    Source.Spent count before after where
  within : count ≤ before.rest.length

theorem Source.Gives.refl (source : Source) : Source.Gives 0 source source :=
  ⟨⟨id, rfl, rfl⟩, Nat.zero_le _⟩

theorem Source.Gives.trans {first second : Nat} {before middle after : Source}
    (one : Source.Gives first before middle) (two : Source.Gives second middle after) :
    Source.Gives (first + second) before after := by
  have within := one.within
  have within' := two.within
  rw [one.rest, List.length_drop] at within'
  refine ⟨⟨fun fair => two.fair (one.fair fair), ?_, ?_⟩, by omega⟩
  · rw [two.rest, one.rest, List.drop_drop]
  · rw [two.position, one.position, Nat.add_assoc]

namespace View

variable {κ : Type} [ChunkCodec κ] {streams before after middle : Streams κ} {view : View}
  {count want : Nat}

/-! ### What a view has to give -/

/-- The cells of the bounds of a view. -/
def cells : View → List Nat
  | .source _ _ | .cursor _ => []
  | .take cell parent => cell :: parent.cells
  | .transformed _ parent => parent.cells

/-- The view under all bounds of a view. -/
def root : View → View
  | .take _ parent => parent.root
  | view => view

/-- The bytes of a root as a question gives them, cut by the bounds of a view. -/
def seen (ofSource : Source → Bytes) (streams : Streams κ) : View → Bytes
  | .source _ cell => ofSource (streams.sources.get cell)
  | .cursor cell => (streams.cursors.get cell).buffer.content
  | .take cell parent =>
    (seen ofSource streams parent).take (streams.bounds.get cell).left.toNat
  | .transformed cell _ => (streams.transforms.get cell).buffer.content

/-- What a plain view still has to give. -/
def content (streams : Streams κ) (view : View) : Bytes :=
  view.seen Source.rest streams

/-- What a view holds of what it has to give. -/
def held (streams : Streams κ) (view : View) : Bytes :=
  view.seen (fun source => source.buffer.content) streams

/--
A view without codecs over a root that gives all of its bytes: a cursor, or a fair source that the
driver can pull. No bound stands twice over one root.
-/
def Plain (streams : Streams κ) : View → Prop
  | .source own cell => own = streams.driver ∧ (streams.sources.get cell).Fair
  | .cursor _ => True
  | .take cell parent =>
    cell < streams.bounds.size ∧ cell ∉ parent.cells ∧ Plain streams parent
  | .transformed _ _ => False

omit [ChunkCodec κ] in
theorem held_front (streams : Streams κ) (view : View) :
    view.held streams <+: view.content streams := by
  induction view with
  | source own cell => exact Source.held_front _
  | cursor cell => exact List.prefix_rfl
  | take cell parent hypothesis => exact List.IsPrefix.take hypothesis _
  | transformed cell parent => exact List.prefix_rfl

theorem weight_plain (plain : view.Plain streams) :
    view.weight streams = (view.content streams).length := by
  induction view with
  | source own cell => exact (Source.length_rest _).symm
  | cursor cell => rfl
  | take cell parent hypothesis =>
    show min _ (weight streams parent) = (List.take _ (parent.content streams)).length
    rw [hypothesis plain.2.2, List.length_take]
  | transformed cell parent => exact plain.elim

omit [ChunkCodec κ] in
/-- A view has no more to give than each of its bounds allows for. -/
theorem length_content_le (plain : view.Plain streams) :
    ∀ cell ∈ view.cells,
      (view.content streams).length ≤ (streams.bounds.get cell).left.toNat := by
  induction view with
  | source own cell => exact nofun
  | cursor cell => exact nofun
  | take cell parent hypothesis =>
    intro other member
    have cut : ((View.take cell parent).content streams).length =
        min (streams.bounds.get cell).left.toNat (parent.content streams).length :=
      List.length_take
    rcases List.mem_cons.mp member with rfl | above
    · omega
    · have := hypothesis plain.2.2 other above
      omega
  | transformed cell parent => exact plain.elim

omit [ChunkCodec κ] in
theorem cells_lt_size (plain : view.Plain streams) :
    ∀ cell ∈ view.cells, cell < streams.bounds.size := by
  induction view with
  | source own cell => exact nofun
  | cursor cell => exact nofun
  | take cell parent hypothesis =>
    intro other member
    rcases List.mem_cons.mp member with rfl | above
    · exact plain.1
    · exact hypothesis plain.2.2 other above
  | transformed cell parent => exact plain.elim

omit [ChunkCodec κ] in
/-- Opening a bound keeps every view plain, and the new one is plain if its parent is. -/
theorem Plain.openTake (plain : view.Plain streams) (parent : View) (limit : Int) :
    view.Plain (streams.openTake parent limit).2 := by
  induction view with
  | source own cell => exact plain
  | cursor cell => trivial
  | take cell inner hypothesis =>
    refine ⟨?_, plain.2.1, hypothesis plain.2.2⟩
    show cell < (streams.bounds.push _).size
    rw [Table.size_push]
    exact Nat.lt_succ_of_lt plain.1
  | transformed cell inner => exact plain.elim

omit [ChunkCodec κ] in
theorem openTake_plain (plain : view.Plain streams) (limit : Int) :
    (streams.openTake view limit).1.Plain (streams.openTake view limit).2 := by
  refine ⟨?_, ?_, plain.openTake view limit⟩
  · show streams.bounds.size < (streams.bounds.push _).size
    exact Table.size_lt_push _ _
  · exact fun member => Nat.lt_irrefl _ (cells_lt_size plain _ member)

omit [ChunkCodec κ] in
/-- Opening a bound leaves a root as it is. -/
theorem root_openTake (plain : view.Plain streams) (bare : view.cells = []) (parent : View)
    (limit : Int) :
    view.content (streams.openTake parent limit).2 = view.content streams ∧
      view.position (streams.openTake parent limit).2 = view.position streams := by
  cases view with
  | source own cell => exact ⟨rfl, rfl⟩
  | cursor cell => exact ⟨rfl, rfl⟩
  | take cell inner => exact absurd bare (List.cons_ne_nil _ _)
  | transformed cell inner => exact plain.elim

/-! ### Spending -/

/-- The change of the root of a view when so many bytes of it are spent. -/
def RootSpends (count : Nat) (before after : Streams κ) : View → Prop
  | .source _ cell =>
    Source.Spent count (before.sources.get cell) (after.sources.get cell) ∧
      (∀ other, other ≠ cell → after.sources.get other = before.sources.get other) ∧
      after.cursors = before.cursors
  | .cursor cell =>
    (after.cursors.get cell).buffer = (before.cursors.get cell).buffer.drop count ∧
      (∀ other, other ≠ cell → after.cursors.get other = before.cursors.get other) ∧
      after.sources = before.sources
  | .take _ parent => RootSpends count before after parent
  | .transformed _ _ => False

/-- The change of the streams when so many bytes are spent through a plain view. -/
structure Spends (view : View) (count : Nat) (before after : Streams κ) : Prop where
  roots : view.RootSpends count before after
  bounds : ∀ cell, after.bounds.get cell =
    if cell ∈ view.cells then (before.bounds.get cell).spend count else before.bounds.get cell
  size : after.bounds.size = before.bounds.size
  transforms : after.transforms = before.transforms
  driver : after.driver = before.driver

omit [ChunkCodec κ] in
theorem RootSpends.trans {first second : Nat} (one : view.RootSpends first before middle)
    (two : view.RootSpends second middle after) :
    view.RootSpends (first + second) before after := by
  induction view with
  | source own cell =>
    obtain ⟨⟨fair, rest, position⟩, others, cursors⟩ := one
    obtain ⟨⟨fair', rest', position'⟩, others', cursors'⟩ := two
    refine ⟨⟨fun given => fair' (fair given), ?_, ?_⟩, ?_, cursors'.trans cursors⟩
    · rw [rest', rest, List.drop_drop]
    · rw [position', position, Nat.add_assoc]
    · exact fun other different => (others' other different).trans (others other different)
  | cursor cell =>
    obtain ⟨drop, others, sources⟩ := one
    obtain ⟨drop', others', sources'⟩ := two
    refine ⟨?_, ?_, sources'.trans sources⟩
    · rw [drop', drop]
      simp only [Buffer.drop, List.drop_drop, Nat.add_assoc]
    · exact fun other different => (others' other different).trans (others other different)
  | take cell parent hypothesis => exact hypothesis one two
  | transformed cell parent => exact one.elim

omit [ChunkCodec κ] in
theorem Spends.trans {first second : Nat} (one : view.Spends first before middle)
    (two : view.Spends second middle after) : view.Spends (first + second) before after where
  roots := one.roots.trans two.roots
  bounds := by
    intro cell
    rw [two.bounds, one.bounds]
    split
    · exact Bound.spend_spend _ _ _
    · rfl
  size := two.size.trans one.size
  transforms := two.transforms.trans one.transforms
  driver := two.driver.trans one.driver

omit [ChunkCodec κ] in
theorem RootSpends.zero (plain : view.Plain streams) : view.RootSpends 0 streams streams := by
  induction view with
  | source own cell => exact ⟨⟨id, rfl, rfl⟩, fun _ _ => rfl, rfl⟩
  | cursor cell => exact ⟨rfl, fun _ _ => rfl, rfl⟩
  | take cell parent hypothesis => exact hypothesis plain.2.2
  | transformed cell parent => exact plain.elim

omit [ChunkCodec κ] in
theorem Spends.zero (plain : view.Plain streams) : view.Spends 0 streams streams where
  roots := RootSpends.zero plain
  bounds := by
    intro cell
    rw [Bound.spend_zero, ite_self]
  size := rfl
  transforms := rfl
  driver := rfl

omit [ChunkCodec κ] in
theorem RootSpends.fair (spends : view.RootSpends count before after) (cell : Nat)
    (fair : (before.sources.get cell).Fair) : (after.sources.get cell).Fair := by
  induction view with
  | source own root =>
    by_cases same : cell = root
    · rw [same] at fair ⊢
      exact spends.1.fair fair
    · rw [spends.2.1 cell same]
      exact fair
  | cursor root =>
    rw [spends.2.2]
    exact fair
  | take other parent hypothesis => exact hypothesis spends
  | transformed other parent => exact spends.elim

omit [ChunkCodec κ] in
/-- Spending through one view keeps every other one plain. -/
theorem Plain.spends {other : View} (plain : other.Plain before)
    (spends : view.Spends count before after) : other.Plain after := by
  induction other with
  | source own cell => exact ⟨plain.1.trans spends.driver.symm, spends.roots.fair cell plain.2⟩
  | cursor cell => trivial
  | take cell parent hypothesis =>
    refine ⟨?_, plain.2.1, hypothesis plain.2.2⟩
    rw [spends.size]
    exact plain.1
  | transformed cell parent => exact plain.elim

omit [ChunkCodec κ] in
/-- What a view has to give after bytes were spent at its root and at all of its bounds. -/
theorem content_drop (root : view.RootSpends count before after)
    (bounds : ∀ cell ∈ view.cells, after.bounds.get cell = (before.bounds.get cell).spend count) :
    view.content after = (view.content before).drop count := by
  induction view with
  | source own cell => exact root.1.rest
  | cursor cell =>
    show (after.cursors.get cell).buffer.content = _
    rw [root.1]
    rfl
  | take cell parent hypothesis =>
    have inner := hypothesis root fun other member => bounds other (List.mem_cons_of_mem _ member)
    show (parent.content after).take _ = ((parent.content before).take _).drop count
    rw [inner, bounds cell (List.mem_cons_self ..), List.drop_take]
    congr 1
    show ((before.bounds.get cell).left - count).toNat = _
    omega
  | transformed cell parent => exact root.elim

omit [ChunkCodec κ] in
theorem Spends.content (spends : view.Spends count before after) :
    view.content after = (view.content before).drop count :=
  content_drop spends.roots fun cell member => by rw [spends.bounds, if_pos member]

omit [ChunkCodec κ] in
theorem content_root (streams : Streams κ) (plain : view.Plain streams) :
    view.content streams = view.cells.foldr
      (fun cell bytes => bytes.take (streams.bounds.get cell).left.toNat)
      (view.root.content streams) := by
  induction view with
  | source own cell => rfl
  | cursor cell => rfl
  | take cell parent hypothesis =>
    rw [cells, List.foldr_cons, root, ← hypothesis plain.2.2]
    rfl
  | transformed cell parent => exact plain.elim

omit [ChunkCodec κ] in
/-- What spending through a view does to its root. -/
theorem RootSpends.root (spends : view.RootSpends count before after) :
    view.root.content after = (view.root.content before).drop count ∧
      view.root.position after = view.root.position before + count := by
  induction view with
  | source own cell => exact ⟨spends.1.rest, spends.1.position⟩
  | cursor cell =>
    show (after.cursors.get cell).buffer.content = _ ∧ (after.cursors.get cell).buffer.position = _
    rw [spends.1]
    exact ⟨rfl, rfl⟩
  | take cell parent hypothesis => exact hypothesis spends
  | transformed cell parent => exact spends.elim

omit [ChunkCodec κ] in
/-- The roots do not depend on the bounds. -/
theorem RootSpends.withBounds (spends : view.RootSpends count before after) (bounds : Table Bound) :
    view.RootSpends count before { after with bounds := bounds } := by
  induction view with
  | source own cell => exact spends
  | cursor cell => exact spends
  | take cell parent hypothesis => exact hypothesis spends
  | transformed cell parent => exact spends.elim

omit [ChunkCodec κ] in
/-- Spending through a bounded view, put together from its parent and the bound. -/
theorem Spends.take {cell : Nat} (spends : view.Spends count before middle)
    (inside : cell < before.bounds.size) :
    (View.take cell view).Spends count before
      { middle with bounds := middle.bounds.set cell ((before.bounds.get cell).spend count) } where
  roots := spends.roots.withBounds _
  bounds := by
    intro other
    rw [Table.get_set, spends.bounds]
    by_cases same : other = cell
    · rw [if_pos same, if_pos (by rw [same]; exact List.mem_cons_self ..), same]
    · rw [if_neg same]
      have member : other ∈ (View.take cell view).cells ↔ other ∈ view.cells :=
        ⟨fun member => (List.mem_cons.mp member).resolve_left same, List.mem_cons_of_mem _⟩
      simp only [member]
  size := by
    rw [← spends.size] at inside
    exact (Table.size_set _ _ _ inside).trans spends.size
  transforms := spends.transforms
  driver := spends.driver

omit [ChunkCodec κ] in
/-- Spending nothing through a bounded view is spending nothing through its parent. -/
theorem Spends.take_zero {cell : Nat} (spends : view.Spends 0 before after) :
    (View.take cell view).Spends 0 before after where
  roots := spends.roots
  bounds := by
    intro other
    rw [spends.bounds, Bound.spend_zero, ite_self, ite_self]
  size := spends.size
  transforms := spends.transforms
  driver := spends.driver

/-! ### The operations -/

omit [ChunkCodec κ] in
/-- Spending from the buffer of a source that was pulled. -/
theorem source_spends (own : Execution) {cell : Nat} {pulled : Source}
    (moved : Source.Pulled want (streams.sources.get cell) pulled)
    (within : count ≤ pulled.buffer.content.length) :
    (View.source own cell).Spends count streams { streams with
      sources := streams.sources.set cell { pulled with buffer := pulled.buffer.drop count } } where
  roots := by
    refine ⟨?_, ?_, rfl⟩
    · show Source.Spent count _ ((streams.sources.set cell _).get cell)
      rw [Table.get_set, if_pos rfl]
      refine ⟨fun _ => ⟨moved.fair.solid, moved.fair.ended⟩, ?_, ?_⟩
      · rw [← moved.rest]
        exact (List.drop_append_of_le_length within).symm
      · rw [← moved.position]
        rfl
    · intro other different
      show (streams.sources.set cell _).get other = _
      rw [Table.get_set, if_neg different]
  bounds := fun other => (if_neg (List.not_mem_nil (a := other))).symm
  size := rfl
  transforms := rfl
  driver := rfl

omit [ChunkCodec κ] in
/-- Spending from a cursor. -/
theorem cursor_spends (cell count : Nat) (streams : Streams κ) :
    (View.cursor cell).Spends count streams { streams with
      cursors := streams.cursors.set cell
        { streams.cursors.get cell with
          buffer := (streams.cursors.get cell).buffer.drop count } } where
  roots := by
    refine ⟨?_, ?_, rfl⟩
    · show ((streams.cursors.set cell _).get cell).buffer = _
      rw [Table.get_set, if_pos rfl]
    · intro other different
      show (streams.cursors.set cell _).get other = _
      rw [Table.get_set, if_neg different]
  bounds := fun other => (if_neg (List.not_mem_nil (a := other))).symm
  size := rfl
  transforms := rfl
  driver := rfl

/-- **Peeking.** What is held is given and nothing is spent; it is as much as was wanted, if there is
as much, and it is something, if there is anything. -/
theorem fillBuf_plain (plain : view.Plain streams) (want : Nat) :
    ∃ after, (view.fillBuf want).run streams = (.ok (view.held after), after) ∧
      view.Spends 0 streams after ∧
      min (max want 1) (view.content streams).length ≤ (view.held after).length := by
  induction view generalizing want with
  | source own cell =>
    obtain ⟨rfl, fair⟩ := plain
    obtain ⟨pulled, same, moved⟩ := Source.pullUntil_fair streams.driver (max want 1) _ fair
    have kept : ({ streams with sources := streams.sources.set cell pulled } : Streams κ).sources.get
        cell = pulled := by
      rw [Table.get_set, if_pos rfl]
    refine ⟨{ streams with sources := streams.sources.set cell pulled }, ?_,
      source_spends streams.driver moved (Nat.zero_le _), ?_⟩
    · rw [held, seen, kept]
      refine run_onSource ?_
      simp only [same]
      rfl
    · rw [held, seen, kept, content, seen, ← moved.rest]
      exact moved.enough
  | cursor cell =>
    have kept : ∀ cursor : Cursor, (streams.cursors.set cell cursor).get cell = cursor := by
      intro cursor
      rw [Table.get_set, if_pos rfl]
    refine ⟨_, run_onCursor ?_, cursor_spends cell 0 streams, ?_⟩
    · rw [held, seen, kept]
      rfl
    · rw [held, seen, kept]
      exact Nat.min_le_right _ _
  | take cell parent hypothesis =>
    have contentLength : ((View.take cell parent).content streams).length =
        min (streams.bounds.get cell).left.toNat (parent.content streams).length :=
      List.length_take
    have heldAs : ∀ after : Streams κ, (View.take cell parent).held after =
        (parent.held after).take (after.bounds.get cell).left.toNat := fun _ => rfl
    rw [run_fillBuf_take]
    by_cases spent : (streams.bounds.get cell).left ≤ 0
    · have none : (streams.bounds.get cell).left.toNat = 0 := by omega
      rw [if_pos spent]
      refine ⟨streams, ?_, Spends.zero plain, ?_⟩
      · rw [heldAs, none, List.take_zero]
      · rw [contentLength, none]
        omega
    · obtain ⟨after, same, spends, enough⟩ :=
        hypothesis plain.2.2 (min (max want 1) (streams.bounds.get cell).left.toNat)
      have bound : after.bounds.get cell = streams.bounds.get cell := by
        rw [spends.bounds, Bound.spend_zero, ite_self]
      rw [if_neg spent, same]
      refine ⟨after, ?_, spends.take_zero, ?_⟩
      · rw [heldAs, bound]
      · rw [contentLength, heldAs, List.length_take, bound]
        omega
  | transformed cell parent => exact plain.elim

omit [ChunkCodec κ] in
/-- **Dropping.** What was peeked at can be dropped, and that much is spent. A bound that is
overdrawn does not even allow for nothing. -/
theorem consume_plain (plain : view.Plain streams) (within : count ≤ (view.held streams).length)
    (allowed : 0 < count ∨ ∀ cell ∈ view.cells, 0 ≤ (streams.bounds.get cell).left) :
    ∃ after, (view.consume count).run streams = (.ok (), after) ∧
      view.Spends count streams after := by
  induction view with
  | source own cell =>
    have still : Source.Pulled 0 (streams.sources.get cell) (streams.sources.get cell) :=
      ⟨plain.2, rfl, rfl, by omega⟩
    refine ⟨_, run_onSource ?_, source_spends own still within⟩
    simp only [Buffer.consume_held _ _ within]
  | cursor cell =>
    refine ⟨_, run_onCursor ?_, cursor_spends cell count streams⟩
    exact Buffer.consume_held _ _ within
  | take cell parent hypothesis =>
    obtain ⟨inside, fresh, plainParent⟩ := plain
    have within' : count ≤ min (streams.bounds.get cell).left.toNat (parent.held streams).length := by
      rwa [← List.length_take]
    have room : ¬((count : Int) < 0 ∨ (streams.bounds.get cell).left < count) := by
      rcases allowed with positive | whole
      · omega
      · have := whole cell (List.mem_cons_self ..)
        omega
    obtain ⟨after, same, spends⟩ := hypothesis plainParent (by omega)
      (allowed.imp_right fun whole other member => whole other (List.mem_cons_of_mem _ member))
    have bound : after.bounds.get cell = streams.bounds.get cell := by
      rw [spends.bounds, if_neg fresh]
    rw [run_consume_take, if_neg room, Table.set_get _ _ inside, same]
    refine ⟨_, rfl, ?_⟩
    rw [bound, Int.toNat_natCast]
    exact spends.take inside
  | transformed cell parent => exact plain.elim

/-- Exactly so many bytes of a byte string, or the fault that there are not as many. -/
def exactly (count : Nat) (bytes : Bytes) : Except Fault Bytes :=
  if count ≤ bytes.length then .ok (bytes.take count)
  else .error (.decode (.shortRead count bytes.length))

/-- The number of bytes that such a read spends: a read that falls short spends none. -/
def spentBy (count : Nat) (bytes : Bytes) : Nat :=
  if count ≤ bytes.length then count else 0

/-- Reading from the buffer of a source that was pulled is reading from all that it has to give. -/
theorem read_pulled {source pulled : Source} (moved : Source.Pulled count source pulled) :
    pulled.buffer.read count = (exactly count source.rest,
      pulled.buffer.drop (spentBy count source.rest)) ∧
      spentBy count source.rest ≤ pulled.buffer.content.length := by
  have enough := moved.enough
  rw [moved.rest] at enough
  have most : pulled.buffer.content.length ≤ source.rest.length := by
    rw [← moved.rest]
    exact pulled.held_front.length_le
  by_cases within : count ≤ source.rest.length
  · have held : count ≤ pulled.buffer.content.length := by omega
    rw [exactly, spentBy, if_pos within, if_pos within, Buffer.read_held _ _ held, ← moved.rest]
    refine ⟨?_, held⟩
    rw [Source.rest, List.take_append_of_le_length held]
  · have all : pulled.buffer.content.length = source.rest.length := by omega
    rw [exactly, spentBy, if_neg within, if_neg within, Buffer.read_short _ _ (by omega), all]
    exact ⟨rfl, Nat.zero_le _⟩

/-- A bound that allows for a read makes no difference to it. -/
theorem exactly_take {limit : Nat} (allowed : count ≤ limit) (bytes : Bytes) :
    exactly count (bytes.take limit) = exactly count bytes ∧
      spentBy count (bytes.take limit) = spentBy count bytes := by
  unfold exactly spentBy
  rw [List.length_take]
  by_cases within : count ≤ bytes.length
  · rw [if_pos within, if_pos within, if_pos (by omega), if_pos (by omega), List.take_take,
      Nat.min_eq_left allowed]
    exact ⟨rfl, rfl⟩
  · rw [if_neg within, if_neg within, if_neg (by omega), if_neg (by omega),
      Nat.min_eq_right (by omega)]
    exact ⟨rfl, rfl⟩

/-- A read of more than a bound allows for counts what there is. -/
theorem readExact_beyond {cell : Nat} {parent : View} (plain : (View.take cell parent).Plain streams)
    (beyond : (streams.bounds.get cell).left < count) :
    ∃ after, ((View.take cell parent).readExact count).run streams =
        (exactly count ((View.take cell parent).content streams), after) ∧
      (View.take cell parent).Spends (spentBy count ((View.take cell parent).content streams))
        streams after := by
  rw [run_readExact_take, if_pos beyond, if_neg (by omega)]
  by_cases nothing : (count : Int) = 0
  · obtain rfl : count = 0 := by omega
    rw [if_pos nothing]
    exact ⟨streams, rfl, Spends.zero plain⟩
  · obtain ⟨after, same, spends, enough⟩ := fillBuf_plain plain count
    have below := ((View.take cell parent).held_front after).length_le
    rw [spends.content, List.drop_zero] at below
    have cut : ((View.take cell parent).content streams).length ≤
        (streams.bounds.get cell).left.toNat := List.length_take_le _ _
    have all : ((View.take cell parent).held after).length =
        ((View.take cell parent).content streams).length := by omega
    have short : ¬count ≤ ((View.take cell parent).content streams).length := by omega
    rw [if_neg nothing, Int.toNat_natCast, same, exactly, spentBy, if_neg short, if_neg short, ← all]
    exact ⟨after, rfl, spends⟩

/-- **Reading exactly so many bytes.** They are the first ones that the view has to give; if there
are not as many, the fault tells how many there are, and nothing is spent. -/
theorem readExact_plain (plain : view.Plain streams) (count : Nat) :
    ∃ after, (view.readExact count).run streams = (exactly count (view.content streams), after) ∧
      view.Spends (spentBy count (view.content streams)) streams after := by
  have natural : ¬(count : Int) < 0 := by omega
  induction view with
  | source own cell =>
    obtain ⟨rfl, fair⟩ := plain
    obtain ⟨pulled, same, moved⟩ := Source.pullUntil_fair streams.driver count _ fair
    obtain ⟨read, within⟩ := read_pulled moved
    refine ⟨_, ?_, source_spends streams.driver moved within⟩
    rw [readExact, if_neg natural]
    refine run_onSource ?_
    simp only [Int.toNat_natCast, same, read]
    rfl
  | cursor cell =>
    refine ⟨_, ?_, cursor_spends cell _ streams⟩
    rw [readExact, if_neg natural]
    refine run_onCursor ?_
    show Buffer.read _ (Int.toNat count) = (exactly count (streams.cursors.get cell).buffer.content, _)
    rw [content, seen, Int.toNat_natCast, exactly, spentBy]
    by_cases within : count ≤ (streams.cursors.get cell).buffer.content.length
    · rw [if_pos within, if_pos within, Buffer.read_held _ _ within]
    · rw [if_neg within, if_neg within, Buffer.read_short _ _ (by omega)]
      rfl
  | take cell parent hypothesis =>
    by_cases beyond : (streams.bounds.get cell).left < count
    · exact readExact_beyond plain beyond
    · obtain ⟨inside, fresh, plainParent⟩ := plain
      obtain ⟨after, same, spends⟩ := hypothesis plainParent
      have bound : after.bounds.get cell = streams.bounds.get cell := by
        rw [spends.bounds, if_neg fresh]
      have cut : (View.take cell parent).content streams =
          (parent.content streams).take (streams.bounds.get cell).left.toNat := rfl
      obtain ⟨sameBytes, sameCount⟩ :=
        exactly_take (show count ≤ (streams.bounds.get cell).left.toNat by omega)
          (parent.content streams)
      rw [run_readExact_take, if_neg beyond, same, cut, sameBytes, sameCount]
      by_cases within : count ≤ (parent.content streams).length
      · rw [spentBy, if_pos within] at spends
        rw [exactly, spentBy, if_pos within, if_pos within]
        refine ⟨_, rfl, ?_⟩
        rw [bound, Int.toNat_natCast]
        exact spends.take inside
      · rw [spentBy, if_neg within] at spends
        rw [exactly, spentBy, if_neg within, if_neg within]
        exact ⟨after, rfl, spends.take_zero⟩
  | transformed cell parent => exact plain.elim

/-- Draining a plain view gives all that it has to give; every round gives at least one byte. -/
theorem drain_plain (plain : view.Plain streams) (fuel : Nat)
    (enough : (view.content streams).length < fuel) :
    ∃ after, (view.drain fuel).run streams = (.ok (view.content streams), after) ∧
      view.Spends (view.content streams).length streams after := by
  induction fuel generalizing streams with
  | zero => omega
  | succ fuel hypothesis =>
    obtain ⟨peeked, same, spends, least⟩ := fillBuf_plain plain 1
    have kept : view.content peeked = view.content streams := by
      rw [spends.content, List.drop_zero]
    have whole := view.held_front peeked
    rw [kept] at whole
    rw [drain, run_bind, same]
    by_cases empty : (view.held peeked).isEmpty
    · have none : view.content streams = [] := by
        rw [List.isEmpty_iff.mp empty, List.length_nil] at least
        exact List.length_eq_zero_iff.mp (by omega)
      show ∃ after, (ite ((view.held peeked).isEmpty = true) _ _ : StreamStep κ Bytes).run peeked =
        _ ∧ _
      rw [if_pos empty, none]
      exact ⟨peeked, rfl, spends⟩
    · have some : 0 < (view.held peeked).length := by
        rw [List.isEmpty_iff] at empty
        exact List.length_pos_iff.mpr empty
      obtain ⟨dropped, same', spends'⟩ :=
        consume_plain (plain.spends spends) (Nat.le_refl _) (Or.inl some)
      have left : view.content dropped =
          (view.content streams).drop (view.held peeked).length := by
        rw [spends'.content, kept]
      have shorter : (view.content dropped).length < fuel := by
        have below := whole.length_le
        rw [left, List.length_drop]
        omega
      obtain ⟨after, same'', spends''⟩ :=
        hypothesis ((plain.spends spends).spends spends') shorter
      have joined : view.held peeked ++ view.content dropped = view.content streams := by
        rw [left]
        exact List.prefix_iff_eq_append.mp whole
      show ∃ after, (ite ((view.held peeked).isEmpty = true) _ _ : StreamStep κ Bytes).run peeked =
        _ ∧ _
      rw [if_neg empty, run_bind, same']
      show ∃ after, (view.drain fuel >>= _).run dropped = _ ∧ _
      rw [run_bind, same'']
      refine ⟨after, ?_, ?_⟩
      · rw [← joined]
        rfl
      · rw [← joined, List.length_append]
        have sum := (spends.trans spends').trans spends''
        rwa [Nat.zero_add] at sum

/-- **Reading to the end.** All that a view has to give is given and spent. -/
theorem readToEnd_plain (plain : view.Plain streams) :
    ∃ after, view.readToEnd.run streams = (.ok (view.content streams), after) ∧
      view.Spends (view.content streams).length streams after := by
  rw [readToEnd, run_look_bind, weight_plain plain]
  exact drain_plain plain _ (Nat.lt_succ_of_le (Nat.le_add_right _ _))

/-! ### Looking for a terminator -/

/-- What stands next in a view. -/
inductive Approach where
  /-- Nothing. -/
  | ended
  /-- The terminator. -/
  | reached
  /-- Something else. -/
  | ahead
  deriving DecidableEq

/-- What a byte string starts with. -/
def Approach.of (terminator content : Bytes) : Approach :=
  if content.isEmpty then .ended
  else if content.take terminator.length = terminator then .reached
  else .ahead

/-- Peeks for a terminator and drops it if it stands next. -/
def approach (view : View) (terminator : Bytes) : StreamStep κ Approach := do
  let peeked ← view.fillBuf terminator.length
  match Approach.of terminator peeked with
  | .reached => do
    view.consume terminator.length
    return .reached
  | other => return other

/-- As much of a byte string as was wanted tells what it starts with. -/
theorem Approach.of_front {terminator peeked content : Bytes} (front : peeked <+: content)
    (enough : min (max terminator.length 1) content.length ≤ peeked.length) :
    Approach.of terminator peeked = Approach.of terminator content := by
  obtain ⟨others, rfl⟩ := front
  rw [List.length_append] at enough
  by_cases long : terminator.length ≤ peeked.length
  · have same : (peeked ++ others).take terminator.length = peeked.take terminator.length :=
      List.take_append_of_le_length long
    have ended : (peeked ++ others).isEmpty = peeked.isEmpty := by
      rw [Bool.eq_iff_iff, List.isEmpty_iff, List.isEmpty_iff]
      constructor
      · exact fun empty => (List.append_eq_nil_iff.mp empty).1
      · intro empty
        rw [empty, List.length_nil] at enough
        exact List.length_eq_zero_iff.mp (by rw [empty, List.length_append, List.length_nil]; omega)
    unfold Approach.of
    rw [same, ended]
  · have none : others = [] := List.length_eq_zero_iff.mp (by omega)
    rw [none, List.append_nil]

theorem Approach.eq_nil_of_ended {terminator content : Bytes}
    (found : Approach.of terminator content = .ended) : content = [] := by
  unfold Approach.of at found
  split at found
  · exact List.isEmpty_iff.mp ‹_›
  · split at found <;> cases found

theorem Approach.length_le_of_reached {terminator content : Bytes}
    (found : Approach.of terminator content = .reached) : terminator.length ≤ content.length := by
  unfold Approach.of at found
  split at found
  · cases found
  · split at found
    · rename_i starts
      rw [← starts]
      exact List.length_take_le' _ _
    · cases found

/-- **Looking for a terminator.** It is found if what the view has to give starts with it. -/
theorem approach_plain (plain : view.Plain streams) {terminator : Bytes}
    (filled : terminator ≠ []) :
    ∃ after, (view.approach terminator).run streams =
        (.ok (Approach.of terminator (view.content streams)), after) ∧
      view.Spends
        (if Approach.of terminator (view.content streams) = .reached then terminator.length else 0)
        streams after := by
  obtain ⟨peeked, same, spends, enough⟩ := fillBuf_plain plain terminator.length
  have front := view.held_front peeked
  rw [spends.content, List.drop_zero] at front
  rw [approach, run_bind, same]
  show ∃ after, (match Approach.of terminator (view.held peeked) with
    | .reached => do
      view.consume terminator.length
      return .reached
    | other => return other : StreamStep κ Approach).run peeked = _ ∧ _
  rw [Approach.of_front front enough]
  cases found : Approach.of terminator (view.content streams) with
  | ended => exact ⟨peeked, rfl, spends⟩
  | ahead => exact ⟨peeked, rfl, spends⟩
  | reached =>
    have held : terminator.length ≤ (view.held peeked).length :=
      Approach.length_le_of_reached ((Approach.of_front front enough).trans found)
    obtain ⟨after, same', spends'⟩ :=
      consume_plain (plain.spends spends) held (Or.inl (List.length_pos_iff.mpr filled))
    refine ⟨after, ?_, ?_⟩
    · show ((view.consume _ >>= _).run peeked) = _
      rw [run_bind, same']
      rfl
    · have sum := spends.trans spends'
      rwa [Nat.zero_add] at sum

end View

end WireProgram
