/-
**How the bytes of a view come.**

Every view, on whatever layers it stands, has a course: the pieces that peeks will see one after the
other, if nothing else reads its layers meanwhile. Dropping takes bytes from its front. The main
definitions and statements:

* `View.course`, put together from `View.held` and `View.later`;
* `View.residue`, what the codec of a view will leave of the bytes of its parent;
* `View.Ready`, a view whose layers are its own and whose codecs are greedy;
* `View.Untouched` and `View.Within`, the frame of an operation;
* `View.Same`, states that agree on the layers of a view;
* `View.consume_course`, dropping.
-/

import WireProgram.Proofs.Codec.Denotation
import WireProgram.Proofs.Stream.Abreast

namespace WireProgram

/-! ### Courses of views -/

/-- The course of the replies of a raw input. -/
def Course.ofChunks (driver : Execution) : List Chunk → Course
  | [] => .ended
  | .bytes [] :: _ => .ended
  | .bytes (first :: others) :: rest => .piece first others (ofChunks driver rest)
  | .absent :: _ =>
    .failed (if driver = .blocking then .decode .sourceNotReady else .misuse .wrongType)
  | .failure reason :: _ => .failed (.decode (.sourceFailed reason))

theorem Course.length_ofChunks_le (driver : Execution) (chunks : List Chunk) :
    (ofChunks driver chunks).length ≤ chunks.length := by
  induction chunks with
  | nil => exact Nat.le_refl _
  | cons chunk rest hypothesis =>
    unfold ofChunks
    split
    · exact Nat.zero_le _
    · exact Nat.zero_le _
    · rename_i same
      cases same
      exact Nat.succ_le_succ hypothesis
    · exact Nat.zero_le _
    · exact Nat.zero_le _

/-- Replies that all have bytes come as they are. -/
theorem Course.ofChunks_solid (driver : Execution) {chunks : List Chunk}
    (solid : ∀ chunk ∈ chunks, chunk.Solid) :
    (ofChunks driver chunks).bytes = chunks.flatMap Chunk.content ∧
      (ofChunks driver chunks).fault = none := by
  induction chunks with
  | nil => exact ⟨rfl, rfl⟩
  | cons chunk rest hypothesis =>
    have others := hypothesis fun other member => solid other (List.mem_cons_of_mem _ member)
    have here := solid chunk (List.mem_cons_self ..)
    match chunk with
    | .bytes [] => exact absurd rfl here
    | .bytes (first :: more) =>
      exact ⟨congrArg (first :: more ++ ·) others.1, others.2⟩
    | .absent | .failure _ => exact here.elim

/-- What reading to the end of a course gives. -/
def Course.whole (course : Course) : Except Fault Bytes :=
  course.fault.elim (.ok course.bytes) .error

/-- What comes of a source after that which it holds. -/
def Source.later (driver own : Execution) (source : Source) : Course :=
  if source.buffer.ended then .ended
  else if driver ≠ own then .failed (.program (.mixedModes driver own))
  else .ofChunks driver source.input.pending

/-- A fair source gives all bytes that it has, to a driver of its own kind. -/
theorem Source.later_fair {source : Source} (fair : source.Fair) (own : Execution) :
    source.buffer.content ++ (source.later own own).bytes = source.rest ∧
      (source.later own own).fault = none := by
  unfold later
  by_cases ended : source.buffer.ended = true
  · rw [if_pos ended, Source.rest_of_settled (fair.ended ended)]
    exact ⟨List.append_nil _, rfl⟩
  · rw [if_neg ended, if_neg (not_not_intro rfl)]
    obtain ⟨bytes, none⟩ := Course.ofChunks_solid own fair.solid
    exact ⟨congrArg (source.buffer.content ++ ·) bytes, none⟩

section Layers

variable {κ : Type} [ChunkCodec κ]

/-- What comes of a layer after that which it holds, if its parent still gives so much. -/
def Transformed.later (layer : Transformed κ) (supply : Course) : Course :=
  if layer.finished then .ended else layer.codec.elim .ended supply.through

/-- A layer in order: it has a codec that is greedy unless it is finished, and it has not ended before
its codec is finished. -/
def Transformed.Ready (layer : Transformed κ) : Prop :=
  (layer.buffer.ended = true → layer.finished = true) ∧
    ∃ codec, layer.codec = some codec ∧ (layer.finished = false → ChunkCodec.Greedy codec)

/-- The layer of a codec at work. -/
def Coding.layer (coding : Coding κ) (ended : Bool) (position : Nat) : Transformed κ :=
  ⟨⟨coding.held, ended, position⟩, some coding.codec, coding.finished⟩

/-- The codec of a layer at work, if its parent still gives so much. -/
def Transformed.coding (layer : Transformed κ) (codec : κ) (supply : Course) : Coding κ :=
  ⟨layer.buffer.content, codec, layer.finished, supply⟩

/-- What the codec of a layer leaves of the bytes of its parent. -/
def Transformed.residue (layer : Transformed κ) (supply : Course) : Course :=
  layer.codec.elim .ended fun codec => (layer.coding codec supply).residue

end Layers

namespace View

variable {κ : Type} [ChunkCodec κ] {streams before after middle : Streams κ} {view parent : View}
  {bytes : Bytes} {cell count want : Nat}

/-- The cells of the codecs of a view. -/
def stages : View → List Nat
  | .source _ _ | .cursor _ => []
  | .take _ parent => parent.stages
  | .transformed cell parent => cell :: parent.stages

/-- What comes of a view after that which it holds. -/
def later (streams : Streams κ) : View → Course
  | .source own cell => (streams.sources.get cell).later streams.driver own
  | .cursor _ => .ended
  | .take cell parent =>
    (later streams parent).cut
      ((streams.bounds.get cell).left.toNat - (parent.held streams).length)
  | .transformed cell parent =>
    (streams.transforms.get cell).later (.push (parent.held streams) (later streams parent))

/-- The pieces in which the bytes of a view come. -/
def course (streams : Streams κ) (view : View) : Course :=
  .push (view.held streams) (view.later streams)

/-- A view whose layers stand in different cells and are in order. -/
def Ready (streams : Streams κ) : View → Prop
  | .source _ _ => True
  | .cursor cell => (streams.cursors.get cell).buffer.ended = true
  | .take cell parent => cell ∉ parent.cells ∧ Ready streams parent
  | .transformed cell parent =>
    cell ∉ parent.stages ∧ Ready streams parent ∧ (streams.transforms.get cell).Ready

/-- What the codec of a view leaves of the bytes of its parent once it is finished. -/
def residue (streams : Streams κ) : View → Course
  | .source _ _ | .cursor _ | .take _ _ => .ended
  | .transformed cell parent => (streams.transforms.get cell).residue (parent.course streams)

theorem course_take (streams : Streams κ) (cell : Nat) (parent : View) :
    (View.take cell parent).course streams =
      (parent.course streams).cut (streams.bounds.get cell).left.toNat :=
  (Course.cut_push _ _ _).symm

/-- A view gives its bytes in no more pieces than its turns. -/
theorem length_course_le (streams : Streams κ) (view : View) :
    (view.course streams).length ≤ view.turns streams := by
  induction view with
  | source own cell =>
    refine Nat.le_trans (Course.length_push_le _ _) (Nat.succ_le_succ ?_)
    unfold later Source.later
    split
    · exact Nat.zero_le _
    · split
      · exact Nat.zero_le _
      · exact Course.length_ofChunks_le _ _
  | cursor cell => exact Course.length_push_le _ _
  | take cell parent hypothesis =>
    rw [course_take]
    exact Nat.le_trans (Course.length_cut_le _ _) hypothesis
  | transformed cell parent hypothesis =>
    refine Nat.le_trans (Course.length_push_le _ _) (Nat.succ_le_succ ?_)
    unfold later Transformed.later
    split
    · exact Nat.zero_le _
    · cases (streams.transforms.get cell).codec with
      | none => exact Nat.zero_le _
      | some codec =>
        exact Nat.le_trans (Course.length_through_le _ _) (Nat.succ_le_succ hypothesis)

/-- What comes after that which a view holds, if it holds the first piece. -/
theorem later_of_course {first : UInt8} {others : Bytes} {rest : Course}
    (course : view.course streams = .piece first others rest)
    (held : view.held streams = first :: others) : view.later streams = rest := by
  unfold View.course at course
  rw [held] at course
  exact (Course.piece.inj course).2.2

/-! ### Frames -/

/-- A change of the streams that leaves the layers of a view alone. -/
structure Untouched (view : View) (before after : Streams κ) : Prop where
  driver : after.driver = before.driver
  sources : after.sources = before.sources
  cursors : after.cursors = before.cursors
  bounds : ∀ cell ∈ view.cells, after.bounds.get cell = before.bounds.get cell
  transforms : ∀ cell ∈ view.stages, after.transforms.get cell = before.transforms.get cell

/-- A change of the streams that leaves alone all layers but those of a view. -/
structure Within (view : View) (before after : Streams κ) : Prop where
  driver : after.driver = before.driver
  bounds : ∀ cell, cell ∉ view.cells → after.bounds.get cell = before.bounds.get cell
  transforms : ∀ cell, cell ∉ view.stages → after.transforms.get cell = before.transforms.get cell

omit [ChunkCodec κ] in
theorem Within.refl (view : View) (streams : Streams κ) : view.Within streams streams :=
  ⟨rfl, fun _ _ => rfl, fun _ _ => rfl⟩

omit [ChunkCodec κ] in
theorem Within.trans (one : view.Within before middle) (two : view.Within middle after) :
    view.Within before after where
  driver := two.driver.trans one.driver
  bounds cell outside := (two.bounds cell outside).trans (one.bounds cell outside)
  transforms cell outside := (two.transforms cell outside).trans (one.transforms cell outside)

omit [ChunkCodec κ] in
theorem Within.take (within : view.Within before after) (cell : Nat) :
    (View.take cell view).Within before after where
  driver := within.driver
  bounds other outside := within.bounds other fun inside => outside (List.mem_cons_of_mem _ inside)
  transforms := within.transforms

omit [ChunkCodec κ] in
theorem Within.transformed (within : view.Within before after) (cell : Nat) :
    (View.transformed cell view).Within before after where
  driver := within.driver
  bounds := within.bounds
  transforms other outside :=
    within.transforms other fun inside => outside (List.mem_cons_of_mem _ inside)

omit [ChunkCodec κ] in
theorem within_setBound (cell : Nat) (parent : View) (streams : Streams κ) (bound : Bound) :
    (View.take cell parent).Within streams
      { streams with bounds := streams.bounds.set cell bound } where
  driver := rfl
  bounds other outside := by
    rw [Table.get_set, if_neg]
    rintro rfl
    exact outside (List.mem_cons_self ..)
  transforms _ _ := rfl

omit [ChunkCodec κ] in
theorem within_setLayer (cell : Nat) (parent : View) (streams : Streams κ)
    (layer : Transformed κ) :
    (View.transformed cell parent).Within streams
      { streams with transforms := streams.transforms.set cell layer } where
  driver := rfl
  bounds _ _ := rfl
  transforms other outside := by
    rw [Table.get_set, if_neg]
    rintro rfl
    exact outside (List.mem_cons_self ..)

omit [ChunkCodec κ] in
theorem untouched_setBound (fresh : cell ∉ view.cells) (streams : Streams κ) (bound : Bound) :
    view.Untouched streams { streams with bounds := streams.bounds.set cell bound } where
  driver := rfl
  sources := rfl
  cursors := rfl
  bounds other inside := by
    rw [Table.get_set, if_neg]
    rintro rfl
    exact fresh inside
  transforms _ _ := rfl

omit [ChunkCodec κ] in
theorem untouched_setLayer (fresh : cell ∉ view.stages) (streams : Streams κ)
    (layer : Transformed κ) :
    view.Untouched streams { streams with transforms := streams.transforms.set cell layer } where
  driver := rfl
  sources := rfl
  cursors := rfl
  bounds _ _ := rfl
  transforms other inside := by
    rw [Table.get_set, if_neg]
    rintro rfl
    exact fresh inside

omit [ChunkCodec κ] in
theorem Untouched.take (untouched : (View.take cell view).Untouched before after) :
    view.Untouched before after :=
  { untouched with bounds := fun other inside =>
      untouched.bounds other (List.mem_cons_of_mem _ inside) }

omit [ChunkCodec κ] in
theorem Untouched.transformed (untouched : (View.transformed cell view).Untouched before after) :
    view.Untouched before after :=
  { untouched with transforms := fun other inside =>
      untouched.transforms other (List.mem_cons_of_mem _ inside) }

/-! ### Agreeing states -/

/-- Two states of the streams that agree on all layers of a view. -/
structure Same (view : View) (before after : Streams κ) : Prop where
  driver : after.driver = before.driver
  layers : ∀ layer ∈ view.touches, layer.Same before after

namespace Same

omit [ChunkCodec κ] in
theorem take (same : (View.take cell view).Same before after) : view.Same before after :=
  ⟨same.driver, fun layer member => same.layers layer (List.mem_cons_of_mem _ member)⟩

omit [ChunkCodec κ] in
theorem transformed (same : (View.transformed cell view).Same before after) :
    view.Same before after :=
  ⟨same.driver, fun layer member => same.layers layer (List.mem_cons_of_mem _ member)⟩

omit [ChunkCodec κ] in
theorem held (same : view.Same before after) : view.held after = view.held before := by
  induction view with
  | source own cell =>
    exact congrArg (·.buffer.content) (same.layers (.source cell) (List.mem_cons_self ..))
  | cursor cell =>
    exact congrArg (·.buffer.content) (same.layers (.cursor cell) (List.mem_cons_self ..))
  | take cell parent hypothesis =>
    have bound : after.bounds.get cell = before.bounds.get cell :=
      same.layers (.bound cell) (List.mem_cons_self ..)
    show (parent.held after).take _ = (parent.held before).take _
    rw [hypothesis same.take, bound]
  | transformed cell parent =>
    exact congrArg (·.buffer.content) (same.layers (.codec cell) (List.mem_cons_self ..))

theorem later (same : view.Same before after) : view.later after = view.later before := by
  induction view with
  | source own cell =>
    have source : after.sources.get cell = before.sources.get cell :=
      same.layers (.source cell) (List.mem_cons_self ..)
    unfold View.later
    rw [source, same.driver]
  | cursor cell => rfl
  | take cell parent hypothesis =>
    have bound : after.bounds.get cell = before.bounds.get cell :=
      same.layers (.bound cell) (List.mem_cons_self ..)
    unfold View.later
    rw [hypothesis same.take, same.take.held, bound]
  | transformed cell parent hypothesis =>
    have layer : after.transforms.get cell = before.transforms.get cell :=
      same.layers (.codec cell) (List.mem_cons_self ..)
    unfold View.later
    rw [hypothesis same.transformed, same.transformed.held, layer]

/-- A view gives the same in states that agree on it. -/
theorem course (same : view.Same before after) : view.course after = view.course before := by
  unfold View.course
  rw [same.held, same.later]

theorem ready (same : view.Same before after) (ready : view.Ready before) : view.Ready after := by
  induction view with
  | source own cell => trivial
  | cursor cell =>
    have cursor : after.cursors.get cell = before.cursors.get cell :=
      same.layers (.cursor cell) (List.mem_cons_self ..)
    show (after.cursors.get cell).buffer.ended = true
    rw [cursor]
    exact ready
  | take cell parent hypothesis => exact ⟨ready.1, hypothesis same.take ready.2⟩
  | transformed cell parent hypothesis =>
    have layer : after.transforms.get cell = before.transforms.get cell :=
      same.layers (.codec cell) (List.mem_cons_self ..)
    refine ⟨ready.1, hypothesis same.transformed ready.2.1, ?_⟩
    rw [layer]
    exact ready.2.2

end Same

namespace Untouched

omit [ChunkCodec κ] in
theorem same (untouched : view.Untouched before after) : view.Same before after := by
  refine ⟨untouched.driver, fun layer member => ?_⟩
  induction view with
  | source own cell =>
    obtain rfl := List.mem_singleton.mp member
    exact congrArg (·.get cell) untouched.sources
  | cursor cell =>
    obtain rfl := List.mem_singleton.mp member
    exact congrArg (·.get cell) untouched.cursors
  | take cell parent hypothesis =>
    rcases List.mem_cons.mp member with rfl | member
    · exact untouched.bounds cell (List.mem_cons_self ..)
    · exact hypothesis untouched.take member
  | transformed cell parent hypothesis =>
    rcases List.mem_cons.mp member with rfl | member
    · exact untouched.transforms cell (List.mem_cons_self ..)
    · exact hypothesis untouched.transformed member

omit [ChunkCodec κ] in
theorem held (untouched : view.Untouched before after) : view.held after = view.held before :=
  untouched.same.held

theorem later (untouched : view.Untouched before after) : view.later after = view.later before :=
  untouched.same.later

theorem course (untouched : view.Untouched before after) : view.course after = view.course before :=
  untouched.same.course

theorem ready (untouched : view.Untouched before after) (ready : view.Ready before) :
    view.Ready after :=
  untouched.same.ready ready

end Untouched

/-! ### Dropping -/

/-- What dropping does to a view: it holds less, and the same comes after. -/
structure Dropped (view : View) (count : Nat) (before after : Streams κ) : Prop where
  ready : view.Ready after
  held : view.held after = (view.held before).drop count
  later : view.later after = view.later before
  residue : view.residue after = view.residue before
  within : view.Within before after

theorem Dropped.course (dropped : view.Dropped count before after) :
    view.course after = .push ((view.held before).drop count) (view.later before) := by
  unfold View.course
  rw [dropped.held, dropped.later]

/-- Taking bytes that a transformed view holds changes its buffer alone. -/
theorem dropped_layer (ready : (View.transformed cell parent).Ready streams) (count : Nat) :
    (View.transformed cell parent).Dropped count streams
      { streams with
        transforms := streams.transforms.set cell
          { streams.transforms.get cell with
            buffer := (streams.transforms.get cell).buffer.drop count } } := by
  obtain ⟨fresh, readyParent, layer⟩ := ready
  have still := untouched_setLayer fresh streams
    { streams.transforms.get cell with
      buffer := (streams.transforms.get cell).buffer.drop count }
  refine ⟨⟨fresh, still.ready readyParent, ?_⟩, ?_, ?_, ?_,
    within_setLayer cell parent streams _⟩
  · show (Table.get (Table.set streams.transforms cell _) cell).Ready
    rw [Table.get_set_self]
    exact layer
  · show (Table.get (Table.set streams.transforms cell _) cell).buffer.content = _
    rw [Table.get_set_self]
    rfl
  · unfold later
    rw [still.held, still.later]
    show Transformed.later (Table.get (Table.set streams.transforms cell _) cell) _ = _
    rw [Table.get_set_self]
    rfl
  · show Transformed.residue (Table.get (Table.set streams.transforms cell _) cell)
      (parent.course _) = _
    rw [still.course, Table.get_set_self]
    rfl

/-- What a transformed view holds can be dropped. -/
theorem consume_transformed (ready : (View.transformed cell parent).Ready streams)
    (enough : count ≤ ((View.transformed cell parent).held streams).length) :
    ∃ after, ((View.transformed cell parent).consume count).run streams = (.ok (), after) ∧
      (View.transformed cell parent).Dropped count streams after := by
  refine ⟨_, run_onTransformed ?_, dropped_layer ready count⟩
  simp only [Buffer.consume_held _ _ enough]

/-- **Dropping.** Bytes that are held can be dropped. -/
theorem consume_course (count : Nat) (ready : view.Ready streams)
    (nonempty : view.held streams ≠ []) (enough : count ≤ (view.held streams).length) :
    ∃ after, (view.consume count).run streams = (.ok (), after) ∧
      view.Dropped count streams after := by
  induction view generalizing streams with
  | source own cell =>
    have ran : ((View.source own cell).consume count).run streams =
        (.ok (), { streams with
          sources := streams.sources.set cell
            { streams.sources.get cell with
              buffer := (streams.sources.get cell).buffer.drop count } }) := by
      refine run_onSource ?_
      simp only [Buffer.consume_held _ _ enough]
    refine ⟨_, ran, trivial, ?_, ?_, rfl, ⟨rfl, fun _ _ => rfl, fun _ _ => rfl⟩⟩
    · show (Table.get (Table.set streams.sources cell _) cell).buffer.content = _
      rw [Table.get_set_self]
      rfl
    · show Source.later _ _ (Table.get (Table.set streams.sources cell _) cell) = _
      rw [Table.get_set_self]
      rfl
  | cursor cell =>
    refine ⟨_, run_onCursor (Buffer.consume_held _ _ enough), ?_⟩
    refine ⟨?_, ?_, rfl, rfl, ⟨rfl, fun _ _ => rfl, fun _ _ => rfl⟩⟩
    · show (Table.get (Table.set streams.cursors cell _) cell).buffer.ended = true
      rw [Table.get_set_self]
      exact ready
    · show (Table.get (Table.set streams.cursors cell _) cell).buffer.content = _
      rw [Table.get_set_self]
      rfl
  | take cell parent hypothesis =>
    obtain ⟨fresh, readyParent⟩ := ready
    have heldAs : (View.take cell parent).held streams =
        (parent.held streams).take (streams.bounds.get cell).left.toNat := rfl
    rw [heldAs] at nonempty enough
    rw [List.length_take] at enough
    have filled : parent.held streams ≠ [] := by
      intro empty
      rw [empty, List.take_nil] at nonempty
      exact nonempty rfl
    have room : ¬((count : Int) < 0 ∨ (streams.bounds.get cell).left < count) := by
      by_cases overdrawn : (streams.bounds.get cell).left < 0
      · have none : (streams.bounds.get cell).left.toNat = 0 := by omega
        rw [none] at nonempty
        exact absurd rfl nonempty
      · omega
    have same := untouched_setBound fresh streams (streams.bounds.get cell)
    obtain ⟨after, ran, dropped⟩ := hypothesis (same.ready readyParent)
      (by rw [same.held]; exact filled) (by rw [same.held]; omega)
    have bound : after.bounds.get cell = streams.bounds.get cell := by
      rw [dropped.within.bounds cell fresh, Table.get_set_self]
    rw [run_consume_take, if_neg room, ran]
    refine ⟨_, rfl, ?_⟩
    have still := untouched_setBound fresh after
      ⟨(after.bounds.get cell).left - count, (after.bounds.get cell).position + (count : Int).toNat⟩
    rw [bound] at still ⊢
    refine ⟨⟨fresh, still.ready dropped.ready⟩, ?_, ?_, rfl, ?_⟩
    · show (parent.held _).take (Table.get (Table.set after.bounds cell _) cell).left.toNat = _
      rw [Table.get_set_self, still.held, dropped.held, same.held, heldAs, List.drop_take]
      congr 1
      dsimp only
      omega
    · show (parent.later _).cut
        ((Table.get (Table.set after.bounds cell _) cell).left.toNat - (parent.held _).length) = _
      rw [Table.get_set_self, still.held, still.later, dropped.held, dropped.later, same.held,
        same.later, List.length_drop]
      show _ = (parent.later streams).cut
        ((streams.bounds.get cell).left.toNat - (parent.held streams).length)
      congr 1
      dsimp only
      omega
    · exact ((within_setBound cell parent streams _).trans (dropped.within.take cell)).trans
        (within_setBound cell parent after _)
  | transformed cell parent => exact consume_transformed ready enough

end View

end WireProgram
