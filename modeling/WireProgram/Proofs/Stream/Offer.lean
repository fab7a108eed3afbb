/-
**Reading a view by the bytes that it offers.**

Whatever the layers of a view and however its bytes come, an operation through it is described by the
bytes of its course and the fault that may come after them. A fault shows only if there are fewer bytes
before it than an operation asks for. The main definitions and statements:

* `View.Gave`, what an operation does that gives so many bytes of a view;
* `View.fillBuf_gave`, `View.consume_gave` and `View.readExact_gave`, one for each operation;
* `View.Offers`, a view of certain bytes with no fault, with `Offers.readExact`, `Offers.approach` and
  `Offers.readToEnd`;
* `View.Offers.kept`, a change of other layers;
* `View.length_course_le_weight`, the bytes of a view and its weight.
-/

import WireProgram.Proofs.Stream.Decoded
import WireProgram.Proofs.Stream.Budget

namespace WireProgram

/-! ### Courses that are cut -/

namespace Course

theorem bytes_cut (left : Nat) (course : Course) :
    (course.cut left).bytes = course.bytes.take left := by
  induction course generalizing left with
  | ended => exact List.take_nil.symm
  | failed fault =>
    unfold cut
    split <;> exact List.take_nil.symm
  | piece first others later hypothesis =>
    rw [cut, bytes_push, hypothesis, bytes, List.take_append]

/-- A fault does not come if all is cut off from there on. -/
theorem fault_cut (left : Nat) (course : Course) :
    (course.cut left).fault = if left ≤ course.bytes.length then none else course.fault := by
  induction course generalizing left with
  | ended => exact (ite_self _).symm
  | failed fault =>
    show (if left = 0 then Course.ended else .failed fault).fault = if left ≤ 0 then _ else _
    by_cases none : left = 0
    · rw [if_pos none, if_pos (Nat.le_of_eq none)]
      rfl
    · rw [if_neg none, if_neg fun least => none (Nat.le_zero.mp least)]
  | piece first others later hypothesis =>
    rw [cut, fault_push, hypothesis, bytes, List.length_append]
    exact if_congr Nat.sub_le_iff_le_add' rfl rfl

end Course

/-! ### Sources -/

namespace Source

variable {driver own : Execution} {want pulled : Nat} {pending : List Chunk} {buffer : Buffer}

/-- The pieces in which the bytes of a source come. -/
def course (driver own : Execution) (source : Source) : Course :=
  .push source.buffer.content (source.later driver own)

/-- What pulling makes of a source: the same bytes come and the same fault, and so many bytes are held
unless no more come. It fails only if the fault comes before. -/
def Pulls (driver own : Execution) (want : Nat) (before : Source) :
    Except Fault Unit → Source → Prop
  | .error fault, _ => (before.course driver own).fault = some fault ∧
      (before.course driver own).bytes.length < want
  | .ok _, after => (after.course driver own).bytes = (before.course driver own).bytes ∧
      (after.course driver own).fault = (before.course driver own).fault ∧
      after.buffer.position = before.buffer.position ∧
      (want ≤ after.buffer.content.length ∨ after.later driver own = .ended)

theorem later_ended (ended : buffer.ended = true) :
    Source.later driver own ⟨buffer, ⟨pending, pulled⟩⟩ = .ended :=
  if_pos ended

theorem later_unended (unended : buffer.ended = false) (same : driver = own) :
    Source.later driver own ⟨buffer, ⟨pending, pulled⟩⟩ = .ofChunks driver pending := by
  unfold later
  rw [if_neg (Bool.not_eq_true _ ▸ unended), if_neg (not_not_intro same)]

/-- Nothing is pulled if enough is held. -/
theorem pulls_enough (enough : (buffer.ended || buffer.holds want) = true) :
    Pulls driver own want ⟨buffer, ⟨pending, pulled⟩⟩ (.ok ()) ⟨buffer, ⟨pending, pulled⟩⟩ := by
  refine ⟨rfl, rfl, rfl, ?_⟩
  rcases Bool.or_eq_true_iff.mp enough with ended | holds
  · exact .inr (later_ended ended)
  · exact .inl ((buffer.holds_iff want).mp holds)

/-- The end of the input. -/
theorem pulls_end {left : List Chunk} (nothing :
      Source.later driver own ⟨buffer, ⟨pending, pulled⟩⟩ = .ended) :
    Pulls driver own want ⟨buffer, ⟨pending, pulled⟩⟩ (.ok ())
      ⟨{ buffer with ended := true }, ⟨left, pulled⟩⟩ := by
  have ends : Source.later driver own ⟨{ buffer with ended := true }, ⟨left, pulled⟩⟩ = .ended :=
    later_ended rfl
  have same : Source.course driver own ⟨{ buffer with ended := true }, ⟨left, pulled⟩⟩ =
      Source.course driver own ⟨buffer, ⟨pending, pulled⟩⟩ := by
    unfold course
    rw [nothing, ends]
  exact ⟨congrArg Course.bytes same, congrArg Course.fault same, rfl, .inr ends⟩

/-- A fault comes after what is held. -/
theorem pulls_fault {fault : Fault} {after : Source} (short : buffer.content.length < want)
    (fails : Source.later driver own ⟨buffer, ⟨pending, pulled⟩⟩ = .failed fault) :
    Pulls driver own want ⟨buffer, ⟨pending, pulled⟩⟩ (.error fault) after := by
  unfold Pulls course
  rw [fails, Course.fault_push, Course.bytes_push, Course.bytes, List.append_nil]
  exact ⟨rfl, short⟩

/-- A piece moves from the input to the buffer. -/
theorem Pulls.of_append {first : UInt8} {others : Bytes} {after : Source}
    {result : Except Fault Unit} (unended : buffer.ended = false) (same : driver = own)
    (pulls : Pulls driver own want ⟨buffer.append (first :: others),
      ⟨pending, pulled + (first :: others).length⟩⟩ result after) :
    Pulls driver own want ⟨buffer, ⟨.bytes (first :: others) :: pending, pulled⟩⟩ result after := by
  have later : Source.later driver own ⟨buffer, ⟨.bytes (first :: others) :: pending, pulled⟩⟩ =
      .piece first others (.ofChunks driver pending) := later_unended unended same
  have later' : Source.later driver own ⟨buffer.append (first :: others),
      ⟨pending, pulled + (first :: others).length⟩⟩ = .ofChunks driver pending :=
    later_unended unended same
  have bytes : (Source.course driver own ⟨buffer.append (first :: others),
      ⟨pending, pulled + (first :: others).length⟩⟩).bytes =
        (Source.course driver own ⟨buffer, ⟨.bytes (first :: others) :: pending, pulled⟩⟩).bytes := by
    unfold course
    rw [later, later', Course.bytes_push, Course.bytes_push, Course.bytes, ← List.append_assoc]
    rfl
  have fault : (Source.course driver own ⟨buffer.append (first :: others),
      ⟨pending, pulled + (first :: others).length⟩⟩).fault =
        (Source.course driver own ⟨buffer, ⟨.bytes (first :: others) :: pending, pulled⟩⟩).fault := by
    unfold course
    rw [later, later', Course.fault_push, Course.fault_push, Course.fault]
  unfold Pulls at pulls ⊢
  rwa [bytes, fault] at pulls

/-- **Pulling,** until so many bytes are held. -/
theorem pullFrom_pulls (driver own : Execution) (want : Nat) (pending : List Chunk)
    (buffer : Buffer) (pulled : Nat) :
    ∃ result after, pullFrom driver own want pending buffer pulled = (result, after) ∧
      Pulls driver own want ⟨buffer, ⟨pending, pulled⟩⟩ result after := by
  by_cases enough : (buffer.ended || buffer.holds want) = true
  · refine ⟨_, _, ?_, pulls_enough enough⟩
    unfold pullFrom
    exact if_pos enough
  · obtain ⟨unended, short⟩ := not_or.mp (enough ∘ Bool.or_eq_true_iff.mpr)
    rw [Bool.not_eq_true] at unended
    rw [Buffer.holds_iff, Nat.not_le] at short
    unfold pullFrom
    rw [if_neg enough]
    by_cases same : driver = own
    · have later : Source.later driver own ⟨buffer, ⟨pending, pulled⟩⟩ = .ofChunks driver pending :=
        later_unended unended same
      rw [if_neg (not_not_intro same)]
      cases pending with
      | nil => exact ⟨_, _, rfl, pulls_end later⟩
      | cons chunk rest =>
        cases chunk with
        | absent => exact ⟨_, _, rfl, pulls_fault short later⟩
        | failure reason => exact ⟨_, _, rfl, pulls_fault short later⟩
        | bytes content =>
          cases content with
          | nil => exact ⟨_, _, rfl, pulls_end later⟩
          | cons first others =>
            obtain ⟨result, after, ran, pulls⟩ := pullFrom_pulls driver own want rest
              (buffer.append (first :: others)) (pulled + (first :: others).length)
            exact ⟨result, after, ran, pulls.of_append unended same⟩
    · refine ⟨_, _, if_pos same, pulls_fault short ?_⟩
      unfold Source.later
      rw [if_neg (Bool.not_eq_true _ ▸ unended), if_pos same]

/-- A source of which held bytes were taken. -/
theorem course_drop {count : Nat} (source : Source) (within : count ≤ source.buffer.content.length) :
    (Source.course driver own { source with buffer := source.buffer.drop count }).bytes =
        (source.course driver own).bytes.drop count ∧
      (Source.course driver own { source with buffer := source.buffer.drop count }).fault =
        (source.course driver own).fault := by
  have later : Source.later driver own { source with buffer := source.buffer.drop count } =
      source.later driver own := rfl
  unfold course
  rw [later, Course.bytes_push, Course.bytes_push, Course.fault_push, Course.fault_push,
    List.drop_append_of_le_length within]
  exact ⟨rfl, rfl⟩

end Source

namespace View

variable {κ : Type} [ChunkCodec κ] {streams before middle after : Streams κ} {view parent : View}
  {content : Bytes} {cell count want : Nat}

/-! ### Giving bytes -/

/-- What an operation does that gives so many bytes of a view: the others still come, the position is
so much further, and no other layers are touched. -/
structure Gave (view : View) (count : Nat) (before after : Streams κ) : Prop extends
    view.Took count before after where
  position : view.position after = view.position before + count
  within : view.Within before after

theorem Gave.refl (ready : view.Ready streams) : view.Gave 0 streams streams :=
  ⟨⟨ready, rfl, rfl, rfl⟩, rfl, .refl _ _⟩

theorem Gave.trans {first second : Nat} (one : view.Gave first before middle)
    (two : view.Gave second middle after) : view.Gave (first + second) before after :=
  ⟨one.toTook.trans two.toTook, by rw [two.position, one.position, Nat.add_assoc],
    one.within.trans two.within⟩

/-- What a view holds is the front of what comes. -/
theorem held_front_course (streams : Streams κ) (view : View) :
    view.held streams <+: (view.course streams).bytes := by
  unfold course
  rw [Course.bytes_push]
  exact List.prefix_append _ _

/-- A source in another state, from which the same bytes come after some that were given. -/
theorem gave_source (own : Execution) {source : Source}
    (bytes : (source.course streams.driver own).bytes =
      ((streams.sources.get cell).course streams.driver own).bytes.drop count)
    (fault : (source.course streams.driver own).fault =
      ((streams.sources.get cell).course streams.driver own).fault)
    (position : source.buffer.position = (streams.sources.get cell).buffer.position + count) :
    (View.source own cell).Gave count streams
      { streams with sources := streams.sources.set cell source } := by
  have got : Table.get (Table.set streams.sources cell source) cell = source :=
    Table.get_set_self _ _ _
  refine ⟨⟨trivial, ?_, ?_, rfl⟩, ?_, ⟨rfl, fun _ _ => rfl, fun _ _ => rfl⟩⟩
  · show (Source.course _ own (Table.get (Table.set streams.sources cell source) cell)).bytes = _
    rw [got]
    exact bytes
  · show (Source.course _ own (Table.get (Table.set streams.sources cell source) cell)).fault = _
    rw [got]
    exact fault
  · show (Table.get (Table.set streams.sources cell source) cell).buffer.position = _
    rw [got]
    exact position

theorem gave_cursor (ready : (View.cursor cell).Ready streams) (count : Nat) :
    (View.cursor cell).Gave count streams
      { streams with
        cursors := streams.cursors.set cell
          { streams.cursors.get cell with
            buffer := (streams.cursors.get cell).buffer.drop count } } := by
  refine ⟨⟨?_, ?_, ?_, rfl⟩, ?_, ⟨rfl, fun _ _ => rfl, fun _ _ => rfl⟩⟩
  · show (Table.get (Table.set streams.cursors cell _) cell).buffer.ended = true
    rw [Table.get_set_self]
    exact ready
  · show (Course.push (Table.get (Table.set streams.cursors cell _) cell).buffer.content
      .ended).bytes = (Course.push (streams.cursors.get cell).buffer.content .ended).bytes.drop count
    rw [Table.get_set_self, Course.bytes_push, Course.bytes_push, Course.bytes, List.append_nil,
      List.append_nil]
    rfl
  · exact (Course.fault_push _ _).trans (Course.fault_push _ _).symm
  · show (Table.get (Table.set streams.cursors cell _) cell).buffer.position = _
    rw [Table.get_set_self]
    rfl

theorem gave_layer (ready : (View.transformed cell parent).Ready streams)
    (within : count ≤ ((View.transformed cell parent).held streams).length) :
    (View.transformed cell parent).Gave count streams
      { streams with
        transforms := streams.transforms.set cell
          { streams.transforms.get cell with
            buffer := (streams.transforms.get cell).buffer.drop count } } := by
  have dropped := dropped_layer ready count
  refine ⟨dropped.took within, ?_, dropped.within⟩
  show (Table.get (Table.set streams.transforms cell _) cell).buffer.position = _
  rw [Table.get_set_self]
  rfl

/-- A bound is not touched by an operation on its parent that gives nothing. -/
theorem Gave.take_zero (gave : parent.Gave 0 before after) (fresh : cell ∉ parent.cells) :
    (View.take cell parent).Gave 0 before after := by
  have bound := gave.within.bounds cell fresh
  refine ⟨⟨⟨fresh, gave.ready⟩, ?_, ?_, rfl⟩, ?_, gave.within.take cell⟩
  · rw [course_take, course_take, Course.bytes_cut, Course.bytes_cut, bound, gave.bytes]
    rfl
  · rw [course_take, course_take, Course.fault_cut, Course.fault_cut, bound, gave.bytes, gave.fault]
    rfl
  · exact congrArg Bound.position bound

/-- A bound counts what its parent gives. -/
theorem Gave.take (gave : parent.Gave count before after) (fresh : cell ∉ parent.cells)
    (allowed : count ≤ (before.bounds.get cell).left)
    (enough : count ≤ (parent.course before).bytes.length) :
    (View.take cell parent).Gave count before
      { after with
        bounds := after.bounds.set cell
          ⟨(before.bounds.get cell).left - count, (before.bounds.get cell).position + count⟩ } := by
  have still := untouched_setBound fresh after
    ⟨(before.bounds.get cell).left - count, (before.bounds.get cell).position + count⟩
  have left : ((before.bounds.get cell).left - count).toNat =
      (before.bounds.get cell).left.toNat - count := by omega
  refine ⟨⟨⟨fresh, still.ready gave.ready⟩, ?_, ?_, rfl⟩, ?_,
    (gave.within.take cell).trans (within_setBound cell parent after _)⟩
  · rw [course_take, course_take, still.course, Course.bytes_cut, Course.bytes_cut, gave.bytes,
      Table.get_set_self, left, List.drop_take]
  · rw [course_take, course_take, still.course, Course.fault_cut, Course.fault_cut, gave.bytes,
      gave.fault, Table.get_set_self, left, List.length_drop]
    exact if_congr (by omega) rfl rfl
  · show (Table.get (Table.set after.bounds cell _) cell).position = _
    rw [Table.get_set_self]
    rfl

/-! ### Peeking -/

/-- What filling makes of a view: it gives what the view holds then, so many bytes unless no more come.
It fails only if the fault comes before. -/
def Fills (view : View) (want : Nat) (before : Streams κ) : Except Fault Bytes → Streams κ → Prop
  | .error fault, _ => (view.course before).fault = some fault ∧
      (view.course before).bytes.length < want
  | .ok bytes, after => bytes = view.held after ∧ view.Gave 0 before after ∧
      (want ≤ bytes.length ∨
        bytes = (view.course before).bytes ∧ (view.course before).fault = none)

theorem prepare_fills (ready : (View.transformed cell parent).Ready streams) (want : Nat) :
    ∃ result after, (prepare cell parent (parent.fillBuf 1) parent.consume want).run streams =
        (result, after) ∧
      (View.transformed cell parent).Fills want streams
        (result.map fun _ => (View.transformed cell parent).held after) after := by
  obtain ⟨codec, has, -⟩ := ready.2.2.2
  obtain ⟨after, ran, fills⟩ := prepare_run parent.peeks ready has want
  have keeps := ((streams.transforms.get cell).coding codec
    (parent.course streams)).prepare_keeps want
  refine ⟨_, after, ran, ?_⟩
  have before : (View.transformed cell parent).course streams =
      ((streams.transforms.get cell).coding codec (parent.course streams)).course :=
    course_transformed has
  cases prepared : (((streams.transforms.get cell).coding codec
      (parent.course streams)).prepare want).1 with
  | error fault =>
    rw [prepared, ← before] at keeps
    exact keeps
  | ok done =>
    rw [prepared, ← before] at keeps
    obtain ⟨⟨bytes, fault⟩, enough⟩ := keeps
    have filled := fills prepared
    obtain ⟨course, held⟩ := filled.course
    obtain ⟨ended, layer, -⟩ := filled.layer
    refine ⟨rfl, ⟨⟨filled.ready, ?_, ?_, ?_⟩, ?_, filled.within⟩, ?_⟩
    · rw [course, bytes]
      rfl
    · rw [course, fault]
    · rw [filled.residue, residue_transformed has, Coding.prepare_residue _ _ prepared]
    · show (after.transforms.get cell).buffer.position = _
      rw [layer]
      rfl
    · rw [held]
      refine enough.imp_right fun finished => ?_
      have last : (((streams.transforms.get cell).coding codec
          (parent.course streams)).prepare want).2.later = .ended := if_pos finished
      rw [← bytes, ← fault, Coding.course, last, Course.bytes_push, Course.fault_push]
      exact ⟨(List.append_nil _).symm, rfl⟩

/-- A bound cuts what its parent holds. -/
theorem Fills.take {result : Except Fault Bytes} (fresh : cell ∉ parent.cells)
    (fills : parent.Fills (min want (streams.bounds.get cell).left.toNat) streams result after) :
    (View.take cell parent).Fills want streams
      (result.map (·.take (streams.bounds.get cell).left.toNat)) after := by
  cases result with
  | error fault =>
    obtain ⟨comes, short⟩ := fills
    refine ⟨?_, ?_⟩
    · rw [course_take, Course.fault_cut, if_neg (by omega), comes]
    · rw [course_take, Course.bytes_cut, List.length_take]
      omega
  | ok bytes =>
    obtain ⟨rfl, gave, enough⟩ := fills
    have bound := gave.within.bounds cell fresh
    refine ⟨?_, gave.take_zero fresh, ?_⟩
    · show _ = (parent.held after).take (after.bounds.get cell).left.toNat
      rw [bound]
    · obtain ⟨others, front⟩ := parent.held_front_course after
      rw [gave.bytes, List.drop_zero] at front
      rw [course_take, Course.bytes_cut, Course.fault_cut]
      show want ≤ ((parent.held after).take _).length ∨ (parent.held after).take _ = _ ∧ _
      rw [List.length_take]
      rcases enough with enough | ⟨all, sound⟩
      · by_cases within : want ≤ (streams.bounds.get cell).left.toNat
        · exact .inl (by omega)
        · have least : (streams.bounds.get cell).left.toNat ≤ (parent.held after).length := by omega
          have most : (parent.held after).length ≤ (parent.course streams).bytes.length := by
            rw [← front, List.length_append]
            exact Nat.le_add_right _ _
          refine .inr ⟨?_, if_pos (Nat.le_trans least most)⟩
          rw [← front, List.take_append_of_le_length least]
      · rw [← all, sound, ite_self]
        exact .inr ⟨rfl, rfl⟩

/-- **Peeking.** -/
theorem fillBuf_gave (ready : view.Ready streams) (want : Nat) :
    ∃ result after, (view.fillBuf want).run streams = (result, after) ∧
      view.Fills (max want 1) streams result after := by
  induction view generalizing want with
  | source own cell =>
    obtain ⟨result, after, ran, pulls⟩ := Source.pullFrom_pulls streams.driver own (max want 1)
      (streams.sources.get cell).input.pending (streams.sources.get cell).buffer
      (streams.sources.get cell).input.pulled
    refine ⟨result.map fun _ => after.buffer.content,
      { streams with sources := streams.sources.set cell after }, run_onSource ?_, ?_⟩
    · unfold Source.pullUntil
      dsimp only
      rw [ran]
    · cases result with
      | error fault => exact pulls
      | ok done =>
        obtain ⟨bytes, fault, position, enough⟩ := pulls
        have got : Table.get (Table.set streams.sources cell after) cell = after :=
          Table.get_set_self _ _ _
        refine ⟨congrArg (·.buffer.content) got.symm, gave_source own bytes fault position, ?_⟩
        refine enough.imp_right fun last => ?_
        have all : after.course streams.driver own = .push after.buffer.content .ended :=
          congrArg (Course.push _) last
        rw [all, Course.bytes_push] at bytes
        rw [all, Course.fault_push] at fault
        exact ⟨(List.append_nil _).symm.trans bytes, fault.symm⟩
  | cursor cell =>
    have got : Table.get (Table.set streams.cursors cell (streams.cursors.get cell)) cell =
        streams.cursors.get cell := Table.get_set_self _ _ _
    refine ⟨.ok (streams.cursors.get cell).buffer.content, _, run_onCursor rfl,
      congrArg (·.buffer.content) got.symm, gave_cursor ready 0, .inr ⟨?_, Course.fault_push _ _⟩⟩
    show _ = (Course.push (streams.cursors.get cell).buffer.content .ended).bytes
    rw [Course.bytes_push]
    exact (List.append_nil _).symm
  | take cell parent hypothesis =>
    rw [run_fillBuf_take]
    by_cases spent : (streams.bounds.get cell).left ≤ 0
    · have none : (streams.bounds.get cell).left.toNat = 0 := by omega
      rw [if_pos spent]
      refine ⟨_, _, rfl, ?_, .refl ready, .inr ?_⟩
      · show _ = (parent.held streams).take _
        rw [none, List.take_zero]
      · rw [course_take, none, Course.cut_zero]
        exact ⟨rfl, rfl⟩
    · obtain ⟨result, after, ran, fills⟩ :=
        hypothesis ready.2 (min (max want 1) (streams.bounds.get cell).left.toNat)
      rw [Nat.max_eq_left (by omega)] at fills
      rw [if_neg spent, ran]
      refine ⟨_, after, ?_, fills.take ready.1⟩
      cases result <;> rfl
  | transformed cell parent =>
    obtain ⟨result, after, ran, fills⟩ := prepare_fills ready (max want 1)
    refine ⟨_, after, ?_, fills⟩
    rw [fillBuf, run_bind, ran]
    cases result <;> rfl

/-! ### Dropping -/

theorem position_consume (ready : view.Ready streams) (nonempty : view.held streams ≠ [])
    (enough : count ≤ (view.held streams).length)
    (ran : (view.consume count).run streams = (.ok (), after)) :
    view.position after = view.position streams + count := by
  cases view with
  | source own cell =>
    have same : ((View.source own cell).consume count).run streams = _ :=
      run_onSource (by simp only [Buffer.consume_held _ _ enough]; rfl)
    rw [same] at ran
    cases ran
    show (Table.get (Table.set streams.sources cell _) cell).buffer.position = _
    rw [Table.get_set_self]
    rfl
  | cursor cell =>
    have same : ((View.cursor cell).consume count).run streams = _ :=
      run_onCursor (Buffer.consume_held _ _ enough)
    rw [same] at ran
    cases ran
    show (Table.get (Table.set streams.cursors cell _) cell).buffer.position = _
    rw [Table.get_set_self]
    rfl
  | take cell parent =>
    rw [run_consume_take] at ran
    split at ran
    · cases ran
    · have same := untouched_setBound ready.1 streams (streams.bounds.get cell)
      have filled : parent.held streams ≠ [] := by
        intro empty
        refine nonempty ?_
        show (parent.held streams).take _ = []
        rw [empty, List.take_nil]
      have within : count ≤ (parent.held streams).length :=
        Nat.le_trans enough (List.length_take_le' _ _)
      obtain ⟨middle, drops, dropped⟩ := consume_course count (same.ready ready.2)
        (same.held.symm ▸ filled) (same.held.symm ▸ within)
      rw [drops] at ran
      cases ran
      show (Table.get (Table.set middle.bounds cell _) cell).position = _
      rw [Table.get_set_self, dropped.within.bounds cell ready.1, Table.get_set_self]
      rfl
  | transformed cell parent =>
    have same : ((View.transformed cell parent).consume count).run streams = _ :=
      run_onTransformed (by simp only [Buffer.consume_held _ _ enough]; rfl)
    rw [same] at ran
    cases ran
    show (Table.get (Table.set streams.transforms cell _) cell).buffer.position = _
    rw [Table.get_set_self]
    rfl

/-- **Dropping** what is held gives it. -/
theorem consume_gave (ready : view.Ready streams) (nonempty : view.held streams ≠ [])
    (enough : count ≤ (view.held streams).length) :
    ∃ after, (view.consume count).run streams = (.ok (), after) ∧ view.Gave count streams after := by
  obtain ⟨after, ran, dropped⟩ := consume_course count ready nonempty enough
  exact ⟨after, ran, dropped.took enough, position_consume ready nonempty enough ran, dropped.within⟩

/-! ### Reading -/

/-- What reading exactly so many bytes makes of a view: it gives them, or none if there are fewer. Then
it tells how many there are, unless a fault comes after them. -/
def ReadsExact (view : View) (count : Nat) (before : Streams κ) : Except Fault Bytes → Streams κ → Prop
  | .error fault, after => (view.course before).bytes.length < count ∧
      ((view.course before).fault = some fault ∨
        (view.course before).fault = none ∧
          fault = .decode (.shortRead count (view.course before).bytes.length) ∧
          view.Gave 0 before after)
  | .ok bytes, after => count ≤ (view.course before).bytes.length ∧
      bytes = (view.course before).bytes.take count ∧ view.Gave count before after

/-- Reading from what a view holds after it was filled. -/
theorem Fills.reads {bytes : Bytes} (fills : view.Fills count streams (.ok bytes) middle)
    (within : count ≤ bytes.length) (gave : view.Gave count middle after) :
    view.ReadsExact count streams (.ok (bytes.take count)) after := by
  obtain ⟨rfl, still, -⟩ := fills
  obtain ⟨others, front⟩ := view.held_front_course middle
  rw [still.bytes, List.drop_zero] at front
  have both := still.trans gave
  rw [Nat.zero_add] at both
  refine ⟨?_, ?_, both⟩
  · rw [← front, List.length_append]
    exact Nat.le_add_right_of_le within
  · rw [← front, List.take_append_of_le_length within]

/-- Too little is held after a view was filled. -/
theorem Fills.reads_short {bytes : Bytes} (fills : view.Fills count streams (.ok bytes) middle)
    (short : bytes.length < count) (gave : view.Gave 0 middle after) :
    view.ReadsExact count streams (.error (.decode (.shortRead count bytes.length))) after := by
  obtain ⟨rfl, still, enough⟩ := fills
  obtain ⟨all, sound⟩ := enough.resolve_left (Nat.not_le_of_lt short)
  rw [all] at short ⊢
  exact ⟨short, .inr ⟨sound, rfl, still.trans gave⟩⟩

theorem readExact_gave (ready : view.Ready streams) (count : Nat) :
    ∃ result after, (view.readExact count).run streams = (result, after) ∧
      view.ReadsExact count streams result after := by
  have natural : ¬(count : Int) < 0 := by omega
  induction view with
  | source own cell =>
    obtain ⟨result, pulled, ran, pulls⟩ := Source.pullFrom_pulls streams.driver own count
      (streams.sources.get cell).input.pending (streams.sources.get cell).buffer
      (streams.sources.get cell).input.pulled
    rw [readExact, if_neg natural, Int.toNat_natCast]
    cases result with
    | error fault =>
      refine ⟨.error fault, { streams with sources := streams.sources.set cell pulled },
        run_onSource ?_, pulls.2, .inl pulls.1⟩
      unfold Source.pullUntil
      dsimp only
      rw [ran]
    | ok done =>
      obtain ⟨bytes, fault, position, enough⟩ := pulls
      have front : pulled.buffer.content ++ (pulled.later streams.driver own).bytes =
          ((View.source own cell).course streams).bytes :=
        (Course.bytes_push _ _).symm.trans bytes
      by_cases within : count ≤ pulled.buffer.content.length
      · obtain ⟨dropped, sound⟩ := pulled.course_drop within
        refine ⟨.ok (pulled.buffer.content.take count),
          { streams with
            sources := streams.sources.set cell
              { pulled with buffer := pulled.buffer.drop count } }, run_onSource ?_, ?_, ?_,
          gave_source own (dropped.trans (congrArg (·.drop count) bytes)) (sound.trans fault)
            (congrArg (· + count) position)⟩
        · unfold Source.pullUntil
          dsimp only
          rw [ran]
          simp only [Buffer.read_held _ _ within]
        · rw [← front, List.length_append]
          exact Nat.le_add_right_of_le within
        · rw [← front, List.take_append_of_le_length within]
      · have short := Nat.lt_of_not_le within
        have last := enough.resolve_left within
        rw [last, Course.bytes, List.append_nil] at front
        refine ⟨.error (.decode (.shortRead count pulled.buffer.content.length)),
          { streams with sources := streams.sources.set cell pulled }, run_onSource ?_, ?_,
          .inr ⟨?_, ?_, gave_source own bytes fault position⟩⟩
        · unfold Source.pullUntil
          dsimp only
          rw [ran]
          simp only [Buffer.read_short _ _ short]
        · rw [← front]
          exact short
        · refine fault.symm.trans ((Course.fault_push _ _).trans ?_)
          rw [last]
          rfl
        · rw [← front]
  | cursor cell =>
    have all : ((View.cursor cell).course streams).bytes = (streams.cursors.get cell).buffer.content := by
      show (Course.push (streams.cursors.get cell).buffer.content .ended).bytes = _
      rw [Course.bytes_push]
      exact List.append_nil _
    rw [readExact, if_neg natural, Int.toNat_natCast]
    by_cases within : count ≤ (streams.cursors.get cell).buffer.content.length
    · refine ⟨_, _, run_onCursor (Buffer.read_held _ _ within), ?_, ?_, gave_cursor ready count⟩
      · rw [all]
        exact within
      · rw [all]
    · refine ⟨_, _, run_onCursor (Buffer.read_short _ _ (Nat.lt_of_not_le within)), ?_,
        .inr ⟨Course.fault_push _ _, ?_, gave_cursor ready 0⟩⟩
      · rw [all]
        exact Nat.lt_of_not_le within
      · rw [all]
  | take cell parent hypothesis =>
    have cut : ((View.take cell parent).course streams).bytes =
        (parent.course streams).bytes.take (streams.bounds.get cell).left.toNat := by
      rw [course_take, Course.bytes_cut]
    rw [run_readExact_take]
    by_cases beyond : (streams.bounds.get cell).left < count
    · rw [if_pos beyond, if_neg natural]
      by_cases nothing : count = 0
      · obtain rfl := nothing
        exact ⟨_, _, if_pos rfl, Nat.zero_le _, rfl, .refl ready⟩
      · obtain ⟨result, after, ran, fills⟩ := fillBuf_gave ready count
        rw [Nat.max_eq_left (by omega)] at fills
        rw [if_neg (by omega), Int.toNat_natCast, ran]
        cases result with
        | error fault => exact ⟨.error fault, after, rfl, fills.2, .inl fills.1⟩
        | ok bytes =>
          have most := ((View.take cell parent).held_front_course after).length_le
          rw [fills.2.1.bytes, List.drop_zero, cut, List.length_take, ← fills.1] at most
          exact ⟨_, after, rfl, fills.reads_short (by omega) (.refl fills.2.1.ready)⟩
    · rw [if_neg beyond]
      obtain ⟨result, after, ran, reads⟩ := hypothesis ready.2
      rw [ran]
      cases result with
      | error fault =>
        obtain ⟨short, reads⟩ := reads
        have same : ((View.take cell parent).course streams).fault =
            (parent.course streams).fault := by
          rw [course_take, Course.fault_cut, if_neg (by omega)]
        have whole : ((View.take cell parent).course streams).bytes =
            (parent.course streams).bytes := by
          rw [cut, List.take_of_length_le (by omega)]
        refine ⟨.error fault, after, rfl, whole.symm ▸ short, ?_⟩
        rw [same, whole]
        refine reads.imp_right fun tells => ?_
        obtain ⟨sound, tells, gave⟩ := tells
        exact ⟨sound, tells, gave.take_zero ready.1⟩
      | ok bytes =>
        obtain ⟨within, rfl, gave⟩ := reads
        have bound := gave.within.bounds cell ready.1
        dsimp only
        rw [bound, Int.toNat_natCast]
        refine ⟨_, _, rfl, ?_, ?_, gave.take ready.1 (by omega) within⟩
        · rw [cut, List.length_take]
          omega
        · rw [cut, List.take_take, Nat.min_eq_left (by omega)]
  | transformed cell parent =>
    obtain ⟨result, middle, ran, fills⟩ := prepare_fills ready count
    rw [readExact, if_neg natural, run_bind, Int.toNat_natCast, ran]
    cases result with
    | error fault => exact ⟨.error fault, middle, rfl, fills.2, .inl fills.1⟩
    | ok done =>
      have readyMiddle := fills.2.1.ready
      by_cases within : count ≤ ((View.transformed cell parent).held middle).length
      · refine ⟨_, _, run_onTransformed ?_, fills.reads within (gave_layer readyMiddle within)⟩
        simp only [Buffer.read_held _ _ within]
        rfl
      · refine ⟨_, _, run_onTransformed ?_, fills.reads_short (Nat.lt_of_not_le within)
          (gave_layer readyMiddle (Nat.zero_le _))⟩
        simp only [Buffer.read_short _ _ (Nat.lt_of_not_le within)]
        rfl

/-! ### What a view offers -/

/-- A view of certain bytes: they come, and no fault after them. -/
structure Offers (view : View) (content : Bytes) (streams : Streams κ) : Prop where
  ready : view.Ready streams
  bytes : (view.course streams).bytes = content
  sound : (view.course streams).fault = none

/-- A view offers what reading to its end gives. -/
theorem offers_of_gives (ready : view.Ready streams)
    (gives : (view.readToEnd.run streams).1 = .ok content) : view.Offers content streams :=
  ⟨ready, (course_of_gives ready gives).1, (course_of_gives ready gives).2⟩

theorem Offers.gives (offers : view.Offers content streams) :
    (view.readToEnd.run streams).1 = .ok content :=
  gives_of_course offers.ready offers.bytes offers.sound

/-- After some bytes were given, a view offers the others. -/
theorem Gave.offers (gave : view.Gave count before after) (offers : view.Offers content before) :
    view.Offers (content.drop count) after :=
  ⟨gave.ready, gave.bytes.trans (congrArg (·.drop count) offers.bytes),
    gave.fault.trans offers.sound⟩

/-- **Reading exactly so many bytes** of those that a view offers. -/
theorem Offers.readExact (offers : view.Offers content streams) (count : Nat) :
    ∃ after, (view.readExact count).run streams = (exactly count content, after) ∧
      view.Gave (spentBy count content) streams after := by
  obtain ⟨result, after, ran, reads⟩ := readExact_gave offers.ready count
  refine ⟨after, ?_⟩
  unfold exactly spentBy
  cases result with
  | error fault =>
    obtain ⟨short, comes⟩ := reads
    obtain ⟨-, rfl, gave⟩ := comes.resolve_left (offers.sound ▸ nofun)
    rw [offers.bytes] at short ran
    rw [if_neg (Nat.not_le_of_lt short), if_neg (Nat.not_le_of_lt short)]
    exact ⟨ran, gave⟩
  | ok bytes =>
    obtain ⟨within, rfl, gave⟩ := reads
    rw [offers.bytes] at within ran
    rw [if_pos within, if_pos within]
    exact ⟨ran, gave⟩

/-- **Looking for a terminator** in front of the bytes that a view offers. -/
theorem Offers.approach (offers : view.Offers content streams) {terminator : Bytes}
    (filled : terminator ≠ []) :
    ∃ after, (view.approach terminator).run streams =
        (.ok (Approach.of terminator content), after) ∧
      view.Gave (if Approach.of terminator content = .reached then terminator.length else 0)
        streams after := by
  obtain ⟨result, peeked, ran, fills⟩ := fillBuf_gave offers.ready terminator.length
  cases result with
  | error fault =>
    have comes := fills.1
    rw [offers.sound] at comes
    cases comes
  | ok bytes =>
    obtain ⟨rfl, gave, enough⟩ := fills
    have front := view.held_front_course peeked
    rw [gave.bytes, List.drop_zero, offers.bytes] at front
    rw [offers.bytes] at enough
    have seen : Approach.of terminator (view.held peeked) = Approach.of terminator content := by
      refine Approach.of_front front ?_
      rcases enough with enough | ⟨all, -⟩
      · exact Nat.le_trans (Nat.min_le_left _ _) enough
      · rw [all]
        exact Nat.min_le_right _ _
    rw [View.approach, run_bind_ok ran, seen]
    cases found : Approach.of terminator content with
    | ended => exact ⟨peeked, rfl, gave⟩
    | ahead => exact ⟨peeked, rfl, gave⟩
    | reached =>
      have held : terminator.length ≤ (view.held peeked).length :=
        Approach.length_le_of_reached (seen.trans found)
      have nonempty : view.held peeked ≠ [] := by
        intro empty
        rw [empty] at held
        exact filled (List.length_eq_zero_iff.mp (Nat.le_zero.mp held))
      obtain ⟨after, drops, gave'⟩ := consume_gave gave.ready nonempty held
      refine ⟨after, ?_, ?_⟩
      · show ((view.consume _ >>= _).run peeked) = _
        rw [run_bind, drops]
        rfl
      · have both := gave.trans gave'
        rwa [Nat.zero_add] at both

/-- Draining a view gives what is read. -/
theorem gave_of_drain {fuel : Nat} {bytes : Bytes} (ready : view.Ready streams)
    (ran : (view.drain fuel).run streams = (.ok bytes, after)) :
    view.Gave bytes.length streams after := by
  induction fuel generalizing streams bytes with
  | zero => cases ran
  | succ fuel hypothesis =>
    obtain ⟨result, middle, filled, fills⟩ := fillBuf_gave ready 1
    rw [drain] at ran
    cases result with
    | error fault =>
      rw [run_bind_error filled] at ran
      cases ran
    | ok available =>
      obtain ⟨rfl, still, -⟩ := fills
      rw [run_bind_ok filled] at ran
      by_cases nothing : (view.held middle).isEmpty = true
      · rw [if_pos nothing] at ran
        cases ran
        exact still
      · have nonempty : view.held middle ≠ [] := mt List.isEmpty_iff.mpr nothing
        obtain ⟨dropped, drops, gave⟩ := consume_gave still.ready nonempty (Nat.le_refl _)
        rw [if_neg nothing, run_bind_ok drops] at ran
        rcases rest : (view.drain fuel).run dropped with ⟨fault | others, last⟩
        · rw [run_bind_error rest] at ran
          cases ran
        · rw [run_bind_ok rest] at ran
          cases ran
          have both := (still.trans gave).trans (hypothesis gave.ready rest)
          rwa [Nat.zero_add, ← List.length_append] at both

/-- **Reading to the end** of what a view offers. -/
theorem Offers.readToEnd (offers : view.Offers content streams) :
    ∃ after, view.readToEnd.run streams = (.ok content, after) ∧
      view.Gave content.length streams after := by
  rcases ran : view.readToEnd.run streams with ⟨result, after⟩
  have gives := offers.gives
  rw [ran] at gives
  obtain rfl : result = .ok content := gives
  exact ⟨after, rfl, gave_of_drain offers.ready ran⟩

/-- **A change of other layers** leaves what a view offers. -/
theorem Offers.kept {layers : List Layer} (offers : view.Offers content before)
    (kept : Streams.Kept layers before after) (free : view.touches.Disjoint layers) :
    view.Offers content after := by
  have same : view.Same before after :=
    ⟨kept.driver, fun layer member => kept.same layer fun other => free member other⟩
  exact ⟨same.ready offers.ready, same.course ▸ offers.bytes, same.course ▸ offers.sound⟩

end View

/-! ### Weights -/

theorem Course.length_ofChunks_bytes_le (driver : Execution) (chunks : List Chunk) :
    (Course.ofChunks driver chunks).bytes.length ≤ (chunks.map Chunk.size).foldr (· + ·) 0 := by
  induction chunks with
  | nil => exact Nat.zero_le _
  | cons chunk rest hypothesis =>
    match chunk with
    | .absent => exact Nat.zero_le _
    | .failure reason => exact Nat.zero_le _
    | .bytes [] => exact Nat.zero_le _
    | .bytes (first :: others) =>
      show ((first :: others) ++ _).length ≤ (first :: others).length + _
      rw [List.length_append]
      exact Nat.add_le_add_left hypothesis _

/-- What comes out of a codec is paid for by its reserve and by what it is fed with. -/
theorem Course.length_through_bytes_le {codec : Codec} (sane : codec.Sane)
    (unfinished : codec.finished = false) (course : Course) :
    (course.through codec).bytes.length ≤
      codec.reserve + ChunkCodec.gain Codec * course.bytes.length := by
  induction course generalizing codec with
  | failed fault => exact Nat.zero_le _
  | ended =>
    have bounded := Codec.finish_bounded sane
    unfold Course.through
    cases last : (ChunkCodec.finish codec).1 with
    | error fault => exact Nat.zero_le _
    | ok bytes =>
      dsimp only
      rw [Course.bytes_push, Course.bytes, List.append_nil]
      exact Nat.le_add_right_of_le (bounded.ok last).1
  | piece first others later hypothesis =>
    have bounded := Codec.feed_bounded sane unfinished (List.cons_ne_nil first others)
    unfold Course.through
    rcases fed : ChunkCodec.feed codec (first :: others) with ⟨fault | ⟨bytes, count⟩, next⟩
    · exact Nat.zero_le _
    · have same : codec.feed (first :: others) = (.ok (bytes, count), next) := fed
      rw [same] at bounded
      obtain ⟨saneNext, used, -, -, most, paid⟩ := bounded
      dsimp only at paid saneNext ⊢
      have scaled := Nat.mul_le_mul_left (ChunkCodec.gain Codec) most
      rw [Course.bytes_push, List.length_append, Course.bytes, List.length_append, Nat.mul_add]
      cases finished : ChunkCodec.finished next with
      | true =>
        rw [if_pos rfl, Course.bytes, List.length_nil]
        omega
      | false =>
        rw [if_neg Bool.false_ne_true]
        have others := hypothesis saneNext finished
        omega

/-- **The bytes of a view** are no more than its weight. -/
theorem View.length_course_le_weight {streams : Streams Codec} {view : View}
    (sane : ∀ cell ∈ view.stages, (streams.transforms.get cell).Sane) :
    (view.course streams).bytes.length ≤ view.weight streams := by
  induction view with
  | source own cell =>
    show (Course.push _ _).bytes.length ≤ (streams.sources.get cell).buffer.content.length + _
    rw [Course.bytes_push, List.length_append]
    refine Nat.add_le_add_left ?_ _
    show ((streams.sources.get cell).later streams.driver own).bytes.length ≤ _
    unfold Source.later
    split
    · exact Nat.zero_le _
    · split
      · exact Nat.zero_le _
      · exact Course.length_ofChunks_bytes_le _ _
  | cursor cell =>
    show (Course.push _ .ended).bytes.length ≤ _
    rw [Course.bytes_push, Course.bytes, List.append_nil]
    exact Nat.le_refl _
  | take cell parent hypothesis =>
    have most := hypothesis sane
    rw [View.course_take, Course.bytes_cut, List.length_take]
    unfold View.weight
    omega
  | transformed cell parent hypothesis =>
    have most := hypothesis fun other member => sane other (List.mem_cons_of_mem _ member)
    obtain ⟨codec, has, saneCodec, unfinished⟩ := sane cell (List.mem_cons_self ..)
    have scaled := Nat.mul_le_mul_left (ChunkCodec.gain Codec) most
    show (Course.push (streams.transforms.get cell).buffer.content
      ((streams.transforms.get cell).later (parent.course streams))).bytes.length ≤ _
    unfold View.weight Transformed.later
    dsimp only
    rw [Course.bytes_push, List.length_append, has]
    cases finished : (streams.transforms.get cell).finished with
    | true =>
      rw [if_pos rfl, Course.bytes, List.length_nil]
      omega
    | false =>
      have paid := Course.length_through_bytes_le saneCodec (unfinished finished)
        (parent.course streams)
      rw [if_neg Bool.false_ne_true]
      show _ + ((parent.course streams).through codec).bytes.length ≤ _ + codec.reserve + _
      omega

end WireProgram
