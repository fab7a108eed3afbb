/-
**Streams that agree on the layers of a view.**

An operation through a view looks only at the layers of the view, and changes no others. So it gives the
same in two states that agree on them, whatever else there is: some layers may be set apart and differ,
and the cursors may have other cells. The main definitions and statements:

* `Layer` and `View.touches`, the cells that hold the state of a view;
* `Streams.Agree`, two states that agree but for what is set apart, and `View.moved`, a view whose
  cursors have other cells;
* `Streams.Kept`, a change of some layers only;
* `Abreast`, two operations that go together and change some layers only;
* `View.fillBuf_abreast`, `View.readExact_abreast`, `View.readToEnd_abreast` and
  `View.approach_abreast`, one for each operation;
* `View.Reader`, an operation that also sees a plain view by what it has to give.
-/

import Mathlib.Data.List.Basic
import WireProgram.Proofs.Stream.Region

namespace WireProgram

variable {κ : Type}

/-! ### Layers -/

/-- A layer of a view, by the cell that holds its state. -/
inductive Layer where
  | source (cell : Nat)
  | cursor (cell : Nat)
  | bound (cell : Nat)
  | codec (cell : Nat)
  deriving DecidableEq

/-- The top layer of a view. -/
def View.top : View → Layer
  | .source _ cell => .source cell
  | .cursor cell => .cursor cell
  | .take cell _ => .bound cell
  | .transformed cell _ => .codec cell

/-- The layers that an operation through a view can touch, the top one first. -/
def View.touches : View → List Layer
  | .source _ cell => [.source cell]
  | .cursor cell => [.cursor cell]
  | .take cell parent => .bound cell :: parent.touches
  | .transformed cell parent => .codec cell :: parent.touches

theorem View.top_mem (view : View) : view.top ∈ view.touches := by
  cases view <;> exact List.mem_cons_self ..

theorem View.bound_mem {view : View} {cell : Nat} :
    .bound cell ∈ view.touches ↔ cell ∈ view.cells := by
  induction view with
  | source own other => simp [touches, cells]
  | cursor other => simp [touches, cells]
  | take other parent hypothesis => simp [touches, cells, hypothesis]
  | transformed other parent hypothesis => simp [touches, cells, hypothesis]

/-- Two states of the streams that agree on a layer. -/
def Layer.Same (before after : Streams κ) : Layer → Prop
  | .source cell => after.sources.get cell = before.sources.get cell
  | .cursor cell => after.cursors.get cell = before.cursors.get cell
  | .bound cell => after.bounds.get cell = before.bounds.get cell
  | .codec cell => after.transforms.get cell = before.transforms.get cell

theorem Layer.Same.trans {before middle after : Streams κ} {layer : Layer}
    (first : layer.Same before middle) (second : layer.Same middle after) :
    layer.Same before after := by
  cases layer <;> exact Eq.trans second first

/-! ### Changes of some layers -/

/-- A change of the streams that leaves all but some layers as they are. No cursor is new if those among
the layers are not. -/
structure Streams.Kept (layers : List Layer) (before after : Streams κ) : Prop where
  driver : after.driver = before.driver
  same : ∀ layer ∉ layers, layer.Same before after
  bounds : before.bounds.size ≤ after.bounds.size
  cursors : before.cursors.size ≤ after.cursors.size
  settled : (∀ cell, .cursor cell ∈ layers → cell < before.cursors.size) →
    after.cursors.size = before.cursors.size

namespace Streams.Kept

variable {layers more : List Layer} {before middle after : Streams κ}

theorem refl (layers : List Layer) (streams : Streams κ) : Kept layers streams streams :=
  ⟨rfl, fun layer _ => by cases layer <;> rfl, Nat.le_refl _, Nat.le_refl _, fun _ => rfl⟩

theorem trans (first : Kept layers before middle) (second : Kept layers middle after) :
    Kept layers before after where
  driver := second.driver.trans first.driver
  same layer free := (first.same layer free).trans (second.same layer free)
  bounds := Nat.le_trans first.bounds second.bounds
  cursors := Nat.le_trans first.cursors second.cursors
  settled opened := (second.settled fun cell member =>
    Nat.lt_of_lt_of_le (opened cell member) first.cursors).trans (first.settled opened)

theorem mono (kept : Kept layers before after) (within : layers ⊆ more) : Kept more before after where
  driver := kept.driver
  same layer free := kept.same layer fun member => free (within member)
  bounds := kept.bounds
  cursors := kept.cursors
  settled opened := kept.settled fun cell member => opened cell (within member)

end Streams.Kept

/-! ### States that agree -/

/-- A view whose cursors have other cells. -/
def View.moved (shift : Nat → Nat) : View → View
  | .source own cell => .source own cell
  | .cursor cell => .cursor (shift cell)
  | .take cell parent => .take cell (parent.moved shift)
  | .transformed cell parent => .transformed cell (parent.moved shift)

@[simp] theorem View.moved_id (view : View) : view.moved id = view := by
  induction view with
  | source own cell => rfl
  | cursor cell => rfl
  | take cell parent hypothesis => rw [moved, hypothesis]
  | transformed cell parent hypothesis => rw [moved, hypothesis]

/-- Two states of the streams that agree but for some layers that are set apart. The second one may have
the cursors in other cells. -/
structure Streams.Agree (shift : Nat → Nat) (apart : List Layer) (left right : Streams κ) : Prop where
  injective : Function.Injective shift
  driver : right.driver = left.driver
  sources : ∀ cell, .source cell ∉ apart → right.sources.get cell = left.sources.get cell
  cursors : ∀ cell, .cursor cell ∉ apart → right.cursors.get (shift cell) = left.cursors.get cell
  next : ∀ more, shift (left.cursors.size + more) = right.cursors.size + more
  bounds : ∀ cell, .bound cell ∉ apart → right.bounds.get cell = left.bounds.get cell
  size : right.bounds.size = left.bounds.size
  transforms : right.transforms = left.transforms

/-- What goes together in two states that agree, by changes of some layers. -/
def Streams.abreast (κ : Type) (shift : Nat → Nat) (apart layers : List Layer) :
    Simulation (Streams κ) where
  alike := Streams.Agree shift apart
  later := Streams.Kept layers
  refl := .refl layers
  trans := .trans

theorem Streams.Agree.refl (apart : List Layer) (streams : Streams κ) :
    Streams.Agree id apart streams streams :=
  ⟨Function.injective_id, rfl, fun _ _ => rfl, fun _ _ => rfl, fun _ => rfl, fun _ _ => rfl, rfl, rfl⟩

/-- Two operations that give the same in states that agree, and change some layers only. -/
abbrev Abreast {α : Type} (shift : Nat → Nat) (apart layers : List Layer)
    (step step' : StreamStep κ α) : Prop :=
  ∀ left right, Streams.Agree shift apart left right →
    Lockstep (Streams.abreast κ shift apart layers) (fun _ _ => True) step step' left right

section Steps

variable {α β : Type} {shift : Nat → Nat} {apart layers more : List Layer} {cell : Nat}
  {step step' : StreamStep κ α}

/-- One operation alone changes some layers only. -/
theorem Abreast.kept (abreast : Abreast id apart layers step step') (streams : Streams κ) :
    Streams.Kept layers streams (step.run streams).2 :=
  (abreast streams streams (.refl apart streams)).later

theorem Abreast.mono (abreast : Abreast shift apart layers step step') (within : layers ⊆ more) :
    Abreast shift apart more step step' := by
  intro left right agree
  obtain ⟨result, alike, later, good⟩ := abreast left right agree
  exact ⟨result, alike, later.mono within, good⟩

theorem Abreast.bind {next next' : α → StreamStep κ β} (first : Abreast shift apart layers step step')
    (second : ∀ value, Abreast shift apart layers (next value) (next' value)) :
    Abreast shift apart layers (step >>= next) (step' >>= next') :=
  fun left right agree =>
    (first left right agree).bind fun value _ _ agree' _ _ => second value _ _ agree'

theorem Abreast.pure (value : α) :
    Abreast shift apart layers (Pure.pure value : StreamStep κ α) (Pure.pure value) :=
  fun _ _ agree => .pure agree trivial

theorem abreast_throw (fault : Fault) :
    Abreast shift apart layers (throw fault : StreamStep κ α) (throw fault) :=
  fun _ _ agree => .throw agree

namespace View

theorem abreast_look {question question' : Streams κ → α}
    (same : ∀ left right, Streams.Agree shift apart left right → question' right = question left) :
    Abreast shift apart layers (look question) (look question') := by
  intro left right agree
  refine .of_run (run_look _ _) ?_ agree (Simulation.refl _ _) fun _ _ => trivial
  rw [run_look, same left right agree]

/-- A look at the state of a codec. -/
theorem abreast_look_codec (answer : Transformed κ → α) :
    Abreast shift apart layers (look fun streams => answer (streams.transforms.get cell))
      (look fun streams => answer (streams.transforms.get cell)) :=
  abreast_look fun _ _ agree => by rw [agree.transforms]

theorem abreast_onSource {act : Execution → Source → Except Fault α × Source}
    (clear : .source cell ∉ apart) (member : .source cell ∈ layers) :
    Abreast shift apart layers (onSource cell act : StreamStep κ α) (onSource cell act) := by
  intro left right agree
  have same : act right.driver (right.sources.get cell) = act left.driver (left.sources.get cell) := by
    rw [agree.driver, agree.sources cell clear]
  refine .of_run (run_onSource rfl) (run_onSource same) ?_
    ⟨rfl, fun layer free => ?_, Nat.le_refl _, Nat.le_refl _, fun _ => rfl⟩ fun _ _ => trivial
  · refine ⟨agree.injective, agree.driver, fun other free => ?_, agree.cursors, agree.next,
      agree.bounds, agree.size, agree.transforms⟩
    rw [Table.get_set, Table.get_set, agree.sources other free]
  · cases layer with
    | source other =>
      show (left.sources.set cell _).get other = _
      rw [Table.get_set, if_neg]
      rintro rfl
      exact free member
    | _ => rfl

theorem abreast_onCursor {act : Buffer → Except Fault α × Buffer} (clear : .cursor cell ∉ apart)
    (member : .cursor cell ∈ layers) :
    Abreast shift apart layers (onCursor cell act : StreamStep κ α) (onCursor (shift cell) act) := by
  intro left right agree
  have same : act (right.cursors.get (shift cell)).buffer = act (left.cursors.get cell).buffer := by
    rw [agree.cursors cell clear]
  refine .of_run (run_onCursor rfl) (run_onCursor same) ?_
    ⟨rfl, fun layer free => ?_, Nat.le_refl _, Table.size_le_set _ _ _, fun opened =>
      Table.size_set _ _ _ (opened cell member)⟩ fun _ _ => trivial
  · refine ⟨agree.injective, agree.driver, agree.sources, fun other free => ?_, fun more => ?_,
      agree.bounds, agree.size, agree.transforms⟩
    · rw [Table.get_set, Table.get_set, agree.cursors cell clear, agree.cursors other free]
      simp only [agree.injective.eq_iff]
    · exact Table.next_set agree.injective agree.next cell _ _ more
  · cases layer with
    | cursor other =>
      show (left.cursors.set cell _).get other = _
      rw [Table.get_set, if_neg]
      rintro rfl
      exact free member
    | _ => rfl

theorem abreast_onBound {act : Bound → Except Fault α × Bound} (clear : .bound cell ∉ apart)
    (member : .bound cell ∈ layers) :
    Abreast shift apart layers (onBound cell act : StreamStep κ α) (onBound cell act) := by
  intro left right agree
  have same : act (right.bounds.get cell) = act (left.bounds.get cell) := by
    rw [agree.bounds cell clear]
  refine .of_run (run_onBound rfl) (run_onBound same) ?_
    ⟨rfl, fun layer free => ?_, Table.size_le_set _ _ _, Nat.le_refl _, fun _ => rfl⟩
      fun _ _ => trivial
  · refine ⟨agree.injective, agree.driver, agree.sources, agree.cursors, agree.next,
      fun other free => ?_, by rw [Table.size_set_eq_max, Table.size_set_eq_max, agree.size],
      agree.transforms⟩
    rw [Table.get_set, Table.get_set, agree.bounds other free]
  · cases layer with
    | bound other =>
      show (left.bounds.set cell _).get other = _
      rw [Table.get_set, if_neg]
      rintro rfl
      exact free member
    | _ => rfl

theorem abreast_onTransformed {act : Transformed κ → Except Fault α × Transformed κ}
    (member : .codec cell ∈ layers) :
    Abreast shift apart layers (onTransformed cell act) (onTransformed cell act) := by
  intro left right agree
  have same : act (right.transforms.get cell) = act (left.transforms.get cell) := by
    rw [agree.transforms]
  refine .of_run (run_onTransformed rfl) (run_onTransformed same) ?_
    ⟨rfl, fun layer free => ?_, Nat.le_refl _, Nat.le_refl _, fun _ => rfl⟩ fun _ _ => trivial
  · exact ⟨agree.injective, agree.driver, agree.sources, agree.cursors, agree.next, agree.bounds,
      agree.size, by rw [agree.transforms]⟩
  · cases layer with
    | codec other =>
      show (left.transforms.set cell _).get other = _
      rw [Table.get_set, if_neg]
      rintro rfl
      exact free member
    | _ => rfl

end View

end Steps

/-! ### Operations -/

namespace View

variable {shift : Nat → Nat} {apart : List Layer} {left right : Streams κ} {view : View} {cell : Nat}

/-- As much went through a view in both states, if they agree on its top layer. -/
theorem position_agree (agree : Streams.Agree shift apart left right) (clear : view.top ∉ apart) :
    (view.moved shift).position right = view.position left := by
  cases view with
  | source own cell => exact congrArg (·.buffer.position) (agree.sources cell clear)
  | cursor cell => exact congrArg (·.buffer.position) (agree.cursors cell clear)
  | take cell parent => exact congrArg Bound.position (agree.bounds cell clear)
  | transformed cell parent =>
    show (right.transforms.get cell).buffer.position = _
    rw [agree.transforms]
    rfl

theorem turns_agree (agree : Streams.Agree shift apart left right)
    (clear : view.touches.Disjoint apart) : (view.moved shift).turns right = view.turns left := by
  induction view with
  | source own cell =>
    unfold moved turns
    rw [agree.sources cell fun member => clear (List.mem_cons_self ..) member]
  | cursor cell => rfl
  | take cell parent hypothesis => exact hypothesis (List.disjoint_cons_left.mp clear).2
  | transformed cell parent hypothesis =>
    unfold moved turns
    rw [hypothesis (List.disjoint_cons_left.mp clear).2]

theorem atEnd_agree (agree : Streams.Agree shift apart left right)
    (clear : view.touches.Disjoint apart) : (view.moved shift).atEnd right = view.atEnd left := by
  induction view with
  | source own cell =>
    unfold moved atEnd
    rw [agree.sources cell fun member => clear (List.mem_cons_self ..) member]
  | cursor cell =>
    unfold moved atEnd
    rw [agree.cursors cell fun member => clear (List.mem_cons_self ..) member]
  | take cell parent hypothesis =>
    obtain ⟨free, clearParent⟩ := List.disjoint_cons_left.mp clear
    unfold moved atEnd
    rw [hypothesis clearParent, agree.bounds cell free]
  | transformed cell parent hypothesis =>
    unfold moved atEnd
    rw [agree.transforms]

theorem consume_abreast (clear : view.touches.Disjoint apart) (count : Int) :
    Abreast shift apart view.touches (view.consume count : StreamStep κ Unit)
      ((view.moved shift).consume count) := by
  induction view with
  | source own cell =>
    exact abreast_onSource (List.disjoint_cons_left.mp clear).1 (List.mem_cons_self ..)
  | cursor cell => exact abreast_onCursor (List.disjoint_cons_left.mp clear).1 (List.mem_cons_self ..)
  | take cell parent hypothesis =>
    obtain ⟨free, clearParent⟩ := List.disjoint_cons_left.mp clear
    have here : Layer.bound cell ∈ (View.take cell parent).touches := List.mem_cons_self ..
    exact (abreast_onBound free here).bind fun _ =>
      ((hypothesis clearParent).mono (List.subset_cons_self ..)).bind fun _ => abreast_onBound free here
  | transformed cell parent => exact abreast_onTransformed (List.mem_cons_self ..)

variable [ChunkCodec κ]

theorem weight_agree (agree : Streams.Agree shift apart left right)
    (clear : view.touches.Disjoint apart) : (view.moved shift).weight right = view.weight left := by
  induction view with
  | source own cell =>
    unfold moved weight
    rw [agree.sources cell fun member => clear (List.mem_cons_self ..) member]
  | cursor cell =>
    unfold moved weight
    rw [agree.cursors cell fun member => clear (List.mem_cons_self ..) member]
  | take cell parent hypothesis =>
    obtain ⟨free, clearParent⟩ := List.disjoint_cons_left.mp clear
    unfold moved weight
    rw [hypothesis clearParent, agree.bounds cell free]
  | transformed cell parent hypothesis =>
    unfold moved weight
    rw [hypothesis (List.disjoint_cons_left.mp clear).2, agree.transforms]

/-- Feeding a codec goes together if the operations on its input do. -/
theorem refill_abreast {layers : List Layer} {peek peek' : StreamStep κ Bytes}
    {drop drop' : Int → StreamStep κ Unit} (member : .codec cell ∈ layers)
    (peeks : Abreast shift apart layers peek peek')
    (drops : ∀ count, Abreast shift apart layers (drop count) (drop' count)) (want fuel : Nat) :
    Abreast shift apart layers (refill cell peek drop want fuel)
      (refill cell peek' drop' want fuel) := by
  induction fuel with
  | zero => exact abreast_throw _
  | succ fuel hypothesis =>
    refine (abreast_look_codec id).bind fun layer => ?_
    split
    · exact .pure _
    · split
      · exact abreast_onTransformed member
      · refine peeks.bind fun given => ?_
        split
        · exact (abreast_onTransformed member).bind fun _ =>
            (abreast_onTransformed member).bind fun _ => hypothesis
        · exact (abreast_onTransformed member).bind fun fed => (drops fed.2).bind fun _ =>
            (abreast_onTransformed member).bind fun _ => hypothesis

theorem prepare_abreast {parent : View} {layers : List Layer} {peek peek' : StreamStep κ Bytes}
    {drop drop' : Int → StreamStep κ Unit} (member : .codec cell ∈ layers)
    (clear : parent.touches.Disjoint apart) (peeks : Abreast shift apart layers peek peek')
    (drops : ∀ count, Abreast shift apart layers (drop count) (drop' count)) (want : Nat) :
    Abreast shift apart layers (prepare cell parent peek drop want)
      (prepare cell (parent.moved shift) peek' drop' want) := by
  refine (abreast_look_codec fun layer => layer.buffer.ended || layer.buffer.holds want).bind
    fun ready => ?_
  split
  · exact .pure _
  · exact (abreast_look fun left right agree =>
      congrArg₂ (· + ·) (weight_agree agree clear) (turns_agree agree clear)).bind fun bound =>
        refill_abreast member peeks drops want _

theorem fillBuf_abreast (clear : view.touches.Disjoint apart) (want : Nat) :
    Abreast shift apart view.touches (view.fillBuf want : StreamStep κ Bytes)
      ((view.moved shift).fillBuf want) := by
  induction view generalizing want with
  | source own cell =>
    exact abreast_onSource (List.disjoint_cons_left.mp clear).1 (List.mem_cons_self ..)
  | cursor cell => exact abreast_onCursor (List.disjoint_cons_left.mp clear).1 (List.mem_cons_self ..)
  | take cell parent hypothesis =>
    obtain ⟨free, clearParent⟩ := List.disjoint_cons_left.mp clear
    refine (abreast_look fun left right agree => agree.bounds cell free).bind fun bound => ?_
    split
    · exact .pure _
    · exact ((hypothesis clearParent _).mono (List.subset_cons_self ..)).bind fun available => .pure _
  | transformed cell parent hypothesis =>
    have clearParent := (List.disjoint_cons_left.mp clear).2
    have within : parent.touches ⊆ (View.transformed cell parent).touches := List.subset_cons_self ..
    exact (prepare_abreast (List.mem_cons_self ..) clearParent ((hypothesis clearParent 1).mono within)
      (fun count => (consume_abreast clearParent count).mono within) _).bind fun _ =>
        abreast_look_codec fun layer => layer.buffer.content

theorem readExact_abreast (clear : view.touches.Disjoint apart) (count : Int) :
    Abreast shift apart view.touches (view.readExact count : StreamStep κ Bytes)
      ((view.moved shift).readExact count) := by
  induction view with
  | source own cell =>
    unfold moved readExact
    split
    · exact abreast_throw _
    · exact abreast_onSource (List.disjoint_cons_left.mp clear).1 (List.mem_cons_self ..)
  | cursor cell =>
    unfold moved readExact
    split
    · exact abreast_throw _
    · exact abreast_onCursor (List.disjoint_cons_left.mp clear).1 (List.mem_cons_self ..)
  | take cell parent hypothesis =>
    obtain ⟨free, clearParent⟩ := List.disjoint_cons_left.mp clear
    refine (abreast_look fun left right agree => agree.bounds cell free).bind fun bound => ?_
    split
    · split
      · exact abreast_throw _
      · split
        · exact .pure _
        · exact (fillBuf_abreast clear _).bind fun _ => abreast_throw _
    · refine ((hypothesis clearParent).mono (List.subset_cons_self ..)).bind fun bytes => ?_
      exact (abreast_onBound free (List.mem_cons_self ..)).bind fun _ => .pure _
  | transformed cell parent hypothesis =>
    unfold moved readExact
    split
    · exact abreast_throw _
    · have clearParent := (List.disjoint_cons_left.mp clear).2
      have within : parent.touches ⊆ (View.transformed cell parent).touches := List.subset_cons_self ..
      exact (prepare_abreast (List.mem_cons_self ..) clearParent
        ((fillBuf_abreast clearParent 1).mono within)
        (fun count => (consume_abreast clearParent count).mono within) _).bind fun _ =>
          abreast_onTransformed (List.mem_cons_self ..)

theorem drain_abreast (clear : view.touches.Disjoint apart) (fuel : Nat) :
    Abreast shift apart view.touches (view.drain fuel : StreamStep κ Bytes)
      ((view.moved shift).drain fuel) := by
  induction fuel with
  | zero => exact abreast_throw _
  | succ fuel hypothesis =>
    refine (fillBuf_abreast clear 1).bind fun available => ?_
    split
    · exact .pure _
    · exact (consume_abreast clear _).bind fun _ => hypothesis.bind fun _ => .pure _

theorem readToEnd_abreast (clear : view.touches.Disjoint apart) :
    Abreast shift apart view.touches (view.readToEnd : StreamStep κ Bytes)
      (view.moved shift).readToEnd :=
  (abreast_look fun _ _ agree =>
    congrArg₂ (· + ·) (weight_agree agree clear) (turns_agree agree clear)).bind fun _ =>
      drain_abreast clear _

theorem approach_abreast (clear : view.touches.Disjoint apart) (terminator : Bytes) :
    Abreast shift apart view.touches (view.approach terminator : StreamStep κ Approach)
      ((view.moved shift).approach terminator) := by
  refine (fillBuf_abreast clear _).bind fun peeked => ?_
  cases Approach.of terminator peeked with
  | ended => exact .pure _
  | ahead => exact .pure _
  | reached => exact (consume_abreast clear _).bind fun _ => .pure _

/-! ### One operation alone -/

theorem readExact_kept (view : View) (count : Int) (streams : Streams κ) :
    Streams.Kept view.touches streams ((view.readExact count).run streams).2 :=
  (readExact_abreast (List.disjoint_nil_right view.touches) count).kept streams

theorem readToEnd_kept (view : View) (streams : Streams κ) :
    Streams.Kept view.touches streams (view.readToEnd.run streams).2 :=
  (readToEnd_abreast (List.disjoint_nil_right view.touches)).kept streams

theorem approach_kept (view : View) (terminator : Bytes) (streams : Streams κ) :
    Streams.Kept view.touches streams ((view.approach terminator).run streams).2 :=
  (approach_abreast (List.disjoint_nil_right view.touches) terminator).kept streams

end View

/-! ### Readers -/

/-- An operation through a view. Of a plain view it sees what the view has to give, and spends some of
it; of any view it sees the layers. -/
structure View.Reader [ChunkCodec κ] {α : Type} (step : View → StreamStep κ α)
    (answer : Bytes → Except Fault α) (cost : Bytes → Nat) : Prop where
  plain : ∀ {view : View} {streams : Streams κ}, view.Plain streams → ∃ after,
    (step view).run streams = (answer (view.content streams), after) ∧
      view.Spends (cost (view.content streams)) streams after
  abreast : ∀ {shift : Nat → Nat} {apart : List Layer} {view : View}, view.touches.Disjoint apart →
    Abreast shift apart view.touches (step view) (step (view.moved shift))

namespace View

variable [ChunkCodec κ]

theorem readExact_reader (count : Nat) :
    Reader (κ := κ) (fun view => view.readExact count) (exactly count) (spentBy count) :=
  ⟨fun plain => readExact_plain plain count, fun clear => readExact_abreast clear count⟩

theorem readToEnd_reader : Reader (κ := κ) readToEnd .ok List.length :=
  ⟨readToEnd_plain, readToEnd_abreast⟩

theorem approach_reader {terminator : Bytes} (filled : terminator ≠ []) :
    Reader (κ := κ) (fun view => view.approach terminator)
      (fun content => .ok (Approach.of terminator content)) fun content =>
        if Approach.of terminator content = .reached then terminator.length else 0 :=
  ⟨fun plain => approach_plain plain filled, fun clear => approach_abreast clear terminator⟩

theorem Reader.kept {α : Type} {step : View → StreamStep κ α} {answer : Bytes → Except Fault α}
    {cost : Bytes → Nat} (reader : Reader step answer cost) (view : View) (streams : Streams κ) :
    Streams.Kept view.touches streams ((step view).run streams).2 := by
  have abreast : Abreast id [] view.touches (step view) (step (view.moved id)) :=
    reader.abreast (List.disjoint_nil_right view.touches)
  rw [moved_id] at abreast
  exact abreast.kept streams

end View

end WireProgram
