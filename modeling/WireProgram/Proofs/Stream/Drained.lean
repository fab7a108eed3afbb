/-
**Reading to the end.**

Whatever codecs a view goes through: a peek that sees nothing leaves the view at its end, what is dropped
is counted, and so what a view gives up to its end is what went through it. The main definitions and
statements:

* `Layout.Stands.bound_not_mem` and `Layout.Stands.codec_not_mem`, a layer is not under itself;
* `View.fillBuf_reaches` and `View.consume_reaches`, a peek and what is dropped;
* `View.readToEnd_reaches`, all that is left.
-/

import WireProgram.Proofs.Frugal.Streams
import WireProgram.Proofs.Stream.Abreast
import WireProgram.Proofs.Stream.Persist

namespace WireProgram

variable {layout : Layout false} {streams after : Streams Codec} {view parent : View} {cell : Nat}

/-! ### Layers under a layer -/

theorem View.touches_eq (view : View) : view.touches = view.layers.map View.top := by
  induction view with
  | source own cell => rfl
  | cursor cell => rfl
  | take cell parent hypothesis => exact congrArg (Layer.bound cell :: ·) hypothesis
  | transformed cell parent hypothesis => exact congrArg (Layer.codec cell :: ·) hypothesis

namespace Layout.Stands

/-- A bound stands over one view only, and so not over itself. -/
theorem bound_not_mem (stands : layout.Stands streams (.take cell parent)) :
    .bound cell ∉ parent.touches := by
  intro member
  rw [View.touches_eq, List.mem_map] at member
  obtain ⟨layer, inside, top⟩ := member
  cases layer with
  | take other grand =>
    obtain rfl : other = cell := Layer.bound.inj top
    have above : layout.bounds other = grand := (stands.take_parent _ inside).1
    obtain rfl : grand = parent := above.symm.trans stands.here.1
    exact View.take_not_mem_layers _ _ inside
  | _ => cases top

/-- A codec stands over one view only, and so not over itself. -/
theorem codec_not_mem (stands : layout.Stands streams (.transformed cell parent)) :
    .codec cell ∉ parent.touches := by
  intro member
  rw [View.touches_eq, List.mem_map] at member
  obtain ⟨layer, inside, top⟩ := member
  cases layer with
  | transformed other grand =>
    obtain rfl : other = cell := Layer.codec.inj top
    have above : layout.transforms other = grand := (stands.transformed_parent _ inside).1
    obtain rfl : grand = parent := above.symm.trans stands.here.1
    exact View.transformed_not_mem_layers _ _ inside
  | _ => cases top

end Layout.Stands

namespace View

variable {count : Int} {want : Nat} {bytes : Bytes} {value : Unit}

/-- What an operation through a view leaves: all layers but its own. -/
theorem fillBuf_kept (view : View) (want : Nat) (streams : Streams Codec) :
    Streams.Kept view.touches streams ((view.fillBuf want).run streams).2 :=
  (fillBuf_abreast (List.disjoint_nil_right view.touches) want).kept streams

theorem consume_kept (view : View) (count : Int) (streams : Streams Codec) :
    Streams.Kept view.touches streams ((view.consume count).run streams).2 :=
  (consume_abreast (List.disjoint_nil_right view.touches) count).kept streams

/-- What an operation leaves as it was is under no layer that it goes through. -/
theorem same_of_kept {α : Type} {step : StreamStep Codec α} {result : Except Fault α} {layer : Layer}
    (kept : Streams.Kept view.touches streams (step.run streams).2)
    (ran : step.run streams = (result, after)) (fresh : layer ∉ view.touches) :
    layer.Same streams after := by
  rw [ran] at kept
  exact kept.same _ fresh

/-! ### Dropping -/

/-- **What is dropped** went through the view. -/
theorem consume_reaches (stands : layout.Stands streams view)
    (ran : (view.consume count).run streams = (.ok value, after)) :
    view.position after = view.position streams + count.toNat := by
  unfold position
  cases (consumes_of_consume stands.here.2.inside ran).2 with
  | source held | cursor held | transformed held =>
    dsimp only
    rw [Table.get_set_self]
    rfl
  | @take cell parent _ allowed inner =>
    have kept := same_of_kept (consume_kept parent count streams) inner stands.bound_not_mem
    dsimp only
    rw [Table.get_set_self]
    exact congrArg (fun bound => bound.position + count.toNat) kept

/-! ### Peeking -/

/-- What is done to a layer, where it only adds to what is held. -/
theorem onTransformed_position {α : Type} {act : Transformed Codec → Except Fault α × Transformed Codec}
    {value : α} (ran : (onTransformed cell act).run streams = (.ok value, after))
    (adds : ∀ layer, (act layer).2.buffer.position = layer.buffer.position) :
    (after.transforms.get cell).buffer.position = (streams.transforms.get cell).buffer.position := by
  obtain ⟨-, rfl⟩ := Prod.mk.inj ran
  dsimp only
  rw [Table.get_set_self]
  exact adds _

/-- **Feeding a codec** goes on until enough is held or the view has ended. -/
theorem Refills.reaches (fresh : .codec cell ∉ parent.touches)
    (refills : Refills cell (parent.fillBuf 1) parent.consume want streams after) :
    (after.transforms.get cell).buffer.position = (streams.transforms.get cell).buffer.position ∧
      ((after.transforms.get cell).buffer.ended ||
        (after.transforms.get cell).buffer.holds want) = true := by
  have peeked : ∀ {streams after : Streams Codec} {bytes : Bytes},
      (parent.fillBuf 1).run streams = (.ok bytes, after) →
        (after.transforms.get cell).buffer.position =
          (streams.transforms.get cell).buffer.position := by
    intro streams after bytes ran
    exact congrArg (fun layer : Transformed Codec => layer.buffer.position)
      (same_of_kept (fillBuf_kept parent 1 streams) ran fresh)
  induction refills with
  | ready enough => exact ⟨rfl, enough⟩
  | ends _ ran =>
    refine ⟨onTransformed_position ran fun _ => rfl, ?_⟩
    obtain ⟨-, rfl⟩ := Prod.mk.inj ran
    dsimp only
    rw [Table.get_set_self]
    rfl
  | finishes _ _ peek finishes delivers _ hypothesis =>
    obtain ⟨last, enough⟩ := hypothesis
    have second := onTransformed_position finishes fun layer => by split <;> rfl
    have third := onTransformed_position delivers fun _ => rfl
    exact ⟨last.trans (third.trans (second.trans (peeked peek))), enough⟩
  | @feeds _ _ fed _ _ _ _ _ used _ _ peek _ feeds drops delivers _ hypothesis =>
    obtain ⟨last, enough⟩ := hypothesis
    have second := onTransformed_position feeds fun layer => by split <;> rfl
    have third := congrArg (fun layer : Transformed Codec => layer.buffer.position)
      (same_of_kept (consume_kept parent used fed) drops fresh)
    have fourth := onTransformed_position delivers fun _ => rfl
    exact ⟨last.trans (fourth.trans (third.trans (second.trans (peeked peek)))), enough⟩

/-- A buffer in which enough was held, and that holds nothing, has ended. -/
theorem atEnd_of_enough {buffer : Buffer} (empty : buffer.content = [])
    (enough : (buffer.ended || buffer.holds (max want 1)) = true) : buffer.atEnd = true := by
  refine Buffer.atEnd_iff.mpr ⟨?_, empty⟩
  rcases Bool.or_eq_true_iff.mp enough with ended | held
  · exact ended
  · have within := (buffer.holds_iff _).mp held
    rw [empty, List.length_nil] at within
    omega

/-- **Peeking** lets nothing through. Where nothing is seen, the view has ended. -/
theorem fillBuf_reaches (stands : layout.Stands streams view)
    (ran : (view.fillBuf want).run streams = (.ok bytes, after)) :
    view.position after = view.position streams ∧ (bytes = [] → view.atEnd after = true) := by
  induction view generalizing want bytes after with
  | source own cell =>
    cases sees_of_fillBuf ran with
    | @source _ _ source pulled =>
      unfold position atEnd
      dsimp only
      rw [Table.get_set_self]
      refine ⟨(congrArg (fun result => result.2.buffer.position) pulled).symm.trans
        (Source.position_pullFrom ..), fun empty => @atEnd_of_enough want _ empty ?_⟩
      rw [Bool.or_eq_true, Buffer.holds_iff]
      refine or_iff_not_imp_left.mpr fun ongoing => ?_
      have same : ((streams.sources.get cell).pullUntil streams.driver own (max want 1)).2 = source :=
        congrArg Prod.snd pulled
      rw [← same] at ongoing ⊢
      exact Source.pullUntil_open _ _ _ _ (congrArg Prod.fst pulled) (Bool.eq_false_iff.mpr ongoing)
  | cursor cell =>
    cases sees_of_fillBuf ran with
    | cursor =>
      unfold position atEnd
      dsimp only
      rw [Table.get_set_self]
      exact ⟨rfl, fun empty => Buffer.atEnd_iff.mpr ⟨stands.here.2.2, empty⟩⟩
  | take cell parent hypothesis =>
    cases sees_of_fillBuf ran with
    | spent used =>
      refine ⟨rfl, fun _ => ?_⟩
      unfold atEnd
      rw [decide_eq_true used, Bool.true_or]
    | take left inner =>
      have kept := same_of_kept (fillBuf_kept parent _ streams) inner stands.bound_not_mem
      refine ⟨congrArg Bound.position kept, fun empty => ?_⟩
      have none := (List.take_eq_nil_iff.mp empty).resolve_left (by omega)
      unfold atEnd
      rw [Bool.or_eq_true]
      exact .inr ((hypothesis stands.take_parent inner).2 none)
  | transformed cell parent hypothesis =>
    cases sees_of_fillBuf ran with
    | transformed refills =>
      obtain ⟨still, enough⟩ := refills.reaches stands.codec_not_mem
      exact ⟨still, fun empty => atEnd_of_enough empty enough⟩

/-! ### Reading -/

/-- **What is read** went through the view. -/
theorem readExact_reaches (stands : layout.Stands streams view)
    (ran : (view.readExact count).run streams = (.ok bytes, after)) :
    view.position after = view.position streams + count.toNat := by
  unfold position
  cases fetches_of_readExact ran with
  | source pulled held =>
    dsimp only
    rw [Table.get_set_self]
    exact congrArg (· + count.toNat) ((congrArg (fun result => result.2.buffer.position) pulled).symm.trans
      (Source.position_pullFrom ..))
  | cursor held =>
    dsimp only
    rw [Table.get_set_self]
    rfl
  | nothing none =>
    rw [none]
    rfl
  | @take cell parent _ _ allowed inner =>
    have kept := same_of_kept (readExact_kept parent count streams) inner stands.bound_not_mem
    dsimp only
    rw [Table.get_set_self]
    exact congrArg (fun bound => bound.position + count.toNat) kept
  | transformed refills held =>
    dsimp only
    rw [Table.get_set_self]
    exact congrArg (· + count.toNat) (refills.reaches stands.codec_not_mem).1

/-! ### Reading to the end -/

theorem Drains.reaches (drains : Drains view streams bytes after)
    (stands : layout.Stands streams view) :
    view.position after = view.position streams + bytes.length ∧ view.atEnd after = true := by
  induction drains with
  | ended peeks =>
    obtain ⟨still, ended⟩ := fillBuf_reaches stands peeks
    exact ⟨still, ended rfl⟩
  | piece peeks drops _ hypothesis =>
    obtain ⟨first, -⟩ := fillBuf_reaches stands peeks
    have standsPeeked := (fillBuf_persists stands peeks).stands stands
    have second := consume_reaches standsPeeked drops
    obtain ⟨third, atEnd⟩ := hypothesis ((consume_persists standsPeeked drops).stands standsPeeked)
    refine ⟨?_, atEnd⟩
    rw [third, second, first, Int.toNat_natCast, List.length_append, Nat.add_assoc]

/-- **All that a view gives up to its end** went through it. -/
theorem readToEnd_reaches (stands : layout.Stands streams view)
    (ran : view.readToEnd.run streams = (.ok bytes, after)) :
    view.position after = view.position streams + bytes.length ∧ view.atEnd after = true :=
  (drains_of_readToEnd ran).reaches stands

end View

end WireProgram
