/-
**Whatever codecs run, no view gains.**

What is read or dropped through a view is taken from what the views under it can still give, and a codec
is paid for what it gives. So an operation that does not fail shortens every view that shares a layer with
its own, if it changes it at all. The main definitions and statements:

* `View.Pays`, an operation by which no layer of a view gains, and `View.Pays.advances`, what it does to
  all other views;
* `View.consume_pays`, `View.fillBuf_pays`, `View.readExact_pays`, `View.readToEnd_pays` and
  `View.approach_pays`, one for each operation.
-/

import WireProgram.Proofs.Stream.Drained
import WireProgram.Proofs.Stream.Passage

namespace WireProgram

variable {layout : Layout false} {streams before middle after : Streams Codec}
  {view other parent : View} {cell : Nat}

/-! ### Layers that are left alone -/

theorem View.Kept.of_same (same : view.top.Same before after) : view.Kept before after := by
  cases view <;> exact same

/-- A view none of whose layers is touched. -/
theorem View.Still.of_kept {layers : List Layer} (kept : Streams.Kept layers before after)
    (apart : ∀ layer ∈ view.touches, layer ∉ layers) : view.Still before after := by
  intro layer member
  refine .of_same (kept.same _ (apart _ ?_))
  rw [View.touches_eq]
  exact List.mem_map_of_mem member

theorem Streams.Kept.of_bound (bound : Bound) :
    Streams.Kept [.bound cell] streams { streams with bounds := streams.bounds.set cell bound } := by
  refine ⟨rfl, fun layer free => ?_, Table.size_le_set _ _ _, Nat.le_refl _, fun _ => rfl⟩
  cases layer with
  | bound other =>
    show (streams.bounds.set cell bound).get other = _
    rw [Table.get_set, if_neg fun same => free (List.mem_singleton.mpr (congrArg _ same))]
  | _ => rfl

theorem Streams.Kept.of_codec (layer : Transformed Codec) :
    Streams.Kept [.codec cell] streams
      { streams with transforms := streams.transforms.set cell layer } := by
  refine ⟨rfl, fun layer free => ?_, Nat.le_refl _, Nat.le_refl _, fun _ => rfl⟩
  cases layer with
  | codec other =>
    show (streams.transforms.set cell _).get other = _
    rw [Table.get_set, if_neg fun same => free (List.mem_singleton.mpr (congrArg _ same))]
  | _ => rfl

/-! ### Operations by which no view gains -/

namespace View

/-- An operation by which no layer of a view gains. -/
def Pays (before after : Streams Codec) (view : View) : Prop :=
  ∀ layer ∈ view.layers, layer.Advances before after

namespace Pays

theorem here (pays : view.Pays before after) : view.Advances before after :=
  pays view view.mem_layers

theorem trans (first : view.Pays before middle) (second : view.Pays middle after) :
    view.Pays before after :=
  fun layer member => (first layer member).trans (second layer member)

theorem of_still (still : view.Still before after) : view.Pays before after := fun _ member =>
  Still.advances fun _ inside => still _ (layers_subset member inside)

theorem take (pays : parent.Pays before after)
    (here : (View.take cell parent).Advances before after) :
    (View.take cell parent).Pays before after := by
  intro layer member
  rcases List.mem_cons.mp member with rfl | member
  · exact here
  · exact pays layer member

theorem transformed (pays : parent.Pays before after)
    (here : (View.transformed cell parent).Advances before after) :
    (View.transformed cell parent).Pays before after := by
  intro layer member
  rcases List.mem_cons.mp member with rfl | member
  · exact here
  · exact pays layer member

/-- **What an operation through one view does to another one.** -/
theorem advances (pays : view.Pays before after) (kept : Streams.Kept view.touches before after)
    (standsView : layout.Stands before view) (stands : layout.Stands before other) :
    other.Advances before after := by
  -- a layer that is touched and stands is one of the view
  have apart : ∀ {layer : View}, layout.Stands before layer → layer ∉ view.layers →
      layer.Kept before after := by
    intro layer standsLayer outside
    refine .of_same (kept.same _ fun member => ?_)
    rw [View.touches_eq, List.mem_map] at member
    obtain ⟨touched, inside, same⟩ := member
    have places := (standsLayer.here).1
    have places' := (standsView touched inside).1
    cases layer with
    | source own cell =>
      cases touched <;> cases same
      exact outside (places'.symm.trans places ▸ inside)
    | cursor cell =>
      cases touched <;> cases same
      exact outside inside
    | take cell parent =>
      cases touched <;> cases same
      exact outside (places'.symm.trans places ▸ inside)
    | transformed cell parent =>
      cases touched <;> cases same
      exact outside (places'.symm.trans places ▸ inside)
  induction other with
  | source own cell =>
    by_cases member : View.source own cell ∈ view.layers
    · exact pays _ member
    · exact Still.advances fun layer inside => List.mem_singleton.mp inside ▸ apart stands member
  | cursor cell =>
    by_cases member : View.cursor cell ∈ view.layers
    · exact pays _ member
    · exact Still.advances fun layer inside => List.mem_singleton.mp inside ▸ apart stands member
  | take cell parent hypothesis =>
    by_cases member : View.take cell parent ∈ view.layers
    · exact pays _ member
    · exact (apart stands member).advances (.inl rfl) (hypothesis stands.take_parent).budget
  | transformed cell parent hypothesis =>
    by_cases member : View.transformed cell parent ∈ view.layers
    · exact pays _ member
    · exact (apart stands member).advances (.inr rfl) (hypothesis stands.transformed_parent).budget

end Pays

/-! ### Dropping -/

variable {own : Execution} {count : Int} {want : Nat} {bytes : Bytes} {value : Unit}

/-- What a source pulls. -/
theorem draws_of_pulled {source : Source}
    (pulled : (streams.sources.get cell).pullUntil streams.driver own want = (.ok (), source)) :
    Source.Draws (streams.sources.get cell) source := by
  have draws := (@Source.pullUntil_excused false streams.driver own want (streams.sources.get cell)
    (absurd · Bool.false_ne_true)).2
  rwa [pulled] at draws

/-- What a source pulls and drops. -/
theorem pays_source {source : Source} (draws : Source.Draws (streams.sources.get cell) source)
    {buffer : Buffer} {dropped : Nat} (within : dropped ≤ source.buffer.content.length)
    (same : buffer = source.buffer.drop dropped) :
    (View.source own cell).Pays streams
      { streams with sources := streams.sources.set cell { source with buffer := buffer } } := by
  intro layer member
  obtain rfl := List.mem_singleton.mp member
  have position := draws.position
  have total := draws.total
  have length := Buffer.length_drop within
  subst same
  refine ⟨?_, ?_⟩
  · unfold View.position
    dsimp only
    rw [Table.get_set_self]
    show _ ≤ source.buffer.position + dropped
    omega
  · unfold View.position budget
    dsimp only
    rw [Table.get_set_self]
    show source.buffer.position + dropped +
      ((source.buffer.drop dropped).content.length + source.input.remaining) ≤ _
    omega

/-- What a cursor drops. -/
theorem pays_cursor {buffer : Buffer} (drops : (streams.cursors.get cell).buffer.Drops buffer) :
    (View.cursor cell).Pays streams { streams with
      cursors := streams.cursors.set cell { streams.cursors.get cell with buffer := buffer } } := by
  intro layer member
  obtain rfl := List.mem_singleton.mp member
  obtain ⟨dropped, within, rfl⟩ := drops
  have length := Buffer.length_drop within
  refine ⟨?_, ?_⟩
  · unfold View.position
    dsimp only
    rw [Table.get_set_self]
    exact Nat.le_add_right _ _
  · unfold View.position budget
    dsimp only
    rw [Table.get_set_self]
    show (streams.cursors.get cell).buffer.position + dropped +
      ((streams.cursors.get cell).buffer.drop dropped).content.length ≤ _
    omega

/-- An operation on the parent of a bounded view, then so many bytes off the bound. -/
theorem pays_take (stands : layout.Stands streams (.take cell parent))
    (pays : parent.Pays streams middle)
    (reached : parent.position middle = parent.position streams + count.toNat) (natural : 0 ≤ count)
    (allowed : count ≤ (streams.bounds.get cell).left)
    (kept : middle.bounds.get cell = streams.bounds.get cell)
    (same : after = { middle with
      bounds := middle.bounds.set cell
        ⟨(middle.bounds.get cell).left - count, (middle.bounds.get cell).position + count.toNat⟩ }) :
    (View.take cell parent).Pays streams after := by
  have still : parent.Still middle after := by
    rw [same]
    exact .of_kept (.of_bound _) fun layer member free =>
      stands.bound_not_mem (List.mem_singleton.mp free ▸ member)
  have bound : after.bounds.get cell =
      ⟨(streams.bounds.get cell).left - count, (streams.bounds.get cell).position + count.toNat⟩ := by
    rw [same, ← kept]
    exact Table.get_set_self _ _ _
  have above := pays.trans (.of_still still)
  have given := (still parent parent.mem_layers).position
  refine above.take ⟨?_, ?_⟩
  · show (streams.bounds.get cell).position ≤ (after.bounds.get cell).position
    rw [bound]
    exact Nat.le_add_right _ _
  · have total := above.here.total
    show (after.bounds.get cell).position +
        min (after.bounds.get cell).left.toNat (parent.budget after) ≤
      (streams.bounds.get cell).position +
        min (streams.bounds.get cell).left.toNat (parent.budget streams)
    rw [bound]
    dsimp only
    omega

/-- What a codec gave is dropped. -/
theorem pays_transformed (stands : layout.Stands streams (.transformed cell parent)) {buffer : Buffer}
    (drops : (streams.transforms.get cell).buffer.Drops buffer) :
    (View.transformed cell parent).Pays streams { streams with
      transforms := streams.transforms.set cell { streams.transforms.get cell with buffer := buffer } } := by
  obtain ⟨dropped, within, rfl⟩ := drops
  have length := Buffer.length_drop within
  have still := Still.of_kept (@Streams.Kept.of_codec streams cell
    { streams.transforms.get cell with buffer := (streams.transforms.get cell).buffer.drop dropped })
    fun layer member free => stands.codec_not_mem (List.mem_singleton.mp free ▸ member)
  have budget := still.same.1
  refine (Pays.of_still still).transformed ⟨?_, ?_⟩
  · unfold View.position
    dsimp only
    rw [Table.get_set_self]
    exact Nat.le_add_right _ _
  · unfold View.position View.budget
    dsimp only
    rw [Table.get_set_self, budget]
    show (streams.transforms.get cell).buffer.position + dropped +
      (_ + (streams.transforms.get cell).allowance (parent.budget streams)) ≤ _
    dsimp only
    omega

/-- **Dropping.** -/
theorem consume_pays (stands : layout.Stands streams view)
    (ran : (view.consume count).run streams = (.ok value, after)) : view.Pays streams after := by
  obtain ⟨natural, -⟩ := consumes_of_consume stands.here.2.inside ran
  induction view generalizing after with
  | source own cell =>
    cases (consumes_of_consume stands.here.2.inside ran).2 with
    | source held => exact pays_source (.refl _) held rfl
  | cursor cell =>
    cases (consumes_of_consume stands.here.2.inside ran).2 with
    | cursor held => exact pays_cursor ⟨_, held, rfl⟩
  | take cell parent hypothesis =>
    cases (consumes_of_consume stands.here.2.inside ran).2 with
    | take allowed inner =>
      exact pays_take stands (hypothesis stands.take_parent inner)
        (consume_reaches stands.take_parent inner) natural allowed
        (same_of_kept (consume_kept parent count streams) inner stands.bound_not_mem) rfl
  | transformed cell parent =>
    cases (consumes_of_consume stands.here.2.inside ran).2 with
    | transformed held => exact pays_transformed stands ⟨_, held, rfl⟩

/-! ### Peeking -/

/-- The views under a codec do not notice what is done to it. -/
theorem still_onTransformed {α : Type} {act : Transformed Codec → Except Fault α × Transformed Codec}
    {result : Except Fault α} (fresh : .codec cell ∉ parent.touches)
    (ran : (onTransformed cell act).run streams = (result, after)) : parent.Still streams after := by
  obtain ⟨-, rfl⟩ := Prod.mk.inj ran
  exact .of_kept (.of_codec _) fun layer member free => fresh (List.mem_singleton.mp free ▸ member)

/-- What a codec gave was in reserve, or it was paid for by the view under it. -/
theorem pays_given {codec next : Codec} {finished : Bool} (above : parent.Pays streams after)
    (held : (streams.transforms.get cell).codec = some codec)
    (unfinished : (streams.transforms.get cell).finished = false)
    (layer : after.transforms.get cell =
      ⟨(streams.transforms.get cell).buffer.append bytes, some next, finished⟩)
    (paid : bytes.length +
        (if finished then 0 else next.reserve + ChunkCodec.gain Codec * parent.budget after) ≤
      codec.reserve + ChunkCodec.gain Codec * parent.budget streams) :
    (View.transformed cell parent).Pays streams after := by
  have before : (streams.transforms.get cell).allowance (parent.budget streams) =
      codec.reserve + ChunkCodec.gain Codec * parent.budget streams := by
    unfold Transformed.allowance
    rw [unfinished, held]
    rfl
  refine above.transformed ⟨?_, ?_⟩
  · show (streams.transforms.get cell).buffer.position ≤ (after.transforms.get cell).buffer.position
    rw [layer]
    exact Nat.le_refl _
  · show (after.transforms.get cell).buffer.position +
        ((after.transforms.get cell).buffer.content.length +
          (after.transforms.get cell).allowance (parent.budget after)) ≤
      (streams.transforms.get cell).buffer.position +
        ((streams.transforms.get cell).buffer.content.length +
          (streams.transforms.get cell).allowance (parent.budget streams))
    rw [layer, before]
    show (streams.transforms.get cell).buffer.position +
        (((streams.transforms.get cell).buffer.content ++ bytes).length +
          (if finished then 0 else next.reserve + ChunkCodec.gain Codec * parent.budget after)) ≤ _
    rw [List.length_append]
    omega

section Rounds

variable {peeked finished fed dropped delivered : Streams Codec} {given : Bytes} {used : Int}

/-- The end of the input of a codec gives what was in reserve. -/
theorem lastRound_pays (stands : layout.Stands streams (.transformed cell parent))
    (unfinished : (streams.transforms.get cell).finished = false)
    (pays : parent.Pays streams peeked)
    (kept : peeked.transforms.get cell = streams.transforms.get cell)
    (finishes : (finishCodec cell).run peeked = (.ok bytes, finished))
    (delivers : (deliver cell false bytes).run finished = (.ok (), delivered)) :
    (View.transformed cell parent).Pays streams delivered := by
  have fresh := stands.codec_not_mem
  have still := still_onTransformed fresh finishes
  have still' := still_onTransformed fresh delivers
  obtain ⟨codec, next, held, steady, ended, same⟩ :=
    finishCodec_eq_ok (kept.symm ▸ stands.here.2.2) finishes
  have paid := codec.finish_paid steady
  rw [ended] at paid
  rw [kept] at held same
  have layer : delivered.transforms.get cell =
      ⟨(streams.transforms.get cell).buffer.append bytes, some next, true⟩ := by
    obtain ⟨-, rfl⟩ := Prod.mk.inj delivers
    dsimp only
    rw [Table.get_set_self, same]
    rfl
  exact pays_given ((pays.trans (.of_still still)).trans (.of_still still')) held unfinished layer
    (Nat.le_trans paid.2 (Nat.le_add_right _ _))

/-- What a codec gives is paid for by what it was fed. -/
theorem feedRound_pays (stands : layout.Stands streams (.transformed cell parent))
    (unfinished : (streams.transforms.get cell).finished = false)
    (pays : parent.Pays streams peeked)
    (kept : peeked.transforms.get cell = streams.transforms.get cell) (filled : given ≠ [])
    (feeds : (feedCodec cell given).run peeked = (.ok (bytes, used), fed))
    (drops : (parent.consume used).run fed = (.ok (), dropped))
    (standsFed : layout.Stands fed parent)
    (delivers : (deliver cell true bytes).run dropped = (.ok (), delivered)) :
    (View.transformed cell parent).Pays streams delivered := by
  have fresh := stands.codec_not_mem
  have still := still_onTransformed fresh feeds
  have still' := still_onTransformed fresh delivers
  have spent := consume_pays standsFed drops
  have reached := consume_reaches standsFed drops
  obtain ⟨codec, next, held, steady, took, same⟩ :=
    feedCodec_eq_ok (kept.symm ▸ stands.here.2.2) feeds
  have paid := codec.feed_paid steady filled
  rw [took] at paid
  rw [kept] at held same
  have keptFed : dropped.transforms.get cell = fed.transforms.get cell :=
    same_of_kept (consume_kept parent used fed) drops fresh
  have layer : delivered.transforms.get cell =
      ⟨(streams.transforms.get cell).buffer.append bytes, some next, next.finished⟩ := by
    obtain ⟨-, rfl⟩ := Prod.mk.inj delivers
    dsimp only
    rw [Table.get_set_self, keptFed, same]
    rfl
  refine pays_given ((pays.trans (.of_still still)).trans (spent.trans (.of_still still'))) held
    unfinished layer ?_
  -- what the codec used is no longer to be had from the view under it
  have less : used.toNat + parent.budget delivered ≤ parent.budget streams := by
    have total := spent.here.total
    have peek := pays.here.budget
    rw [still'.same.1]
    rw [still.same.1] at total
    omega
  obtain ⟨natural, -⟩ := consumes_of_consume standsFed.here.2.inside drops
  have more := Nat.mul_le_mul_left (ChunkCodec.gain Codec) less
  have covered := paid.2 natural
  rw [Nat.mul_add] at more
  dsimp only at covered
  split
  · omega
  · omega

/-- **Feeding a codec** takes from the view under it what it adds to the layer. -/
theorem Refills.pays
    (peeks : ∀ {streams after : Streams Codec} {bytes : Bytes}, layout.Stands streams parent →
      (parent.fillBuf 1).run streams = (.ok bytes, after) → parent.Pays streams after)
    (refills : Refills cell (parent.fillBuf 1) parent.consume want streams after)
    (stands : layout.Stands streams (.transformed cell parent)) :
    (View.transformed cell parent).Pays streams after := by
  have kept : ∀ {streams after : Streams Codec} {bytes : Bytes},
      layout.Stands streams (.transformed cell parent) →
        (parent.fillBuf 1).run streams = (.ok bytes, after) →
          after.transforms.get cell = streams.transforms.get cell :=
    fun stands ran => same_of_kept (fillBuf_kept parent 1 _) ran stands.codec_not_mem
  induction refills with
  | ready => exact .of_still fun layer _ => .refl _ layer
  | ends _ ran =>
    have still := still_onTransformed stands.codec_not_mem ran
    obtain ⟨-, rfl⟩ := Prod.mk.inj ran
    refine (Pays.of_still still).transformed ⟨?_, ?_⟩
    · unfold View.position
      dsimp only
      rw [Table.get_set_self]
    · unfold View.position View.budget
      dsimp only
      rw [Table.get_set_self, still.same.1]
      exact Nat.le_refl _
  | finishes unended unfinished peek finishes delivers _ hypothesis =>
    have standsParent := stands.transformed_parent
    have persists := lastRound_persists stands unended (fillBuf_persists standsParent peek) finishes
      delivers
    have round := lastRound_pays stands unfinished (peeks standsParent peek) (kept stands peek) finishes
      delivers
    exact round.trans (hypothesis (persists.stands stands))
  | feeds unended unfinished peek filled feeds drops delivers _ hypothesis =>
    have standsParent := stands.transformed_parent
    have first := fillBuf_persists standsParent peek
    have persists := feedRound_persists stands unended first filled feeds drops delivers
    have second := first.onLayer stands feeds
      (feedCodec_steady filled (first.stands stands).here.2.2 feeds) unended
    have round := feedRound_pays stands unfinished (peeks standsParent peek) (kept stands peek) filled
      feeds drops (second.stands standsParent) delivers
    exact round.trans (hypothesis (persists.stands stands))

end Rounds

/-- **Peeking.** -/
theorem fillBuf_pays (stands : layout.Stands streams view)
    (ran : (view.fillBuf want).run streams = (.ok bytes, after)) : view.Pays streams after := by
  induction view generalizing streams want bytes after with
  | source own cell =>
    cases sees_of_fillBuf ran with
    | source pulled => exact pays_source (draws_of_pulled pulled) (Nat.zero_le _) rfl
  | cursor cell =>
    cases sees_of_fillBuf ran with
    | cursor => exact pays_cursor (.refl _)
  | take cell parent hypothesis =>
    cases sees_of_fillBuf ran with
    | spent used => exact .of_still fun layer _ => .refl _ layer
    | take left inner =>
      have above := hypothesis stands.take_parent inner
      have same : (View.take cell parent).Kept streams after :=
        same_of_kept (fillBuf_kept parent _ streams) inner stands.bound_not_mem
      exact above.take (same.advances (.inl rfl) above.here.budget)
  | transformed cell parent hypothesis =>
    cases sees_of_fillBuf ran with
    | transformed refills => exact refills.pays (fun stands ran => hypothesis stands ran) stands

/-! ### Reading -/

/-- **Reading exactly so many bytes.** -/
theorem readExact_pays (stands : layout.Stands streams view)
    (ran : (view.readExact count).run streams = (.ok bytes, after)) : view.Pays streams after := by
  have natural := readExact_nonneg ran
  induction view generalizing bytes after with
  | source own cell =>
    cases fetches_of_readExact ran with
    | source pulled held => exact pays_source (draws_of_pulled pulled) held rfl
  | cursor cell =>
    cases fetches_of_readExact ran with
    | cursor held => exact pays_cursor ⟨_, held, rfl⟩
  | take cell parent hypothesis =>
    cases fetches_of_readExact ran with
    | nothing none => exact .of_still fun layer _ => .refl _ layer
    | take allowed inner =>
      exact pays_take stands (hypothesis stands.take_parent inner)
        (readExact_reaches stands.take_parent inner) natural allowed
        (same_of_kept (readExact_kept parent count streams) inner stands.bound_not_mem) rfl
  | transformed cell parent =>
    cases fetches_of_readExact ran with
    | transformed refills held =>
      have first := refills.persists (fun stands ran => fillBuf_persists stands ran) stands
      have pays := refills.pays (fun stands ran => fillBuf_pays stands ran) stands
      exact pays.trans (pays_transformed (first.stands stands) ⟨_, held, rfl⟩)

theorem Drains.pays (drains : Drains view streams bytes after)
    (stands : layout.Stands streams view) : view.Pays streams after := by
  induction drains with
  | ended peeks => exact fillBuf_pays stands peeks
  | piece peeks drops _ hypothesis =>
    have standsPeeked := (fillBuf_persists stands peeks).stands stands
    have standsDropped := (consume_persists standsPeeked drops).stands standsPeeked
    exact ((fillBuf_pays stands peeks).trans (consume_pays standsPeeked drops)).trans
      (hypothesis standsDropped)

/-- **Reading to the end.** -/
theorem readToEnd_pays (stands : layout.Stands streams view)
    (ran : view.readToEnd.run streams = (.ok bytes, after)) : view.Pays streams after :=
  (drains_of_readToEnd ran).pays stands

/-- **Peeking for a terminator,** which is dropped where it stands next. -/
theorem approach_pays {terminator : Bytes} {approach : Approach} (stands : layout.Stands streams view)
    (ran : (view.approach terminator).run streams = (.ok approach, after)) :
    view.Pays streams after := by
  obtain ⟨peeked, middle, peeks, rfl | drops⟩ := approach_eq_ok ran
  · exact fillBuf_pays stands peeks
  · have standsPeeked := (fillBuf_persists stands peeks).stands stands
    exact (fillBuf_pays stands peeks).trans (consume_pays standsPeeked drops)

end View

end WireProgram
