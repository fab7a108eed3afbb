/-
**Views at their end stay there.**

Whatever is read through a view, with any codec and any argument: a layer that is at its end is left as
it is, and from a cursor bytes go only at its front. So a stream that was read to its end is known from
then on, also to those who read it by another name. The main definitions and statements:

* `View.Made` and `Layout.Stands`, views whose layers stand where they were opened;
* `View.Persists`, what every operation leaves of a layer, and `Contract.persisting`;
* `Layout.Persists.sets`, a change of one layer;
* `View.consume_persists`, `View.fillBuf_persists`, `View.readExact_persists`,
  `View.readToEnd_persists` and `View.approach_persists`, one for each operation.
-/

import WireProgram.Proofs.Codec.Steady
import WireProgram.Proofs.Stream.Change
import WireProgram.Proofs.Stream.Effect

namespace WireProgram

/-! ### Buffers -/

namespace Buffer

variable {buffer middle after : Buffer}

theorem atEnd_iff : buffer.atEnd = true ↔ buffer.ended = true ∧ buffer.content = [] := by
  unfold atEnd
  rw [Bool.and_eq_true, List.isEmpty_iff]

/-- A buffer that lost some of its bytes at the front. -/
def Drops (before after : Buffer) : Prop :=
  ∃ count ≤ before.content.length, after = before.drop count

theorem Drops.refl (buffer : Buffer) : buffer.Drops buffer :=
  ⟨0, Nat.zero_le _, rfl⟩

theorem Drops.trans (first : buffer.Drops middle) (second : middle.Drops after) :
    buffer.Drops after := by
  obtain ⟨count, within, rfl⟩ := first
  obtain ⟨more, within', rfl⟩ := second
  have left := length_drop within
  refine ⟨count + more, by omega, ?_⟩
  simp only [drop, List.drop_drop, Nat.add_assoc]

theorem Drops.ended (drops : buffer.Drops after) : after.ended = buffer.ended := by
  obtain ⟨count, -, rfl⟩ := drops
  rfl

/-- A buffer at its end has nothing to lose. -/
theorem Drops.of_atEnd (drops : buffer.Drops after) (atEnd : buffer.atEnd = true) :
    after = buffer := by
  obtain ⟨count, within, rfl⟩ := drops
  rw [(atEnd_iff.mp atEnd).2] at within
  obtain rfl := Nat.le_zero.mp within
  rfl

end Buffer

/-- Nothing is pulled into a buffer that has ended. -/
theorem Source.pullUntil_ended {source : Source} (ended : source.buffer.ended = true)
    (driver own : Execution) (want : Nat) : source.pullUntil driver own want = (.ok (), source) := by
  have full : (source.buffer.ended || source.buffer.holds want) = true := by
    rw [ended, Bool.true_or]
  unfold pullUntil
  rw [pullFrom.eq_def]
  exact if_pos full

/-! ### Views that stand -/

/-- A layer with a codec, whichever it is. -/
def Transformed.Steady (layer : Transformed Codec) : Prop :=
  ∃ codec, layer.codec = some codec ∧ codec.Steady

/-- The topmost layer of a view was opened. A cursor has all of its bytes from the start. -/
def View.Made (streams : Streams Codec) : View → Prop
  | .source _ cell => cell < streams.sources.size
  | .cursor cell => cell < streams.cursors.size ∧ (streams.cursors.get cell).buffer.ended = true
  | .take cell _ => cell < streams.bounds.size
  | .transformed cell _ => cell < streams.transforms.size ∧ (streams.transforms.get cell).Steady

/-- A view whose layers were opened and stand where they were. -/
def Layout.Stands (layout : Layout false) (streams : Streams Codec) (view : View) : Prop :=
  ∀ layer ∈ view.layers, layout.Places layer ∧ layer.Made streams

section Views

variable {layout : Layout false} {streams base before middle after : Streams Codec}
  {view other parent : View} {cell : Nat} {own : Execution}

theorem View.Kept.made (kept : view.Kept before after) (grown : Streams.Grown before after)
    (made : view.Made before) : view.Made after := by
  cases view with
  | source own cell => exact Nat.lt_of_lt_of_le made grown.sources
  | cursor cell =>
    refine ⟨Nat.lt_of_lt_of_le made.1 grown.cursors, ?_⟩
    rw [show after.cursors.get cell = before.cursors.get cell from kept]
    exact made.2
  | take cell parent => exact Nat.lt_of_lt_of_le made grown.bounds
  | transformed cell parent =>
    refine ⟨Nat.lt_of_lt_of_le made.1 grown.transforms, ?_⟩
    rw [show after.transforms.get cell = before.transforms.get cell from kept]
    exact made.2

theorem View.Made.inside (made : view.Made streams) : view.Inside streams := by
  cases view with
  | source own cell => exact made
  | take cell parent => exact made
  | _ => exact made.1

namespace Layout.Stands

theorem here (stands : layout.Stands streams view) : layout.Places view ∧ view.Made streams :=
  stands view view.mem_layers

theorem of_mem (stands : layout.Stands streams view) (member : other ∈ view.layers) :
    layout.Stands streams other :=
  fun layer inside => stands layer (View.layers_subset member inside)

theorem take_parent (stands : layout.Stands streams (.take cell view)) :
    layout.Stands streams view :=
  stands.of_mem (List.mem_cons_of_mem _ view.mem_layers)

theorem transformed_parent (stands : layout.Stands streams (.transformed cell view)) :
    layout.Stands streams view :=
  stands.of_mem (List.mem_cons_of_mem _ view.mem_layers)

theorem cursor (inside : cell < streams.cursors.size)
    (ended : (streams.cursors.get cell).buffer.ended = true) :
    layout.Stands streams (.cursor cell) := by
  intro layer member
  obtain rfl := List.mem_singleton.mp member
  exact ⟨trivial, inside, ended⟩

end Layout.Stands

/-- A view in order stands. -/
theorem Layout.Fits.stands (fits : layout.Fits streams view) : layout.Stands streams view := by
  intro layer member
  obtain ⟨places, sound⟩ := fits layer member
  refine ⟨places, ?_⟩
  cases layer with
  | source own cell => exact sound.1
  | cursor cell => exact sound
  | take cell parent => exact sound
  | transformed cell parent =>
    obtain ⟨inside, codec, same, sane, -⟩ := sound
    exact ⟨inside, codec, same, .of_sane sane⟩

/-! ### What is left of a layer -/

/-- What every operation leaves of the topmost layer of a view: at its end it is as it was, and a cursor
lost bytes at its front only. -/
def View.Persists (before after : Streams Codec) : View → Prop
  | .source _ cell => (before.sources.get cell).buffer.atEnd = true →
    (after.sources.get cell).buffer = (before.sources.get cell).buffer
  | .cursor cell => (before.cursors.get cell).buffer.Drops (after.cursors.get cell).buffer
  | .take cell parent => (View.take cell parent).atEnd before = true →
    after.bounds.get cell = before.bounds.get cell
  | .transformed cell _ => (before.transforms.get cell).buffer.atEnd = true →
    (after.transforms.get cell).buffer = (before.transforms.get cell).buffer

namespace View

theorem Kept.persists (kept : view.Kept before after) : view.Persists before after := by
  cases view with
  | source own cell => exact fun _ => congrArg Source.buffer kept
  | cursor cell =>
    rw [Persists, show after.cursors.get cell = before.cursors.get cell from kept]
    exact .refl _
  | take cell parent => exact fun _ => kept
  | transformed cell parent => exact fun _ => congrArg Transformed.buffer kept

theorem Persists.kept (persists : view.Persists before middle) (kept : view.Kept middle after) :
    view.Persists before after := by
  cases view with
  | source own cell => exact fun atEnd => (congrArg Source.buffer kept).trans (persists atEnd)
  | cursor cell =>
    rw [Persists, show after.cursors.get cell = middle.cursors.get cell from kept]
    exact persists
  | take cell parent => exact fun atEnd => Eq.trans kept (persists atEnd)
  | transformed cell parent =>
    exact fun atEnd => (congrArg Transformed.buffer kept).trans (persists atEnd)

/-- **A view at its end stays there.** -/
theorem atEnd_of_persists (persists : ∀ layer ∈ view.layers, layer.Persists before after)
    (atEnd : view.atEnd before = true) : view.atEnd after = true := by
  induction view with
  | source own cell =>
    have same := persists _ (View.mem_layers _) atEnd
    unfold View.atEnd at atEnd ⊢
    rwa [same]
  | cursor cell =>
    have same := (persists _ (View.mem_layers _)).of_atEnd atEnd
    unfold View.atEnd at atEnd ⊢
    rwa [same]
  | take cell parent hypothesis =>
    have same : after.bounds.get cell = before.bounds.get cell :=
      persists _ (View.mem_layers _) atEnd
    unfold View.atEnd at atEnd ⊢
    rw [Bool.or_eq_true] at atEnd ⊢
    rw [same]
    exact atEnd.imp_right (hypothesis fun layer member =>
      persists layer (List.mem_cons_of_mem _ member))
  | transformed cell parent =>
    have same := persists _ (View.mem_layers _) atEnd
    unfold View.atEnd at atEnd ⊢
    rwa [same]

/-- Nothing more goes through a view at its end. -/
theorem Persists.position (persists : view.Persists before after)
    (atEnd : view.atEnd before = true) : view.position after = view.position before := by
  cases view with
  | source own cell => exact congrArg Buffer.position (persists atEnd)
  | cursor cell => exact congrArg Buffer.position (persists.of_atEnd atEnd)
  | take cell parent => exact congrArg Bound.position (persists atEnd)
  | transformed cell parent => exact congrArg Buffer.position (persists atEnd)

theorem Persists.trans (first : ∀ layer ∈ view.layers, layer.Persists before middle)
    (second : view.Persists middle after) : view.Persists before after := by
  have here := first view view.mem_layers
  have atEnd := atEnd_of_persists first
  cases view with
  | source own cell => exact fun ended => (second (atEnd ended)).trans (here ended)
  | cursor cell => exact Buffer.Drops.trans here second
  | take cell parent => exact fun ended => (second (atEnd ended)).trans (here ended)
  | transformed cell parent => exact fun ended => (second (atEnd ended)).trans (here ended)

end View

/-! ### The contract -/

/-- Operations under which every view that stands goes on standing, and no layer at its end is
changed. They may fail in any way. -/
def Contract.persisting : Contract Fault (Streams Codec) (Layout false) where
  later before after := ∀ view, before.2.Stands before.1 view →
    after.2.Stands after.1 view ∧ view.Persists before.1 after.1
  tolerates _ := True
  refl state view stands := ⟨stands, (View.Kept.refl state.1 view).persists⟩
  trans first second view stands := by
    obtain ⟨standsMiddle, -⟩ := first view stands
    obtain ⟨standsAfter, persists⟩ := second view standsMiddle
    exact ⟨standsAfter, .trans (fun layer member => (first layer (stands.of_mem member)).2) persists⟩

/-- What comes later under the contract, no view having been opened. -/
abbrev Layout.Persists (layout : Layout false) (before after : Streams Codec) : Prop :=
  Contract.persisting.later (before, layout) (after, layout)

/-- A view that stands and is at its end stays there, and nothing more goes through it. -/
theorem Contract.persisting.ended {before after : Streams Codec × Layout false}
    (later : Contract.persisting.later before after) (stands : before.2.Stands before.1 view)
    (atEnd : view.atEnd before.1 = true) :
    view.atEnd after.1 = true ∧ view.position after.1 = view.position before.1 :=
  ⟨View.atEnd_of_persists (fun layer member => (later layer (stands.of_mem member)).2) atEnd,
    (later view stands).2.position atEnd⟩

namespace Layout.Persists

theorem refl (layout : Layout false) (streams : Streams Codec) : layout.Persists streams streams :=
  Contract.persisting.refl (streams, layout)

theorem trans (first : layout.Persists before middle) (second : layout.Persists middle after) :
    layout.Persists before after :=
  Contract.persisting.trans first second

theorem stands (persists : layout.Persists before after) (stands : layout.Stands before view) :
    layout.Stands after view :=
  (persists view stands).1

/-- **A change of one layer.** It is judged by where the operation started: there the layer was not at
its end, or the change leaves it as it was there. -/
theorem sets (first : layout.Persists base middle) (sets : Sets layout view middle after)
    (made : view.Made after) (here : view.Persists base after) : layout.Persists base after := by
  intro other stands
  obtain ⟨standsMiddle, persists⟩ := first other stands
  constructor
  · intro layer member
    obtain ⟨places, madeMiddle⟩ := standsMiddle layer member
    refine ⟨places, ?_⟩
    by_cases same : layer = view
    · rw [same]
      exact made
    · exact (sets.kept layer places same).made sets.shape.grown madeMiddle
  · by_cases same : other = view
    · rw [same]
      exact here
    · exact persists.kept (sets.kept other stands.here.1 same)

variable {source : Source} {buffer : Buffer} {bound : Bound} {layer : Transformed Codec}

theorem setSource (first : layout.Persists base middle) (stands : layout.Stands base (.source own cell))
    (calm : (base.sources.get cell).buffer.atEnd = true →
      source.buffer = (base.sources.get cell).buffer) :
    layout.Persists base { middle with sources := middle.sources.set cell source } := by
  obtain ⟨places, inside⟩ := (first.stands stands).here
  refine first.sets (.source source inside places) ?_ fun atEnd => ?_
  · show cell < (middle.sources.set cell source).size
    rw [Table.size_set _ _ _ inside]
    exact inside
  · show ((middle.sources.set cell source).get cell).buffer = _
    rw [Table.get_set_self]
    exact calm atEnd

theorem setCursor (first : layout.Persists base middle) (stands : layout.Stands base (.cursor cell))
    (drops : (base.cursors.get cell).buffer.Drops buffer) :
    layout.Persists base { middle with
      cursors := middle.cursors.set cell { middle.cursors.get cell with buffer := buffer } } := by
  obtain ⟨-, inside, -⟩ := (first.stands stands).here
  have new : (middle.cursors.set cell { middle.cursors.get cell with buffer := buffer }).get cell =
      { middle.cursors.get cell with buffer := buffer } := Table.get_set_self _ _ _
  refine first.sets (.cursor _ inside) ⟨?_, ?_⟩ ?_
  · dsimp only
    rw [Table.size_set _ _ _ inside]
    exact inside
  · dsimp only
    rw [new]
    exact drops.ended.trans stands.here.2.2
  · unfold View.Persists
    dsimp only
    rw [new]
    exact drops

theorem setBound (first : layout.Persists base middle)
    (stands : layout.Stands base (.take cell parent))
    (calm : (View.take cell parent).atEnd base = true → bound = base.bounds.get cell) :
    layout.Persists base { middle with bounds := middle.bounds.set cell bound } := by
  obtain ⟨places, inside⟩ := (first.stands stands).here
  refine first.sets (.bound bound inside places) ?_ fun atEnd => ?_
  · show cell < (middle.bounds.set cell bound).size
    rw [Table.size_set _ _ _ inside]
    exact inside
  · show (middle.bounds.set cell bound).get cell = _
    rw [Table.get_set_self]
    exact calm atEnd

theorem setLayer (first : layout.Persists base middle)
    (stands : layout.Stands base (.transformed cell parent)) (steady : layer.Steady)
    (calm : (base.transforms.get cell).buffer.atEnd = true →
      layer.buffer = (base.transforms.get cell).buffer) :
    layout.Persists base { middle with transforms := middle.transforms.set cell layer } := by
  obtain ⟨places, inside, -⟩ := (first.stands stands).here
  refine first.sets (.transformed layer inside places) ⟨?_, ?_⟩ fun atEnd => ?_
  · show cell < (middle.transforms.set cell layer).size
    rw [Table.size_set _ _ _ inside]
    exact inside
  · show ((middle.transforms.set cell layer).get cell).Steady
    rw [Table.get_set_self]
    exact steady
  · show ((middle.transforms.set cell layer).get cell).buffer = _
    rw [Table.get_set_self]
    exact calm atEnd

/-- What is done with a codec and its buffer, where the view was not at its end. -/
theorem onLayer {α : Type} {act : Transformed Codec → Except Fault α × Transformed Codec} {value : α}
    (first : layout.Persists base middle) (stands : layout.Stands base (.transformed cell parent))
    (ran : (View.onTransformed cell act).run middle = (.ok value, after))
    (steady : (after.transforms.get cell).Steady)
    (unended : (base.transforms.get cell).buffer.ended ≠ true) : layout.Persists base after := by
  obtain ⟨-, rfl⟩ := Prod.mk.inj ran
  dsimp only at steady
  rw [Table.get_set_self] at steady
  exact first.setLayer stands steady fun atEnd => absurd (Buffer.atEnd_iff.mp atEnd).1 unended

end Layout.Persists

/-! ### Operations at the end -/

namespace View

variable {count : Int} {want : Nat} {bytes : Bytes} {value : Unit}

/-- Nothing is done for a view of a codec that has ended. -/
theorem Refills.eq_of_ended {peek : StreamStep Codec Bytes} {drop : Int → StreamStep Codec Unit}
    (refills : Refills cell peek drop want streams after)
    (ended : (streams.transforms.get cell).buffer.ended = true) : after = streams := by
  cases refills with
  | ready => rfl
  | ends unended => exact absurd ended unended
  | finishes unended => exact absurd ended unended
  | feeds unended => exact absurd ended unended

/-- Only no bytes are held at the end. -/
theorem eq_zero_of_held {buffer : Buffer} (natural : 0 ≤ count) (atEnd : buffer.atEnd = true)
    (held : count.toNat ≤ buffer.content.length) : count = 0 := by
  rw [(Buffer.atEnd_iff.mp atEnd).2, List.length_nil] at held
  omega

/-- From a view at its end only no bytes can be dropped. -/
theorem consume_atEnd (stands : layout.Stands streams view) (atEnd : view.atEnd streams = true)
    (ran : (view.consume count).run streams = (.ok value, after)) : count = 0 := by
  obtain ⟨natural, consumes⟩ := consumes_of_consume stands.here.2.inside ran
  clear ran
  induction view generalizing after with
  | source own cell =>
    cases consumes with
    | source held => exact eq_zero_of_held natural atEnd held
  | cursor cell =>
    cases consumes with
    | cursor held => exact eq_zero_of_held natural atEnd held
  | take cell parent hypothesis =>
    cases consumes with
    | take allowed inner =>
      unfold View.atEnd at atEnd
      rw [Bool.or_eq_true, decide_eq_true_iff] at atEnd
      rcases atEnd with used | ended
      · omega
      · exact hypothesis stands.take_parent ended
          (consumes_of_consume stands.take_parent.here.2.inside inner).2
  | transformed cell parent =>
    cases consumes with
    | transformed held => exact eq_zero_of_held natural atEnd held

/-- From a view at its end only no bytes can be read. -/
theorem readExact_atEnd (atEnd : view.atEnd streams = true)
    (ran : (view.readExact count).run streams = (.ok bytes, after)) : count = 0 := by
  have natural := readExact_nonneg ran
  induction view generalizing bytes after with
  | source own cell =>
    cases fetches_of_readExact ran with
    | source pulled held =>
      rw [Source.pullUntil_ended (Buffer.atEnd_iff.mp atEnd).1] at pulled
      cases pulled
      exact eq_zero_of_held natural atEnd held
  | cursor cell =>
    cases fetches_of_readExact ran with
    | cursor held => exact eq_zero_of_held natural atEnd held
  | take cell parent hypothesis =>
    cases fetches_of_readExact ran with
    | nothing none => exact none
    | take allowed inner =>
      unfold View.atEnd at atEnd
      rw [Bool.or_eq_true, decide_eq_true_iff] at atEnd
      rcases atEnd with used | ended
      · omega
      · exact hypothesis ended inner
  | transformed cell parent =>
    cases fetches_of_readExact ran with
    | transformed refills held =>
      rw [refills.eq_of_ended (Buffer.atEnd_iff.mp atEnd).1] at held
      exact eq_zero_of_held natural atEnd held

/-! ### The operations -/

/-- **Dropping** through a bound: a bound at its end lets only no bytes be dropped, and so it stays as it
was when the operation started. -/
theorem consume_persists (stands : layout.Stands streams view)
    (ran : (view.consume count).run streams = (.ok value, after)) :
    layout.Persists streams after := by
  have start := Layout.Persists.refl layout streams
  induction view generalizing after with
  | source own cell =>
    cases (consumes_of_consume stands.here.2.inside ran).2 with
    | source held => exact start.setSource stands (Buffer.Drops.of_atEnd ⟨_, held, rfl⟩)
  | cursor cell =>
    cases (consumes_of_consume stands.here.2.inside ran).2 with
    | cursor held => exact start.setCursor stands ⟨_, held, rfl⟩
  | take cell parent hypothesis =>
    have atEnd := fun ended => consume_atEnd stands ended ran
    cases (consumes_of_consume stands.here.2.inside ran).2 with
    | take allowed inner =>
      have first := hypothesis stands.take_parent inner
      refine first.setBound stands fun ended => ?_
      rw [atEnd ended, (first _ stands).2 ended, Int.sub_zero]
      rfl
  | transformed cell parent =>
    cases (consumes_of_consume stands.here.2.inside ran).2 with
    | transformed held =>
      exact start.setLayer stands stands.here.2.2 (Buffer.Drops.of_atEnd ⟨_, held, rfl⟩)

/-- What a codec gave for some bytes, and its state after that. -/
theorem feedCodec_eq_ok {given : Bytes} {used : Int} (steady : (streams.transforms.get cell).Steady)
    (ran : (feedCodec cell given).run streams = (.ok (bytes, used), after)) :
    ∃ codec next, (streams.transforms.get cell).codec = some codec ∧ codec.Steady ∧
      codec.feed given = (.ok (bytes, used), next) ∧
      after.transforms.get cell = { streams.transforms.get cell with codec := some next } := by
  obtain ⟨codec, same, steady⟩ := steady
  obtain ⟨fed, rfl⟩ := Prod.mk.inj ran
  dsimp only at fed ⊢
  rw [same] at fed
  rw [Table.get_set_self, same]
  exact ⟨codec, _, rfl, steady, Prod.ext fed rfl, rfl⟩

/-- What a codec gave at the end of its input. -/
theorem finishCodec_eq_ok (steady : (streams.transforms.get cell).Steady)
    (ran : (finishCodec cell).run streams = (.ok bytes, after)) :
    ∃ codec next, (streams.transforms.get cell).codec = some codec ∧ codec.Steady ∧
      codec.finish = (.ok bytes, next) ∧ after.transforms.get cell =
        { streams.transforms.get cell with codec := some next, finished := true } := by
  obtain ⟨codec, same, steady⟩ := steady
  obtain ⟨finished, rfl⟩ := Prod.mk.inj ran
  dsimp only at finished ⊢
  rw [same] at finished
  rw [Table.get_set_self, same]
  exact ⟨codec, _, rfl, steady, Prod.ext finished rfl, rfl⟩

theorem feedCodec_steady {given : Bytes} {used : Int} (filled : given ≠ [])
    (steady : (streams.transforms.get cell).Steady)
    (ran : (feedCodec cell given).run streams = (.ok (bytes, used), after)) :
    (after.transforms.get cell).Steady := by
  obtain ⟨codec, next, -, steady, fed, same⟩ := feedCodec_eq_ok steady ran
  have paid := codec.feed_paid steady filled
  rw [fed] at paid
  rw [same]
  exact ⟨next, rfl, paid.1⟩

theorem finishCodec_steady (steady : (streams.transforms.get cell).Steady)
    (ran : (finishCodec cell).run streams = (.ok bytes, after)) :
    (after.transforms.get cell).Steady := by
  obtain ⟨codec, next, -, steady, finished, same⟩ := finishCodec_eq_ok steady ran
  have paid := codec.finish_paid steady
  rw [finished] at paid
  rw [same]
  exact ⟨next, rfl, paid.1⟩

/-- A layer keeps its codec. -/
theorem onTransformed_steady {α : Type} {act : Transformed Codec → Except Fault α × Transformed Codec}
    {value : α} (steady : (streams.transforms.get cell).Steady)
    (ran : (onTransformed cell act).run streams = (.ok value, after))
    (same : ∀ layer, (act layer).2.codec = layer.codec) : (after.transforms.get cell).Steady := by
  obtain ⟨codec, held, steady⟩ := steady
  obtain ⟨-, rfl⟩ := Prod.mk.inj ran
  dsimp only
  rw [Table.get_set_self]
  exact ⟨codec, (same _).trans held, steady⟩

section Rounds

variable {peek : StreamStep Codec Bytes} {peeked finished fed dropped delivered : Streams Codec}
  {given : Bytes} {used : Int}

/-- The end of the input of a codec adds to a layer that has not ended. -/
theorem lastRound_persists (stands : layout.Stands streams (.transformed cell parent))
    (unended : (streams.transforms.get cell).buffer.ended ≠ true)
    (first : layout.Persists streams peeked)
    (finishes : (finishCodec cell).run peeked = (.ok bytes, finished))
    (delivers : (deliver cell false bytes).run finished = (.ok (), delivered)) :
    layout.Persists streams delivered := by
  have second := first.onLayer stands finishes
    (finishCodec_steady (first.stands stands).here.2.2 finishes) unended
  exact second.onLayer stands delivers
    (onTransformed_steady (second.stands stands).here.2.2 delivers fun _ => rfl) unended

/-- What a codec is fed adds to a layer that has not ended. -/
theorem feedRound_persists (stands : layout.Stands streams (.transformed cell parent))
    (unended : (streams.transforms.get cell).buffer.ended ≠ true)
    (first : layout.Persists streams peeked) (filled : given ≠ [])
    (feeds : (feedCodec cell given).run peeked = (.ok (bytes, used), fed))
    (drops : (parent.consume used).run fed = (.ok (), dropped))
    (delivers : (deliver cell true bytes).run dropped = (.ok (), delivered)) :
    layout.Persists streams delivered := by
  have second := first.onLayer stands feeds
    (feedCodec_steady filled (first.stands stands).here.2.2 feeds) unended
  have third := second.trans (consume_persists (second.stands stands).transformed_parent drops)
  exact third.onLayer stands delivers
    (onTransformed_steady (third.stands stands).here.2.2 delivers fun _ => rfl) unended

/-- **Feeding a codec** adds to a layer that is not at its end. -/
theorem Refills.persists
    (peeks : ∀ {streams after : Streams Codec} {bytes : Bytes}, layout.Stands streams parent →
      peek.run streams = (.ok bytes, after) → layout.Persists streams after)
    (refills : Refills cell peek parent.consume want streams after)
    (stands : layout.Stands streams (.transformed cell parent)) : layout.Persists streams after := by
  induction refills with
  | ready => exact .refl layout _
  | ends unended ran =>
    exact (Layout.Persists.refl layout _).onLayer stands ran
      (onTransformed_steady stands.here.2.2 ran fun _ => rfl) unended
  | finishes unended _ peek finishes delivers _ hypothesis =>
    have round := lastRound_persists stands unended (peeks stands.transformed_parent peek) finishes
      delivers
    exact round.trans (hypothesis (round.stands stands))
  | feeds unended _ peek filled feeds drops delivers _ hypothesis =>
    have round := feedRound_persists stands unended (peeks stands.transformed_parent peek) filled feeds
      drops delivers
    exact round.trans (hypothesis (round.stands stands))

end Rounds

/-- **Peeking.** -/
theorem fillBuf_persists (stands : layout.Stands streams view)
    (ran : (view.fillBuf want).run streams = (.ok bytes, after)) : layout.Persists streams after := by
  induction view generalizing streams want bytes after with
  | source own cell =>
    cases sees_of_fillBuf ran with
    | source pulled =>
      refine (Layout.Persists.refl layout streams).setSource stands fun ended => ?_
      rw [Source.pullUntil_ended (Buffer.atEnd_iff.mp ended).1] at pulled
      cases pulled
      rfl
  | cursor cell =>
    cases sees_of_fillBuf ran with
    | cursor => exact (Layout.Persists.refl layout streams).setCursor stands (.refl _)
  | take cell parent hypothesis =>
    cases sees_of_fillBuf ran with
    | spent used => exact .refl layout streams
    | take left inner => exact hypothesis stands.take_parent inner
  | transformed cell parent hypothesis =>
    cases sees_of_fillBuf ran with
    | transformed refills => exact refills.persists (fun stands ran => hypothesis stands ran) stands

/-- **Reading exactly so many bytes.** -/
theorem readExact_persists (stands : layout.Stands streams view)
    (ran : (view.readExact count).run streams = (.ok bytes, after)) :
    layout.Persists streams after := by
  have start := Layout.Persists.refl layout streams
  have atEnd : view.atEnd streams = true → count = 0 := fun ended => readExact_atEnd ended ran
  induction view generalizing bytes after with
  | source own cell =>
    cases fetches_of_readExact ran with
    | source pulled held =>
      refine start.setSource stands fun ended => ?_
      rw [Source.pullUntil_ended (Buffer.atEnd_iff.mp ended).1] at pulled
      cases pulled
      exact Buffer.Drops.of_atEnd ⟨_, held, rfl⟩ ended
  | cursor cell =>
    cases fetches_of_readExact ran with
    | cursor held => exact start.setCursor stands ⟨_, held, rfl⟩
  | take cell parent hypothesis =>
    cases fetches_of_readExact ran with
    | nothing none => exact start
    | take allowed inner =>
      have first := hypothesis stands.take_parent inner fun ended => readExact_atEnd ended inner
      refine first.setBound stands fun ended => ?_
      rw [atEnd ended, (first _ stands).2 ended, Int.sub_zero]
      rfl
  | transformed cell parent =>
    cases fetches_of_readExact ran with
    | @transformed _ _ middle refills held =>
      have first := refills.persists (fun stands ran => fillBuf_persists stands ran) stands
      have standsMiddle := first.stands stands
      refine first.trans ((Layout.Persists.refl layout middle).setLayer standsMiddle
        standsMiddle.here.2.2 ?_)
      exact Buffer.Drops.of_atEnd ⟨_, held, rfl⟩

theorem Drains.persists (drains : Drains view streams bytes after)
    (stands : layout.Stands streams view) : layout.Persists streams after := by
  induction drains with
  | ended peeks => exact fillBuf_persists stands peeks
  | piece peeks drops _ hypothesis =>
    have first := fillBuf_persists stands peeks
    have second := first.trans (consume_persists (first.stands stands) drops)
    exact second.trans (hypothesis (second.stands stands))

/-- **Reading to the end.** -/
theorem readToEnd_persists (stands : layout.Stands streams view)
    (ran : view.readToEnd.run streams = (.ok bytes, after)) : layout.Persists streams after :=
  (drains_of_readToEnd ran).persists stands

/-- **Peeking for a terminator,** which is dropped where it stands next. -/
theorem approach_persists {terminator : Bytes} {approach : Approach}
    (stands : layout.Stands streams view)
    (ran : (view.approach terminator).run streams = (.ok approach, after)) :
    layout.Persists streams after := by
  obtain ⟨peeked, middle, peeks, rfl | drops⟩ := approach_eq_ok ran
  · exact fillBuf_persists stands peeks
  · have first := fillBuf_persists stands peeks
    exact first.trans (consume_persists (first.stands stands) drops)

end View

end Views

end WireProgram
