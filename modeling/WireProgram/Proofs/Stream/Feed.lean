/-
**Peeks, feeds and reads by the course of a view.**

A peek shows the front of the course of a view and keeps it, whatever it has to pull and to feed
underneath. The proof goes by the layers of the view: a source pulls one reply, a bound cuts what its
parent shows, and a codec is fed with the pieces of its parent. The main statements:

* `View.refill_run` and `View.prepare_run`, feeding a codec, by the pure loop `Coding.prepare`;
* `View.peeks`, a peek at any view;
* `View.readToEnd_course`, reading to the end.
-/

import WireProgram.Proofs.Stream.Flow

namespace WireProgram.View

variable {κ : Type} [ChunkCodec κ] {streams before after middle : Streams κ} {view parent : View}
  {cell want : Nat}

/-! ### Peeking -/

/-- What a peek does to a view: it holds what was seen, and the same bytes come in the same pieces. -/
structure Peeked (view : View) (bytes : Bytes) (before after : Streams κ) : Prop where
  ready : view.Ready after
  held : view.held after = bytes
  course : view.course after = view.course before
  residue : view.residue after = view.residue before
  /-- A peek that sees nothing sees the end. -/
  atEnd : bytes = [] → view.atEnd after = true
  within : view.Within before after

/-- A view at which every peek shows the front of its course. -/
def Peeks (κ : Type) [ChunkCodec κ] (view : View) : Prop :=
  ∀ streams : Streams κ, view.Ready streams →
    ∃ after, (view.fillBuf 1).run streams = ((view.course streams).front, after) ∧
      ∀ bytes, (view.course streams).front = .ok bytes → view.Peeked bytes streams after

/-- Pulling one piece of a source. -/
theorem pullUntil_course (driver own : Execution) (source : Source) :
    ∃ after, source.pullUntil driver own 1 =
        (((Course.push source.buffer.content (source.later driver own)).front).map fun _ => (),
          after) ∧
      ∀ bytes, (Course.push source.buffer.content (source.later driver own)).front = .ok bytes →
        after.buffer.content = bytes ∧
          Course.push after.buffer.content (after.later driver own) =
            Course.push source.buffer.content (source.later driver own) ∧
          (bytes = [] → after.buffer.ended = true) := by
  obtain ⟨⟨content, ended, position⟩, ⟨pending, pulled⟩⟩ := source
  unfold Source.pullUntil Source.later
  cases content with
  | cons first others =>
    refine ⟨⟨⟨first :: others, ended, position⟩, ⟨pending, pulled⟩⟩, ?_, ?_⟩
    · unfold Source.pullFrom
      rw [if_pos]
      · rfl
      · simp [Buffer.holds, hasAtLeast]
    · rintro bytes ⟨⟩
      exact ⟨rfl, rfl, fun wrong => by cases wrong⟩
  | nil =>
    cases ended with
    | true =>
      refine ⟨⟨⟨[], true, position⟩, ⟨pending, pulled⟩⟩, ?_, ?_⟩
      · unfold Source.pullFrom
        rfl
      · rintro bytes ⟨⟩
        exact ⟨rfl, rfl, fun _ => rfl⟩
    | false =>
      have notYet : ¬((false || Buffer.holds ⟨[], false, position⟩ 1) = true) :=
        Bool.false_ne_true
      by_cases mixed : driver ≠ own
      · refine ⟨⟨⟨[], false, position⟩, ⟨pending, pulled⟩⟩, ?_, ?_⟩
        · unfold Source.pullFrom
          rw [if_neg notYet, if_pos mixed]
          simp only [Bool.false_eq_true, if_false, if_pos mixed]
          rfl
        · intro bytes shown
          simp only [Bool.false_eq_true, if_false, if_pos mixed] at shown
          cases shown
      · simp only [Bool.false_eq_true, if_false, if_neg mixed]
        unfold Source.pullFrom
        rw [if_neg notYet, if_neg mixed]
        cases pending with
        | nil => exact ⟨_, rfl, by rintro bytes ⟨⟩; exact ⟨rfl, rfl, fun _ => rfl⟩⟩
        | cons chunk rest =>
          cases chunk with
          | bytes content =>
            cases content with
            | nil => exact ⟨_, rfl, by rintro bytes ⟨⟩; exact ⟨rfl, rfl, fun _ => rfl⟩⟩
            | cons first others =>
              refine ⟨⟨⟨first :: others, false, position⟩,
                ⟨rest, pulled + (first :: others).length⟩⟩, ?_, ?_⟩
              · unfold Source.pullFrom
                rfl
              · rintro bytes ⟨⟩
                exact ⟨rfl, rfl, fun wrong => by cases wrong⟩
          | absent => exact ⟨_, rfl, fun _ wrong => by cases wrong⟩
          | failure reason => exact ⟨_, rfl, fun _ wrong => by cases wrong⟩

/-! ### Feeding -/

/-- The streams after a codec was fed: the layer is at its end if too little came. -/
structure Filled (cell : Nat) (parent : View) (want : Nat) (coding : Coding κ)
    (before after : Streams κ) : Prop where
  layer : ∃ ended, after.transforms.get cell =
      coding.layer ended (before.transforms.get cell).buffer.position ∧
    (coding.finished = true → coding.held.length < want → ended = true)
  supply : parent.course after = coding.supply
  ready : (View.transformed cell parent).Ready after
  within : (View.transformed cell parent).Within before after

section Feeding

variable {held out given : Bytes} {codec next : κ} {position fuel : Nat} {supply : Course}
  {peekParent : StreamStep κ Bytes} {dropParent : Int → StreamStep κ Unit}

theorem ready_layer (fresh : cell ∉ parent.stages) (ready : parent.Ready streams) (coding : Coding κ)
    {ended : Bool} (past : ended = true → coding.finished = true)
    (greedy : coding.finished = false → ChunkCodec.Greedy coding.codec)
    (layer : streams.transforms.get cell = coding.layer ended position) :
    (View.transformed cell parent).Ready streams := by
  refine ⟨fresh, ready, ?_⟩
  rw [layer]
  exact ⟨past, coding.codec, rfl, greedy⟩

/-- Nothing is fed if enough is held. -/
theorem refill_enough
    (enough : ((streams.transforms.get cell).buffer.ended ||
      (streams.transforms.get cell).buffer.holds want) = true) :
    (refill cell peekParent dropParent want (fuel + 1)).run streams = (.ok (), streams) := by
  rw [refill, run_look_bind, if_pos enough]
  rfl

/-- Nothing is fed if the codec is finished; if too little is held, the view is at its end. -/
theorem refill_finished (want : Nat) (fresh : cell ∉ parent.stages) (ready : parent.Ready streams)
    (layer : streams.transforms.get cell = Coding.layer ⟨held, codec, true, supply⟩ false position)
    (rest : parent.course streams = supply) :
    ∃ after, (refill cell peekParent dropParent want (fuel + 1)).run streams = (.ok (), after) ∧
      Filled cell parent want ⟨held, codec, true, supply⟩ streams after := by
  by_cases enough : want ≤ held.length
  · have holds : ((streams.transforms.get cell).buffer.ended ||
        (streams.transforms.get cell).buffer.holds want) = true := by
      rw [layer]
      exact (Buffer.holds_iff _ _).mpr enough
    refine ⟨streams, refill_enough holds, ⟨false, ?_, ?_⟩, rest,
      ready_layer fresh ready ⟨held, codec, true, supply⟩ (fun wrong => by cases wrong)
        (fun wrong => by cases wrong) layer, .refl _ _⟩
    · rw [layer]
      rfl
    · exact fun _ short => absurd enough (Nat.not_le_of_lt short)
  · have short : ¬((streams.transforms.get cell).buffer.ended ||
        (streams.transforms.get cell).buffer.holds want) = true := by
      rw [layer]
      exact fun holds => enough ((Buffer.holds_iff _ _).mp holds)
    have still := untouched_setLayer fresh streams
      (Coding.layer ⟨held, codec, true, supply⟩ true position)
    have ran : (refill cell peekParent dropParent want (fuel + 1)).run streams = (.ok (),
        { streams with
          transforms := streams.transforms.set cell
            (Coding.layer ⟨held, codec, true, supply⟩ true position) }) := by
      rw [refill, run_look_bind, if_neg short, if_pos (by rw [layer]; rfl)]
      refine run_onTransformed ?_
      rw [layer]
      rfl
    refine ⟨_, ran, ⟨true, ?_, fun _ _ => rfl⟩, still.course.trans rest,
      ready_layer fresh (still.ready ready) ⟨held, codec, true, supply⟩ (fun _ => rfl)
        (fun wrong => by cases wrong)
        (Table.get_set_self _ _ _),
      within_setLayer cell parent streams _⟩
    show Table.get (Table.set streams.transforms cell _) cell = _
    rw [Table.get_set_self, layer]
    rfl

/-- One round: a peek at the parent, and the end of its bytes or a feed with those that are there. -/
theorem refill_round (short : ¬want ≤ held.length)
    (layer : streams.transforms.get cell = Coding.layer ⟨held, codec, false, supply⟩ false position) :
    (refill cell peekParent dropParent want (fuel + 1)).run streams =
      (peekParent >>= fun given => do
        if given.isEmpty then
          let bytes ← finishCodec cell
          deliver cell false bytes
        else
          let (bytes, used) ← feedCodec cell given
          dropParent used
          deliver cell true bytes
        refill cell peekParent dropParent want fuel).run streams := by
  have holds : ¬((streams.transforms.get cell).buffer.ended ||
      (streams.transforms.get cell).buffer.holds want) = true := by
    rw [layer]
    exact fun holds => short ((Buffer.holds_iff _ _).mp holds)
  rw [refill, run_look_bind, if_neg holds, if_neg (by rw [layer]; exact Bool.false_ne_true)]

/-- A change of the layer of a codec alone. -/
structure SetsLayer (cell : Nat) (parent : View) (layer : Transformed κ) (before after : Streams κ) :
    Prop where
  layer : after.transforms.get cell = layer
  still : parent.Untouched before after
  within : (View.transformed cell parent).Within before after

omit [ChunkCodec κ] in
theorem onTransformed_sets {α : Type} {act : Transformed κ → Except Fault α × Transformed κ}
    {layer : Transformed κ} {result : Except Fault α} (fresh : cell ∉ parent.stages)
    (same : act (streams.transforms.get cell) = (result, layer)) :
    ∃ after, (onTransformed cell act).run streams = (result, after) ∧
      SetsLayer cell parent layer streams after :=
  ⟨_, run_onTransformed same, Table.get_set_self _ _ _, untouched_setLayer fresh streams layer,
    within_setLayer cell parent streams layer⟩

/-- Feeding the codec of a layer. -/
theorem feedCodec_sets (given : Bytes) (fresh : cell ∉ parent.stages)
    (layer : streams.transforms.get cell = Coding.layer ⟨held, codec, false, supply⟩ false position) :
    ∃ after, (feedCodec cell given).run streams = ((ChunkCodec.feed codec given).1, after) ∧
      SetsLayer cell parent
        (Coding.layer ⟨held, (ChunkCodec.feed codec given).2, false, supply⟩ false position)
        streams after := by
  refine onTransformed_sets fresh ?_
  rw [layer]
  rfl

/-- Ending the input of the codec of a layer. -/
theorem finishCodec_sets (fresh : cell ∉ parent.stages)
    (layer : streams.transforms.get cell = Coding.layer ⟨held, codec, false, supply⟩ false position) :
    ∃ after, (finishCodec cell).run streams = ((ChunkCodec.finish codec).1, after) ∧
      SetsLayer cell parent
        (Coding.layer ⟨held, (ChunkCodec.finish codec).2, true, supply⟩ false position)
        streams after := by
  refine onTransformed_sets fresh ?_
  rw [layer]
  rfl

/-- Adding what a codec gave. -/
theorem deliver_sets {finished : Bool} (settle : Bool) (out : Bytes) (fresh : cell ∉ parent.stages)
    (layer : streams.transforms.get cell =
      Coding.layer ⟨held, codec, finished, supply⟩ false position) :
    ∃ after, (deliver cell settle out).run streams = (.ok (), after) ∧
      SetsLayer cell parent
        (Coding.layer ⟨held ++ out, codec,
          if settle then ChunkCodec.finished codec else finished, supply⟩ false position)
        streams after := by
  refine onTransformed_sets fresh ?_
  rw [layer]
  cases settle <;> rfl

/-- A layer that holds enough is filled as it is. -/
theorem refill_held (fresh : cell ∉ parent.stages) (ready : parent.Ready streams)
    (greedy : ChunkCodec.Greedy codec) (rest : parent.course streams = supply)
    (layer : streams.transforms.get cell = Coding.layer ⟨held, codec, false, supply⟩ false position)
    (full : want ≤ held.length) :
    ∃ after, (refill cell peekParent dropParent want (fuel + 1)).run streams =
        ((Coding.fill want held codec supply).1, after) ∧
      ((Coding.fill want held codec supply).1 = .ok () →
        Filled cell parent want (Coding.fill want held codec supply).2 streams after) := by
  have holds : ((streams.transforms.get cell).buffer.ended ||
      (streams.transforms.get cell).buffer.holds want) = true := by
    rw [layer]
    exact (Buffer.holds_iff _ _).mpr full
  rw [Coding.fill_enough full]
  refine ⟨streams, refill_enough holds, fun _ => ⟨⟨false, by rw [layer]; rfl,
    fun wrong => by cases wrong⟩, rest, ?_, .refl _ _⟩⟩
  exact ready_layer fresh ready ⟨held, codec, false, supply⟩ (fun wrong => by cases wrong)
    (fun _ => greedy) layer

/-- What was filled later was filled from before. -/
theorem Filled.trans {coding : Coding κ} (later : Filled cell parent want coding middle after)
    (within : (View.transformed cell parent).Within before middle)
    (position : (middle.transforms.get cell).buffer.position =
      (before.transforms.get cell).buffer.position) :
    Filled cell parent want coding before after where
  layer := by
    rw [← position]
    exact later.layer
  supply := later.supply
  ready := later.ready
  within := within.trans later.within

/-- **Feeding a codec** until enough is held, by the loop on courses. -/
theorem refill_run (peeks : parent.Peeks κ) (fresh : cell ∉ parent.stages) (want fuel : Nat)
    (ready : parent.Ready streams) (greedy : ChunkCodec.Greedy codec)
    (rest : parent.course streams = supply)
    (layer : streams.transforms.get cell = Coding.layer ⟨held, codec, false, supply⟩ false position)
    (enough : supply.length + 2 ≤ fuel) :
    ∃ after, (refill cell (parent.fillBuf 1) parent.consume want fuel).run streams =
        ((Coding.fill want held codec supply).1, after) ∧
      ((Coding.fill want held codec supply).1 = .ok () →
        Filled cell parent want (Coding.fill want held codec supply).2 streams after) := by
  obtain ⟨less, rfl⟩ : ∃ less, fuel = less + 1 := ⟨fuel - 1, by omega⟩
  induction supply generalizing streams held codec less with
  | ended =>
    by_cases full : want ≤ held.length
    · exact refill_held fresh ready greedy rest layer full
    obtain ⟨fewer, rfl⟩ : ∃ fewer, less = fewer + 1 :=
      ⟨less - 1, by unfold Course.length at enough; omega⟩
    obtain ⟨peeked, ran, shown⟩ := peeks streams ready
    rw [rest] at ran shown
    obtain ⟨readyPeeked, -, kept, -, -, within⟩ := shown [] rfl
    have layerPeeked := within.transforms cell fresh
    rw [layer] at layerPeeked
    obtain ⟨finished, ends, setsEnd⟩ := finishCodec_sets fresh layerPeeked
    rw [refill_round full layer, run_bind, ran]
    show ∃ after, (finishCodec cell >>= fun bytes => deliver cell false bytes >>= fun _ =>
      refill cell (parent.fillBuf 1) parent.consume want (fewer + 1)).run peeked = _ ∧ _
    rw [run_bind, ends, Coding.fill, if_neg full]
    rcases last : ChunkCodec.finish codec with ⟨fault | bytes, next⟩
    · exact ⟨_, rfl, fun wrong => by cases wrong⟩
    · -- the last bytes are added, and then the loop stops
      rw [last] at setsEnd
      obtain ⟨delivered, adds, sets⟩ := deliver_sets false bytes fresh setsEnd.layer
      have readyLast := sets.still.ready (setsEnd.still.ready readyPeeked)
      have restLast := (sets.still.course.trans setsEnd.still.course).trans (kept.trans rest)
      obtain ⟨after, stops, filled⟩ := refill_finished want fresh readyLast sets.layer restLast
      dsimp only
      rw [run_bind, adds]
      exact ⟨after, stops, fun _ => filled.trans
        (((within.transformed cell).trans setsEnd.within).trans sets.within)
        (by rw [sets.layer, layer]; rfl)⟩
  | failed fault =>
    by_cases full : want ≤ held.length
    · exact refill_held fresh ready greedy rest layer full
    obtain ⟨peeked, ran, shown⟩ := peeks streams ready
    rw [rest] at ran
    rw [refill_round full layer, run_bind, ran, Coding.fill, if_neg full]
    exact ⟨_, rfl, fun wrong => by cases wrong⟩
  | piece first others later hypothesis =>
    by_cases full : want ≤ held.length
    · exact refill_held fresh ready greedy rest layer full
    obtain ⟨fewer, rfl⟩ : ∃ fewer, less = fewer + 1 :=
      ⟨less - 1, by unfold Course.length at enough; omega⟩
    obtain ⟨peeked, ran, shown⟩ := peeks streams ready
    rw [rest] at ran shown
    obtain ⟨readyPeeked, seen, kept, -, -, within⟩ := shown (first :: others) rfl
    have layerPeeked := within.transforms cell fresh
    rw [layer] at layerPeeked
    obtain ⟨fed, feeds, setsFed⟩ := feedCodec_sets (first :: others) fresh layerPeeked
    rw [refill_round full layer, run_bind, ran]
    show ∃ after, (feedCodec cell (first :: others) >>= fun result =>
      parent.consume result.2 >>= fun _ => deliver cell true result.1 >>= fun _ =>
        refill cell (parent.fillBuf 1) parent.consume want (fewer + 1)).run peeked = _ ∧ _
    rw [run_bind, feeds, Coding.fill, if_neg full]
    rcases gave : ChunkCodec.feed codec (first :: others) with ⟨fault | ⟨out, used⟩, next⟩
    · exact ⟨_, rfl, fun wrong => by cases wrong⟩
    · have uses := greedy codec .refl _ _ _ _ (List.cons_ne_nil _ _) gave
      obtain ⟨count, rfl⟩ : ∃ count : Nat, used = count := ⟨used.toNat, by omega⟩
      rw [gave] at setsFed
      have heldFed : parent.held fed = first :: others := setsFed.still.held.trans seen
      have courseFed : parent.course fed = .piece first others later :=
        setsFed.still.course.trans (kept.trans rest)
      have laterFed : parent.later fed = later := later_of_course courseFed heldFed
      obtain ⟨taken, drops, dropped⟩ := consume_course count
        (setsFed.still.ready readyPeeked) (by rw [heldFed]; exact List.cons_ne_nil _ _)
        (by rw [heldFed]; omega)
      have courseTaken := dropped.course
      rw [heldFed, laterFed] at courseTaken
      have layerTaken := (dropped.within.transforms cell fresh).trans setsFed.layer
      obtain ⟨delivered, adds, sets⟩ := deliver_sets true out fresh layerTaken
      have readyLast := sets.still.ready dropped.ready
      have restLast := sets.still.course.trans courseTaken
      have all := (((within.transformed cell).trans setsFed.within).trans
        (dropped.within.transformed cell)).trans sets.within
      have unmoved : (delivered.transforms.get cell).buffer.position =
          (streams.transforms.get cell).buffer.position := by
        rw [sets.layer, layer]
        rfl
      dsimp only
      rw [run_bind, drops]
      dsimp only
      rw [run_bind, adds]
      cases stops : ChunkCodec.finished next with
      | true =>
        have layerLast : delivered.transforms.get cell =
            Coding.layer ⟨held ++ out, next, true,
              (Course.piece first others later).drop count⟩ false position := by
          rw [sets.layer, if_pos rfl, stops]
          rfl
        simp only [if_true, Int.toNat_natCast]
        obtain ⟨after, ended, filled⟩ := refill_finished want fresh readyLast layerLast restLast
        exact ⟨after, ended, fun _ => filled.trans all unmoved⟩
      | false =>
        have layerLast := sets.layer
        simp only [stops, if_true, Bool.false_eq_true, if_false] at layerLast ⊢
        have whole : (first :: others).drop count = [] :=
          List.drop_eq_nil_of_le (by have := uses.2 stops; omega)
        rw [whole] at restLast
        obtain ⟨after, goes, filled⟩ := hypothesis readyLast
          (greedy.goes ⟨_, _, _, List.cons_ne_nil _ _, gave, stops⟩) restLast layerLast fewer
          (by unfold Course.length at enough; omega)
        exact ⟨after, goes, fun fine => (filled fine).trans all unmoved⟩

omit [ChunkCodec κ] in
theorem layer_coding (has : (streams.transforms.get cell).codec = some codec) (supply : Course) :
    streams.transforms.get cell =
      ((streams.transforms.get cell).coding codec supply).layer
        (streams.transforms.get cell).buffer.ended
        (streams.transforms.get cell).buffer.position := by
  unfold Transformed.coding Coding.layer
  rw [← has]

theorem course_transformed (has : (streams.transforms.get cell).codec = some codec) :
    (View.transformed cell parent).course streams =
      ((streams.transforms.get cell).coding codec (parent.course streams)).course := by
  show Course.push _ (Transformed.later _ _) = Course.push _ (Coding.later _)
  unfold Transformed.later Coding.later
  rw [has]
  rfl

theorem Filled.course {coding : Coding κ} (filled : Filled cell parent want coding before after) :
    (View.transformed cell parent).course after = coding.course ∧
      (View.transformed cell parent).held after = coding.held := by
  obtain ⟨ended, layer, -⟩ := filled.layer
  refine ⟨?_, ?_⟩
  · have has : (after.transforms.get cell).codec = some coding.codec := by
      rw [layer]
      rfl
    rw [course_transformed has, layer, filled.supply]
    rfl
  · show (after.transforms.get cell).buffer.content = _
    rw [layer]
    rfl

theorem residue_transformed (has : (streams.transforms.get cell).codec = some codec) :
    (View.transformed cell parent).residue streams =
      ((streams.transforms.get cell).coding codec (parent.course streams)).residue := by
  show Transformed.residue _ _ = _
  unfold Transformed.residue
  rw [has]
  rfl

theorem Filled.residue {coding : Coding κ} (filled : Filled cell parent want coding before after) :
    (View.transformed cell parent).residue after = coding.residue := by
  obtain ⟨ended, layer, -⟩ := filled.layer
  have has : (after.transforms.get cell).codec = some coding.codec := by
    rw [layer]
    rfl
  rw [residue_transformed has, layer, filled.supply]
  rfl

/-- A view that holds nothing after it was asked for something is at its end. -/
theorem Filled.atEnd {coding : Coding κ} (filled : Filled cell parent want coding before after)
    (enough : want ≤ coding.held.length ∨ coding.finished = true) (positive : 0 < want)
    (empty : (View.transformed cell parent).held after = []) :
    (View.transformed cell parent).atEnd after = true := by
  obtain ⟨ended, layer, past⟩ := filled.layer
  have none : coding.held = [] := filled.course.2.symm.trans empty
  rw [none, List.length_nil] at enough past
  have finished := enough.resolve_left (by omega)
  show (after.transforms.get cell).buffer.atEnd = true
  rw [layer, past finished positive]
  unfold Buffer.atEnd Coding.layer
  rw [none]
  rfl

/-- **Preparing** a transformed view, by the loop on courses. -/
theorem prepare_run (peeks : parent.Peeks κ) (ready : (View.transformed cell parent).Ready streams)
    (has : (streams.transforms.get cell).codec = some codec) (want : Nat) :
    let coding := (streams.transforms.get cell).coding codec (parent.course streams)
    ∃ after, (prepare cell parent (parent.fillBuf 1) parent.consume want).run streams =
        ((coding.prepare want).1, after) ∧
      ((coding.prepare want).1 = .ok () →
        Filled cell parent want (coding.prepare want).2 streams after) := by
  obtain ⟨fresh, readyParent, past, codec', has', greedy⟩ := ready
  obtain rfl := Option.some.inj (has.symm.trans has')
  have same := layer_coding has (parent.course streams)
  dsimp only
  unfold prepare
  rw [run_look_bind]
  by_cases enough : ((streams.transforms.get cell).buffer.ended ||
      (streams.transforms.get cell).buffer.holds want) = true
  · rw [if_pos enough]
    have still : ((streams.transforms.get cell).coding codec (parent.course streams)).prepare want =
        (.ok (), (streams.transforms.get cell).coding codec (parent.course streams)) := by
      cases finished : (streams.transforms.get cell).finished with
      | true => exact if_pos finished
      | false =>
        have unended : (streams.transforms.get cell).buffer.ended = false := by
          rw [← Bool.not_eq_true]
          exact fun ended => by rw [past ended] at finished; cases finished
        rw [unended, Bool.false_or, Buffer.holds_iff] at enough
        unfold Coding.prepare Transformed.coding
        rw [finished, if_neg Bool.false_ne_true, Coding.fill_enough enough]
    rw [still]
    refine ⟨streams, rfl, fun _ => ⟨⟨_, same, fun _ short => ?_⟩, rfl,
      ⟨fresh, readyParent, past, codec, has, greedy⟩, .refl _ _⟩⟩
    rw [Bool.or_eq_true, Buffer.holds_iff] at enough
    exact enough.resolve_right (Nat.not_le_of_lt short)
  · have unended : (streams.transforms.get cell).buffer.ended = false := by
      rw [Bool.or_eq_true, not_or, Bool.not_eq_true] at enough
      exact enough.1
    rw [unended] at same
    rw [if_neg enough, run_look_bind]
    unfold Transformed.coding at same ⊢
    cases finished : (streams.transforms.get cell).finished with
    | true =>
      rw [finished] at same
      obtain ⟨after, ran, filled⟩ := refill_finished want fresh readyParent same rfl
      exact ⟨after, ran, fun _ => filled⟩
    | false =>
      rw [finished] at same
      rw [Coding.prepare_wanting]
      refine refill_run peeks fresh want _ readyParent (greedy finished) rfl same ?_
      have turns := parent.length_course_le streams
      omega

end Feeding

/-! ### Reading -/

theorem peeks_source (own : Execution) (cell : Nat) : (View.source own cell).Peeks κ := by
  intro streams _
  obtain ⟨pulled, ran, shown⟩ := pullUntil_course streams.driver own (streams.sources.get cell)
  have course : (View.source own cell).course streams =
      .push (streams.sources.get cell).buffer.content
        ((streams.sources.get cell).later streams.driver own) := rfl
  refine ⟨{ streams with sources := streams.sources.set cell pulled }, ?_, fun bytes front => ?_⟩
  · refine run_onSource ?_
    simp only [Nat.max_self, ran, course]
    cases front : Course.front _ with
    | error fault => rfl
    | ok bytes => exact congrArg (fun held => (Except.ok held, pulled)) (shown bytes front).1
  · obtain ⟨held, same, past⟩ := shown bytes front
    have got : Table.get (Table.set streams.sources cell pulled) cell = pulled :=
      Table.get_set_self _ _ _
    refine ⟨trivial, ?_, ?_, rfl, fun empty => ?_, ⟨rfl, fun _ _ => rfl, fun _ _ => rfl⟩⟩
    · show (Table.get (Table.set streams.sources cell pulled) cell).buffer.content = _
      rw [got, held]
    · show Course.push (Table.get (Table.set streams.sources cell pulled) cell).buffer.content
        ((Table.get (Table.set streams.sources cell pulled) cell).later streams.driver own) = _
      rw [got]
      exact same
    · show (Table.get (Table.set streams.sources cell pulled) cell).buffer.atEnd = true
      rw [got, Buffer.atEnd, held, empty, past empty]
      rfl

theorem peeks_cursor (cell : Nat) : (View.cursor cell).Peeks κ := by
  intro streams ended
  have got : Table.get (Table.set streams.cursors cell (streams.cursors.get cell)) cell =
      streams.cursors.get cell := Table.get_set_self _ _ _
  have held : (View.cursor cell).held { streams with
      cursors := streams.cursors.set cell (streams.cursors.get cell) } =
        (streams.cursors.get cell).buffer.content := congrArg (·.buffer.content) got
  have shown : ((View.cursor cell).course streams).front =
      .ok (streams.cursors.get cell).buffer.content := by
    unfold course later
    show (Course.push (streams.cursors.get cell).buffer.content _).front = _
    cases (streams.cursors.get cell).buffer.content <;> rfl
  refine ⟨_, run_onCursor (by rw [shown]), fun bytes front => ?_⟩
  rw [shown] at front
  obtain rfl := Except.ok.inj front
  refine ⟨?_, held, congrArg (Course.push · .ended) held, rfl, fun empty => ?_,
    ⟨rfl, fun _ _ => rfl, fun _ _ => rfl⟩⟩
  · show (Table.get (Table.set streams.cursors cell _) cell).buffer.ended = true
    rw [got]
    exact ended
  · show (Table.get (Table.set streams.cursors cell _) cell).buffer.atEnd = true
    rw [got, Buffer.atEnd, empty, show _ = true from ended]
    rfl

theorem peeks_take (cell : Nat) (peeks : parent.Peeks κ) : (View.take cell parent).Peeks κ := by
  intro streams ready
  rw [course_take, run_fillBuf_take]
  by_cases spent : (streams.bounds.get cell).left ≤ 0
  · have none : (streams.bounds.get cell).left.toNat = 0 := by omega
    rw [if_pos spent, none, Course.cut_zero]
    refine ⟨streams, rfl, ?_⟩
    rintro bytes ⟨⟩
    refine ⟨ready, ?_, rfl, rfl, fun _ => ?_, .refl _ _⟩
    · show (parent.held streams).take _ = _
      rw [none, List.take_zero]
    · show (decide _ || _) = true
      rw [decide_eq_true spent, Bool.true_or]
  · have positive : 0 < (streams.bounds.get cell).left.toNat := by omega
    have one : min (max 1 1) (streams.bounds.get cell).left.toNat = 1 := by omega
    obtain ⟨after, ran, shown⟩ := peeks streams ready.2
    rw [if_neg spent, one, ran, Course.front_cut positive]
    cases front : (parent.course streams).front with
    | error fault => exact ⟨after, rfl, fun _ wrong => by cases wrong⟩
    | ok available =>
      refine ⟨after, rfl, ?_⟩
      rintro bytes ⟨⟩
      obtain ⟨readyAfter, held, course, -, past, within⟩ := shown available front
      have bound := within.bounds cell ready.1
      refine ⟨⟨ready.1, readyAfter⟩, ?_, ?_, rfl, fun empty => ?_, within.take cell⟩
      · show (parent.held after).take _ = _
        rw [bound, held]
      · rw [course_take, course_take, bound, course]
      · have nothing : available = [] := by
          rcases List.take_eq_nil_iff.mp empty with none | none
          · omega
          · exact none
        show (decide _ || parent.atEnd after) = true
        rw [past nothing, Bool.or_true]

theorem peeks_transformed (cell : Nat) (peeks : parent.Peeks κ) :
    (View.transformed cell parent).Peeks κ := by
  intro streams ready
  obtain ⟨codec, has, -⟩ := ready.2.2.2
  obtain ⟨after, ran, filled⟩ := prepare_run peeks ready has 1
  have one := ((streams.transforms.get cell).coding codec (parent.course streams)).prepare_one
  have enough := ((streams.transforms.get cell).coding codec
    (parent.course streams)).prepare_keeps 1
  rw [course_transformed has]
  refine ⟨after, ?_, ?_⟩
  · unfold fillBuf
    rw [run_bind, Nat.max_self, ran]
    cases prepared : (((streams.transforms.get cell).coding codec
        (parent.course streams)).prepare 1).1 with
    | error fault =>
      rw [prepared] at one
      rw [one]
    | ok done =>
      rw [prepared] at one
      rw [one.2, ← (filled prepared).course.2]
      rfl
  · intro bytes front
    cases prepared : (((streams.transforms.get cell).coding codec
        (parent.course streams)).prepare 1).1 with
    | error fault =>
      rw [prepared] at one
      rw [one] at front
      cases front
    | ok done =>
      rw [prepared] at one enough
      obtain ⟨course, held⟩ := (filled prepared).course
      rw [one.2] at front
      have seen := held.trans (Except.ok.inj front)
      refine ⟨(filled prepared).ready, seen, ?_, ?_, fun empty => ?_, (filled prepared).within⟩
      · rw [course, course_transformed has, one.1]
      · rw [(filled prepared).residue, residue_transformed has, Coding.prepare_residue _ _ prepared]
      · rw [empty] at seen
        exact (filled prepared).atEnd enough.2 Nat.zero_lt_one seen

/-- **Peeking** at any view shows the front of its course, and its bytes still come as they would. -/
theorem peeks (view : View) : view.Peeks κ := by
  induction view with
  | source own cell => exact peeks_source own cell
  | cursor cell => exact peeks_cursor cell
  | take cell parent hypothesis => exact peeks_take cell hypothesis
  | transformed cell parent hypothesis => exact peeks_transformed cell hypothesis

/-- What reading to the end does to a view. -/
structure Drained (view : View) (before after : Streams κ) : Prop where
  ready : view.Ready after
  course : view.course after = .ended
  residue : view.residue after = view.residue before
  atEnd : view.atEnd after = true
  within : view.Within before after

/-- Draining a view gives all bytes of its course; every round takes the first piece. -/
theorem drain_course (fuel : Nat) (ready : view.Ready streams)
    (enough : (view.course streams).length < fuel) :
    ∃ after, (view.drain fuel).run streams = ((view.course streams).whole, after) ∧
      ((view.course streams).fault = none → view.Drained streams after) := by
  induction fuel generalizing streams with
  | zero => omega
  | succ fuel hypothesis =>
    obtain ⟨peeked, ran, shown⟩ := view.peeks streams ready
    rw [drain, run_bind, ran]
    cases course : view.course streams with
    | ended =>
      rw [course] at shown
      obtain ⟨readyPeeked, -, kept, residue, past, within⟩ := shown [] rfl
      exact ⟨peeked, rfl, fun _ => ⟨readyPeeked, kept.trans course, residue, past rfl, within⟩⟩
    | failed fault => exact ⟨peeked, rfl, fun wrong => by cases wrong⟩
    | piece first others later =>
      rw [course] at shown enough
      obtain ⟨readyPeeked, held, kept, residue, -, within⟩ := shown (first :: others) rfl
      obtain ⟨dropped, drops, spent⟩ := consume_course _ readyPeeked
        (by rw [held]; exact List.cons_ne_nil _ _) (Nat.le_refl _)
      have rest : view.course dropped = later := by
        rw [spent.course, List.drop_length]
        exact later_of_course (kept.trans course) held
      obtain ⟨after, drains, stops⟩ := hypothesis spent.ready (by
        rw [rest]
        exact Nat.lt_of_succ_lt_succ enough)
      rw [held] at drops
      rw [rest] at drains stops
      refine ⟨after, ?_, fun sound => ?_⟩
      · show (view.consume (first :: others).length >>= fun _ => view.drain fuel >>= fun rest =>
          pure ((first :: others) ++ rest) : StreamStep κ Bytes).run peeked = _
        rw [run_bind, drops]
        show (view.drain fuel >>= _ : StreamStep κ Bytes).run dropped = _
        rw [run_bind, drains]
        unfold Course.whole
        show _ = (later.fault.elim (Except.ok ((first :: others) ++ later.bytes)) Except.error, after)
        cases later.fault <;> rfl
      · obtain ⟨readyAfter, ends, left, past, inside⟩ := stops sound
        exact ⟨readyAfter, ends, (left.trans spent.residue).trans residue, past,
          (within.trans spent.within).trans inside⟩

/-- **Reading to the end** of a view gives all bytes of its course, or the fault in it. -/
theorem readToEnd_course (ready : view.Ready streams) :
    ∃ after, view.readToEnd.run streams = ((view.course streams).whole, after) ∧
      ((view.course streams).fault = none → view.Drained streams after) := by
  rw [readToEnd, run_look_bind]
  refine drain_course _ ready ?_
  have turns := view.length_course_le streams
  omega

end WireProgram.View
