/-
**Reading through a view keeps to its budget.**

An operation on a view that is in order has an excuse if it fails, no view gains anything by it, and
a loop that is bounded by what a view can still give does not run out of its bound. The main
statements:

* `View.consume_excused`, dropping what is held;
* `View.refill_excused`, feeding a codec until enough is held;
* `View.fillBuf_excused`, `View.readExact_excused` and `View.readToEnd_excused`, one for each operation.
-/

import WireProgram.Proofs.Fault
import WireProgram.Proofs.Stream.Change

namespace WireProgram

/-! ### Pulling -/

theorem Input.remaining_cons (chunk : Chunk) (rest : List Chunk) (pulled : Nat) :
    Input.remaining ⟨chunk :: rest, pulled⟩ = chunk.size + Input.remaining ⟨rest, pulled⟩ := rfl

/-- A pull that fails is excused, and a source gains nothing by it. -/
theorem Source.pullFrom_excused {strict : Bool} (driver own : Execution) (want : Nat)
    (pending : List Chunk) (buffer : Buffer) (pulled : Nat)
    (answers : strict = true → own = driver ∧ (own = .blocking ∨ Chunk.absent ∉ pending)) :
    Ends (pullFrom driver own want pending buffer pulled).1 (fun _ => True)
        (fun fault => fault.Excused strict) ∧
      Draws ⟨buffer, ⟨pending, pulled⟩⟩ (pullFrom driver own want pending buffer pulled).2 := by
  have shorter : ∀ {chunk : Chunk} {rest : List Chunk}, Chunk.absent ∉ chunk :: rest →
      Chunk.absent ∉ rest := fun absent member => absent (List.mem_cons_of_mem _ member)
  have dropped : ∀ {chunk : Chunk} {rest : List Chunk} {buffer after : Buffer} {pulled : Nat},
      after.content = buffer.content → after.position = buffer.position →
        Draws ⟨buffer, ⟨chunk :: rest, pulled⟩⟩ ⟨after, ⟨rest, pulled⟩⟩ := by
    intro chunk rest buffer after pulled content position
    refine ⟨position, ?_, shorter⟩
    show after.content.length + _ ≤ _
    rw [content, Input.remaining_cons]
    exact Nat.add_le_add_left (Nat.le_add_left _ _) _
  fun_induction pullFrom driver own want pending buffer pulled with
  | case1 => exact ⟨trivial, rfl, Nat.le_refl _, id⟩
  | case2 pending buffer pulled short mixed =>
    refine ⟨?_, rfl, Nat.le_refl _, id⟩
    cases strict with
    | false => exact id
    | true => exact absurd (answers rfl).1.symm mixed
  | case3 => exact ⟨trivial, rfl, Nat.le_refl _, id⟩
  | case4 => exact ⟨trivial, dropped rfl rfl⟩
  | case5 buffer pulled short alike later content filled hypothesis =>
    obtain ⟨ends, draws⟩ := hypothesis fun strict => (answers strict).imp_right (Or.imp_right shorter)
    refine ⟨ends, draws.position, Nat.le_trans draws.total ?_, fun absent =>
      draws.answers (shorter absent)⟩
    have joined : (buffer.append content).content.length =
        buffer.content.length + content.length := List.length_append
    have total : Input.remaining ⟨.bytes content :: later, pulled⟩ =
        content.length + Input.remaining ⟨later, pulled⟩ := rfl
    have same : Input.remaining ⟨later, pulled + content.length⟩ =
        Input.remaining ⟨later, pulled⟩ := rfl
    dsimp only
    omega
  | case6 buffer pulled short alike later =>
    refine ⟨?_, dropped rfl rfl⟩
    by_cases blocking : driver = .blocking
    · rw [if_pos blocking]
      exact Fault.excused strict rfl
    · rw [if_neg blocking]
      cases strict with
      | false => exact id
      | true =>
        rcases (answers rfl).2 with same | never
        · exact absurd ((answers rfl).1.symm.trans same) blocking
        · exact absurd (List.mem_cons_self ..) never
  | case7 => exact ⟨Fault.excused strict rfl, dropped rfl rfl⟩

theorem Source.pullUntil_excused {strict : Bool} (driver own : Execution) (want : Nat)
    (source : Source) (answers : strict = true → own = driver ∧
      (own = .blocking ∨ Chunk.absent ∉ source.input.pending)) :
    Ends (source.pullUntil driver own want).1 (fun _ => True) (fun fault => fault.Excused strict) ∧
      Draws source (source.pullUntil driver own want).2 :=
  pullFrom_excused driver own want source.input.pending source.buffer source.input.pulled answers

/-! ### Dropping -/

/-- A read from a buffer falls short or takes what was asked for. -/
theorem Buffer.read_cases (buffer : Buffer) (count : Nat) :
    (count ≤ buffer.content.length ∧
        buffer.read count = (.ok (buffer.content.take count), buffer.drop count)) ∨
      buffer.read count = (.error (.decode (.shortRead count buffer.content.length)), buffer) := by
  by_cases within : count ≤ buffer.content.length
  · exact Or.inl ⟨within, buffer.read_held count within⟩
  · exact Or.inr (buffer.read_short count (by omega))

namespace View

variable {strict : Bool} {layout : Layout strict} {streams : Streams Codec} {view : View}

/-- **Dropping** what is held works, and as much is counted. -/
theorem consume_excused (fits : layout.Fits streams view) {count : Nat} (positive : 0 < count)
    (within : count ≤ (view.held streams).length) :
    ∃ after, (view.consume count).run streams = (.ok (), after) ∧
      Moves layout view view streams after ∧
      view.position after = view.position streams + count := by
  induction view with
  | source own cell =>
    exact ⟨_, run_onSource (by simp only [Buffer.consume_held _ _ within]),
      Moves.dropSource fits (.refl _) within rfl⟩
  | cursor cell =>
    exact ⟨_, run_onCursor (Buffer.consume_held _ _ within), Moves.dropCursor fits within rfl⟩
  | take cell parent hypothesis =>
    have cut : ((View.take cell parent).held streams).length =
        min (streams.bounds.get cell).left.toNat (parent.held streams).length := List.length_take
    rw [cut] at within
    obtain ⟨-, inside⟩ := fits.here
    obtain ⟨middle, same, moves, spent⟩ := hypothesis fits.take_parent (by omega)
    have room : ¬((count : Int) < 0 ∨ (streams.bounds.get cell).left < count) := by omega
    refine ⟨_, ?_, moves.spend fits (Nat.le_of_eq spent.symm) (by omega) rfl⟩
    rw [run_consume_take, if_neg room, Table.set_get _ _ inside, same]
    simp only [Bound.spend, Int.toNat_natCast]
  | transformed cell parent hypothesis =>
    obtain ⟨placed, inside, -⟩ := fits.here
    exact ⟨_, run_onTransformed (by simp only [Buffer.consume_held _ _ within]),
      Moves.dropLayer (.transformed _ inside placed) fits within (Table.get_set_self _ _ _)⟩

/-! ### Feeding a codec -/

section Codecs

variable {cell : Nat} {parent : View}

theorem onTransformed_excused {α : Type} (placed : layout.transforms cell = parent)
    (inside : cell < streams.transforms.size)
    (act : Transformed Codec → Except Fault α × Transformed Codec) :
    Leads (onTransformed cell act) streams
      (fun value after => (act (streams.transforms.get cell)).1 = .ok value ∧
        after.transforms.get cell = (act (streams.transforms.get cell)).2 ∧
        Sets layout (.transformed cell parent) streams after)
      fun fault _ => (act (streams.transforms.get cell)).1 = .error fault := by
  rcases same : act (streams.transforms.get cell) with ⟨fault | value, layer⟩
  · exact Leads.of_error (run_onTransformed same) rfl
  · exact Leads.of_ok (run_onTransformed same)
      ⟨rfl, Table.get_set_self _ _ _, .transformed layer inside placed⟩

/-- The end of the input of a codec. -/
theorem finishCodec_excused (fits : layout.Fits streams (.transformed cell parent)) :
    Leads (finishCodec cell) streams
      (fun bytes after => ∃ codec, (streams.transforms.get cell).codec = some codec ∧ codec.Sane ∧
        bytes.length ≤ codec.reserve ∧ after.transforms.get cell =
          { streams.transforms.get cell with codec := some codec, finished := true } ∧
        Sets layout (.transformed cell parent) streams after)
      fun fault _ => fault.Excused strict := by
  obtain ⟨placed, inside, codec, held, sane, -⟩ := fits.here
  have ends := Codec.finish_bounded sane
  refine (onTransformed_excused placed inside _).mono ?_ ?_
  · rintro bytes after ⟨same, layer, sets⟩
    rw [held] at same layer
    obtain ⟨within, still⟩ := ends.ok same
    refine ⟨codec, held, sane, within, ?_, sets⟩
    rw [layer]
    exact congrArg (fun codec => { streams.transforms.get cell with
      codec := some codec, finished := true }) still
  · intro fault _ same
    rw [held] at same
    exact Fault.excused strict (ends.error same)

/-- A feed of a codec that is not finished. -/
theorem feedCodec_excused (fits : layout.Fits streams (.transformed cell parent))
    (unfinished : (streams.transforms.get cell).finished = false) {given : Bytes}
    (nonempty : given ≠ []) :
    Leads (feedCodec cell given) streams
      (fun result after => ∃ codec next, ∃ used : Nat,
        (streams.transforms.get cell).codec = some codec ∧ next.Sane ∧ result.2 = used ∧
        0 < used ∧ used ≤ given.length ∧ result.1.length + next.reserve ≤
          codec.reserve + ChunkCodec.gain Codec * used ∧
        after.transforms.get cell = { streams.transforms.get cell with codec := some next } ∧
        Sets layout (.transformed cell parent) streams after)
      fun fault _ => fault.Excused strict := by
  obtain ⟨placed, inside, codec, held, sane, waits⟩ := fits.here
  have ends := Codec.feed_bounded sane (waits unfinished) nonempty
  refine (onTransformed_excused placed inside _).mono ?_ ?_
  · rintro result after ⟨same, layer, sets⟩
    rw [held] at same layer
    obtain ⟨saneNext, used, counted, positive, within, paid⟩ := ends.ok same
    exact ⟨codec, _, used, held, saneNext, counted, positive, within, paid, layer, sets⟩
  · intro fault _ same
    rw [held] at same
    exact Fault.excused strict (ends.error same)

/-- The number of rounds that feeding a codec takes at most. Every feed uses up a byte of the parent;
then the codec ends, and the view ends. -/
def rounds (streams : Streams Codec) (cell : Nat) (parent : View) : Nat :=
  if (streams.transforms.get cell).finished then 1 else parent.budget streams + 2

/-- The round in which a codec is finished: what it gives is paid for by its reserve. -/
theorem finish_round {rest : StreamStep Codec Unit} {good : Unit → Streams Codec → Prop}
    (fits : layout.Fits streams (.transformed cell parent))
    (unfinished : (streams.transforms.get cell).finished = false)
    (next : ∀ after, Moves layout (.transformed cell parent) (.transformed cell parent) streams after →
      (after.transforms.get cell).finished = true →
        Leads rest after good fun fault _ => fault.Excused strict) :
    Leads (finishCodec cell >>= fun bytes => deliver cell false bytes >>= fun _ => rest) streams
      good fun fault _ => fault.Excused strict := by
  obtain ⟨placed, inside, -⟩ := fits.here
  have fresh := transformed_not_mem_layers cell parent
  refine (finishCodec_excused fits).bind ?_
  rintro bytes middle ⟨codec, held, sane, within, layer, first⟩
  have insideMiddle : cell < middle.transforms.size := first.shape.transforms.symm ▸ inside
  have delivered := onTransformed_excused placed insideMiddle fun layer =>
    ((.ok (), { layer with buffer := layer.buffer.append bytes }) :
      Except Fault Unit × Transformed Codec)
  refine (delivered.mono (fun _ _ => id) fun _ _ wrong => by cases wrong).bind ?_
  rintro - after ⟨-, settled, second⟩
  rw [layer] at settled
  refine next after (((first.moves fresh).trans (second.moves fresh)).settleLayer fits ?_ ?_ ?_) ?_
  · rw [settled]
    exact ⟨codec, rfl, sane, nofun⟩
  · rw [settled]
    exact Nat.le_refl _
  · have joined : ((streams.transforms.get cell).buffer.append bytes).content.length =
        (streams.transforms.get cell).buffer.content.length + bytes.length :=
      List.length_append
    have reserve : ChunkCodec.reserve codec = codec.reserve := rfl
    rw [settled]
    unfold Transformed.allowance
    rw [if_pos rfl, unfinished, if_neg Bool.false_ne_true, held]
    show (streams.transforms.get cell).buffer.position + _ ≤ _
    dsimp only [Option.elim]
    omega
  · rw [settled]

/-- What a layer gained from a feed is paid for by what its parent lost. -/
theorem allowance_feed {layer fed : Transformed Codec} {codec next : Codec}
    {bytes : Bytes} {used less more : Nat} (unfinished : layer.finished = false)
    (held : layer.codec = some codec)
    (paid : bytes.length + next.reserve ≤ codec.reserve + ChunkCodec.gain Codec * used)
    (supply : less + used ≤ more) (same : fed.codec = some next) :
    bytes.length + fed.allowance less ≤ layer.allowance more := by
  have scaled : ChunkCodec.gain Codec * less + ChunkCodec.gain Codec * used ≤
      ChunkCodec.gain Codec * more := by
    rw [← Nat.mul_add]
    exact Nat.mul_le_mul_left _ supply
  have before : layer.allowance more = codec.reserve + ChunkCodec.gain Codec * more := by
    unfold Transformed.allowance
    rw [unfinished, if_neg Bool.false_ne_true, held]
    rfl
  have after : fed.allowance less ≤ next.reserve + ChunkCodec.gain Codec * less := by
    unfold Transformed.allowance
    rw [same]
    split
    · exact Nat.zero_le _
    · exact Nat.le_refl _
  omega

/-- The round in which a codec is fed. It uses up a byte of the parent. -/
theorem feed_round {rest : StreamStep Codec Unit} {good : Unit → Streams Codec → Prop}
    (fits : layout.Fits streams (.transformed cell parent))
    (unfinished : (streams.transforms.get cell).finished = false)
    (nonempty : parent.held streams ≠ [])
    (next : ∀ after, Moves layout (.transformed cell parent) (.transformed cell parent) streams after →
      parent.budget after < parent.budget streams →
        Leads rest after good fun fault _ => fault.Excused strict) :
    Leads (feedCodec cell (parent.held streams) >>= fun result => parent.consume result.2 >>=
      fun _ => deliver cell true result.1 >>= fun _ => rest) streams good
        fun fault _ => fault.Excused strict := by
  obtain ⟨placed, inside, -⟩ := fits.here
  have fresh := transformed_not_mem_layers cell parent
  have fitsParent := fits.transformed_parent
  refine (feedCodec_excused fits unfinished nonempty).bind ?_
  rintro ⟨bytes, count⟩ fed ⟨codec, after, used, held, sane, counted, positive, within, paid, layer,
    first⟩
  dsimp only at counted paid
  subst counted
  have still := first.still fresh fitsParent
  have fitsFed := still.fits first.shape fitsParent
  have available : used ≤ (parent.held fed).length := by
    rw [still.same.2]
    exact within
  obtain ⟨dropped, ran, drops, spent⟩ := consume_excused fitsFed positive available
  have drop : Leads (parent.consume used) fed (fun _ reached => reached = dropped)
      fun fault _ => fault.Excused strict := .of_ok ran rfl
  refine drop.bind ?_
  rintro - dropped rfl
  have insideDropped : cell < dropped.transforms.size := by
    rw [drops.shape.transforms, first.shape.transforms]
    exact inside
  have placedFed : layout.Places (.transformed cell parent) := placed
  have kept : dropped.transforms.get cell = fed.transforms.get cell :=
    drops.kept _ placedFed fresh
  have delivered := onTransformed_excused placed insideDropped fun layer =>
    ((.ok (), { layer with
      finished := layer.codec.elim true ChunkCodec.finished
      buffer := layer.buffer.append bytes }) : Except Fault Unit × Transformed Codec)
  refine (delivered.mono (fun _ _ => id) fun _ _ wrong => by cases wrong).bind ?_
  rintro - reached ⟨-, settled, last⟩
  rw [kept, layer] at settled
  obtain ⟨fitsDropped, advances⟩ := drops.advances fitsFed
  have supply : parent.budget reached + used ≤ parent.budget streams := by
    have total := advances.total
    rw [(last.still fresh fitsDropped).same.1, ← still.same.1]
    omega
  have all := ((first.moves fresh).trans (drops.touch (List.subset_cons_self ..))).trans
    (last.moves fresh)
  refine next reached (all.settleLayer fits ?_ ?_ ?_) (by omega)
  · rw [settled]
    exact ⟨after, rfl, sane, id⟩
  · rw [settled]
    exact Nat.le_refl _
  · have joined : ((streams.transforms.get cell).buffer.append bytes).content.length =
        (streams.transforms.get cell).buffer.content.length + bytes.length :=
      List.length_append
    have paidFor := allowance_feed unfinished held paid supply
      (show (reached.transforms.get cell).codec = some after by rw [settled])
    rw [settled] at paidFor ⊢
    show (streams.transforms.get cell).buffer.position + _ ≤ _
    dsimp only at paidFor ⊢
    omega

theorem look_bind_leads {α β : Type} {question : Streams Codec → α} {next : α → StreamStep Codec β}
    {good : β → Streams Codec → Prop} {bad : Fault → Streams Codec → Prop}
    (rest : Leads (next (question streams)) streams good bad) :
    Leads (look question >>= next) streams good bad := by
  unfold Leads at rest ⊢
  rwa [run_look_bind]

/-- **Feeding a codec** until enough is held does not run out of its bound. -/
theorem refill_excused
    (peeks : ∀ streams, layout.Fits streams parent → Leads (parent.fillBuf 1) streams
      (fun bytes after => bytes = parent.held after ∧ Moves layout parent parent streams after)
      fun fault _ => fault.Excused strict)
    (want fuel : Nat) (fits : layout.Fits streams (.transformed cell parent))
    (enough : rounds streams cell parent ≤ fuel) :
    Leads (refill cell (parent.fillBuf 1) parent.consume want fuel) streams
      (fun _ after => Moves layout (.transformed cell parent) (.transformed cell parent) streams
        after)
      fun fault _ => fault.Excused strict := by
  induction fuel generalizing streams with
  | zero =>
    unfold rounds at enough
    split at enough
    · omega
    · omega
  | succ fuel hypothesis =>
    have again : ∀ {middle}, Moves layout (.transformed cell parent) (.transformed cell parent)
        streams middle → rounds middle cell parent ≤ fuel →
          Leads (refill cell (parent.fillBuf 1) parent.consume want fuel) middle
            (fun _ after => Moves layout (.transformed cell parent) (.transformed cell parent)
              streams after) fun fault _ => fault.Excused strict := by
      intro middle moves enough
      refine (hypothesis (moves.advances fits).1 enough).mono ?_ fun _ _ decode => decode
      exact fun _ after later => moves.trans later
    obtain ⟨placed, inside, sane⟩ := fits.here
    have fresh := transformed_not_mem_layers cell parent
    unfold refill
    refine look_bind_leads ?_
    split
    · exact .pure (.refl _ _ _ _)
    · split
      · refine (onTransformed_excused placed inside _).mono ?_ fun fault _ wrong => by cases wrong
        rintro - after ⟨-, layer, sets⟩
        refine (sets.moves fresh).settleLayer fits ?_ ?_ ?_
        · rw [layer]
          exact sane
        · rw [layer]
        · rw [layer, (sets.still fresh fits.transformed_parent).same.1]
          exact Nat.le_refl _
      · rename_i unfinished
        rw [Bool.not_eq_true] at unfinished
        refine (peeks streams fits.transformed_parent).bind ?_
        rintro given peeked ⟨rfl, moves⟩
        have raised : Moves layout (.transformed cell parent) (.transformed cell parent) streams
            peeked := moves.raise (List.mem_cons_of_mem _ parent.mem_layers)
        have fitsPeeked := (raised.advances fits).1
        have kept : peeked.transforms.get cell = streams.transforms.get cell :=
          moves.kept _ placed fresh
        have supply := (moves.advances fits.transformed_parent).2.budget
        have unfinishedPeeked := unfinished
        rw [← kept] at unfinishedPeeked
        unfold rounds at enough
        rw [unfinished, if_neg Bool.false_ne_true] at enough
        split
        · refine finish_round fitsPeeked unfinishedPeeked fun after round finished => ?_
          refine again (raised.trans round) ?_
          unfold rounds
          rw [if_pos finished]
          omega
        · rename_i nonempty
          rw [List.isEmpty_iff] at nonempty
          refine feed_round fitsPeeked unfinishedPeeked nonempty fun after round less => ?_
          refine again (raised.trans round) ?_
          unfold rounds
          split
          · omega
          · omega

end Codecs

/-! ### Reading -/

/-- Making a transformed view hold enough. -/
theorem prepare_excused {cell : Nat} {parent : View}
    (peeks : ∀ streams, layout.Fits streams parent → Leads (parent.fillBuf 1) streams
      (fun bytes after => bytes = parent.held after ∧ Moves layout parent parent streams after)
      fun fault _ => fault.Excused strict)
    (want : Nat) (fits : layout.Fits streams (.transformed cell parent)) :
    Leads (prepare cell parent (parent.fillBuf 1) parent.consume want) streams
      (fun _ after => Moves layout (.transformed cell parent) (.transformed cell parent) streams
        after)
      fun fault _ => fault.Excused strict := by
  unfold prepare
  refine look_bind_leads ?_
  dsimp only
  split
  · exact .pure (.refl _ _ _ _)
  · refine look_bind_leads (refill_excused peeks want _ fits ?_)
    have within := parent.budget_le_weight streams
    unfold rounds
    split
    · omega
    · omega

theorem onSource_excused {α : Type} (cell : Nat)
    (act : Execution → Source → Except Fault α × Source) :
    Leads (onSource cell act) streams
      (fun value after => (act streams.driver (streams.sources.get cell)).1 = .ok value ∧
        after = { streams with
          sources := streams.sources.set cell (act streams.driver (streams.sources.get cell)).2 })
      fun fault _ => (act streams.driver (streams.sources.get cell)).1 = .error fault := by
  rcases same : act streams.driver (streams.sources.get cell) with ⟨fault | value, source⟩
  · exact Leads.of_error (run_onSource same) rfl
  · exact Leads.of_ok (run_onSource same) ⟨rfl, rfl⟩

theorem onBound_excused {α : Type} (cell : Nat) (act : Bound → Except Fault α × Bound) :
    Leads (onBound cell act) streams
      (fun value after => (act (streams.bounds.get cell)).1 = .ok value ∧
        after = { streams with
          bounds := streams.bounds.set cell (act (streams.bounds.get cell)).2 })
      fun fault _ => (act (streams.bounds.get cell)).1 = .error fault := by
  rcases same : act (streams.bounds.get cell) with ⟨fault | value, bound⟩
  · exact Leads.of_error (run_onBound same) rfl
  · exact Leads.of_ok (run_onBound same) ⟨rfl, rfl⟩

/-- **Peeking** gives what the view holds then. -/
theorem fillBuf_excused (fits : layout.Fits streams view) (want : Nat) :
    Leads (view.fillBuf want) streams
      (fun bytes after => bytes = view.held after ∧ Moves layout view view streams after)
      fun fault _ => fault.Excused strict := by
  induction view generalizing streams want with
  | source own cell =>
    obtain ⟨-, inside, answers⟩ := fits.here
    obtain ⟨ends, draws⟩ :=
      (streams.sources.get cell).pullUntil_excused streams.driver own (max want 1) answers
    refine (onSource_excused cell _).mono ?_ ?_
    · rintro bytes after ⟨same, rfl⟩
      constructor
      · show bytes = Buffer.content (Source.buffer (Table.get _ cell))
        rw [Table.get_set_self]
        dsimp only at same ⊢
        cases pulled : ((streams.sources.get cell).pullUntil streams.driver own
          (max want 1)).1 with
        | ok value =>
          rw [pulled] at same
          exact (Except.ok.inj same).symm
        | error fault =>
          rw [pulled] at same
          cases same
      · have position := draws.position
        have total := draws.total
        exact .source fits (by dsimp only; omega) (by dsimp only; omega) draws.answers
    · intro fault after same
      dsimp only at same
      cases pulled : ((streams.sources.get cell).pullUntil streams.driver own
        (max want 1)).1 with
      | ok value =>
        rw [pulled] at same
        cases same
      | error cause =>
        rw [pulled] at same
        cases same
        exact ends.error pulled
  | cursor cell =>
    have ran : (fillBuf (.cursor cell) want).run streams =
        (.ok (streams.cursors.get cell).buffer.content, { streams with
          cursors := streams.cursors.set cell (streams.cursors.get cell) }) := run_onCursor rfl
    refine Leads.of_ok ran ⟨?_, .cursor fits (Nat.le_refl _) (Nat.le_refl _) rfl⟩
    show _ = Buffer.content (Cursor.buffer (Table.get _ cell))
    rw [Table.get_set_self]
  | take cell parent hypothesis =>
    obtain ⟨placed, inside⟩ := fits.here
    unfold fillBuf
    refine look_bind_leads ?_
    split
    · rename_i none
      refine Leads.pure ⟨?_, .refl _ _ _ _⟩
      show [] = (parent.held streams).take (streams.bounds.get cell).left.toNat
      rw [show (streams.bounds.get cell).left.toNat = 0 by omega, List.take_zero]
    · refine (hypothesis fits.take_parent _).bind ?_
      rintro available after ⟨rfl, moves⟩
      have kept : after.bounds.get cell = streams.bounds.get cell :=
        moves.kept _ placed (take_not_mem_layers cell parent)
      refine Leads.pure ⟨?_, moves.raise (List.mem_cons_of_mem _ parent.mem_layers)⟩
      show _ = (parent.held after).take (after.bounds.get cell).left.toNat
      rw [kept]
  | transformed cell parent hypothesis =>
    unfold fillBuf
    refine (prepare_excused (fun streams fits => hypothesis fits 1) _ fits).bind ?_
    exact fun _ after moves => Leads.of_ok (run_look _ _) ⟨rfl, moves⟩

/-- Reading from a source: it pulls, and then its buffer falls short or drops the bytes. -/
theorem readExact_source_excused {own : Execution} {cell : Nat}
    (fits : layout.Fits streams (.source own cell)) (count : Nat) :
    Leads ((View.source own cell).readExact count) streams
      (fun _ after => Moves layout (.source own cell) (.source own cell) streams after ∧
        (View.source own cell).position streams + count ≤ (View.source own cell).position after)
      fun fault _ => fault.Excused strict := by
  obtain ⟨-, -, answers⟩ := fits.here
  obtain ⟨ends, draws⟩ :=
    (streams.sources.get cell).pullUntil_excused streams.driver own count answers
  unfold readExact
  rw [if_neg (Int.not_lt.mpr (Int.natCast_nonneg count)), Int.toNat_natCast]
  rcases pulled : (streams.sources.get cell).pullUntil streams.driver own count with
    ⟨fault | value, source⟩
  · rw [pulled] at ends
    exact Leads.of_error (run_onSource (by simp only [pulled]; rfl)) ends
  · rw [pulled] at draws
    rcases source.buffer.read_cases count with ⟨within, read⟩ | read
    · obtain ⟨moves, position⟩ := Moves.dropSource fits draws within rfl
      exact Leads.of_ok (run_onSource (by simp only [pulled, read]; rfl))
        ⟨moves, Nat.le_of_eq position.symm⟩
    · exact Leads.of_error (run_onSource (by simp only [pulled, read]; rfl))
        (Fault.excused strict rfl)

theorem readExact_cursor_excused {cell : Nat} (fits : layout.Fits streams (.cursor cell))
    (count : Nat) :
    Leads ((View.cursor cell).readExact count) streams
      (fun _ after => Moves layout (.cursor cell) (.cursor cell) streams after ∧
        (View.cursor cell).position streams + count ≤ (View.cursor cell).position after)
      fun fault _ => fault.Excused strict := by
  unfold readExact
  rw [if_neg (Int.not_lt.mpr (Int.natCast_nonneg count)), Int.toNat_natCast]
  rcases (streams.cursors.get cell).buffer.read_cases count with ⟨within, read⟩ | read
  · obtain ⟨moves, position⟩ := Moves.dropCursor fits within rfl
    exact Leads.of_ok (run_onCursor read) ⟨moves, Nat.le_of_eq position.symm⟩
  · exact Leads.of_error (run_onCursor read) (Fault.excused strict rfl)

/-- Reading from a transformed view, which holds enough by then if it can. -/
theorem readExact_transformed_excused {cell : Nat} {parent : View}
    (fits : layout.Fits streams (.transformed cell parent)) (count : Nat) :
    Leads ((View.transformed cell parent).readExact count) streams
      (fun _ after =>
        Moves layout (.transformed cell parent) (.transformed cell parent) streams after ∧
          (View.transformed cell parent).position streams + count ≤
            (View.transformed cell parent).position after)
      fun fault _ => fault.Excused strict := by
  unfold readExact
  rw [if_neg (Int.not_lt.mpr (Int.natCast_nonneg count)), Int.toNat_natCast]
  refine (prepare_excused (fun streams fits => fillBuf_excused fits 1) _ fits).bind ?_
  intro _ middle moves
  obtain ⟨fitsMiddle, advances⟩ := moves.advances fits
  obtain ⟨placed, inside, -⟩ := fitsMiddle.here
  rcases (middle.transforms.get cell).buffer.read_cases count with ⟨within, read⟩ | read
  · obtain ⟨drops, position⟩ := Moves.dropLayer (.transformed _ inside placed) fitsMiddle within
      (Table.get_set_self _ _ _)
    refine Leads.of_ok (run_onTransformed (by simp only [read]; rfl)) ⟨moves.trans drops, ?_⟩
    rw [position]
    exact Nat.add_le_add_right advances.position count
  · exact Leads.of_error (run_onTransformed (by simp only [read]; rfl)) (Fault.excused strict rfl)

/-- **Reading exactly so many bytes** falls short or counts them. -/
theorem readExact_excused (fits : layout.Fits streams view) (count : Nat) :
    Leads (view.readExact count) streams
      (fun _ after => Moves layout view view streams after ∧
        view.position streams + count ≤ view.position after)
      fun fault _ => fault.Excused strict := by
  induction view generalizing streams with
  | source own cell => exact readExact_source_excused fits count
  | cursor cell => exact readExact_cursor_excused fits count
  | take cell parent hypothesis =>
    have natural : ¬(count : Int) < 0 := Int.not_lt.mpr (Int.natCast_nonneg count)
    unfold readExact
    refine look_bind_leads ?_
    split
    · -- the test for a negative number is decided by `natural`
      split
      · rename_i none
        exact Leads.pure ⟨.refl _ _ _ _, by omega⟩
      · exact (fillBuf_excused fits _).bind fun _ _ _ => Leads.throw (Fault.excused strict rfl)
    · rename_i allowed
      refine (hypothesis fits.take_parent).bind ?_
      rintro bytes middle ⟨moves, spent⟩
      have spends := moves.spend fits spent (by omega) rfl
      refine ((onBound_excused cell _).mono ?_ fun fault _ wrong => by cases wrong).bind
        fun _ _ holds => Leads.pure holds
      rintro - after ⟨-, rfl⟩
      rw [Int.toNat_natCast]
      exact ⟨spends.1, Nat.le_of_eq spends.2.symm⟩
  | transformed cell parent hypothesis => exact readExact_transformed_excused fits count

/-- Every round of draining a view counts at least one byte of it. -/
theorem drain_excused (fits : layout.Fits streams view) (fuel : Nat)
    (enough : view.budget streams < fuel) :
    Leads (view.drain fuel) streams (fun _ after => Moves layout view view streams after)
      fun fault _ => fault.Excused strict := by
  induction fuel generalizing streams with
  | zero => omega
  | succ fuel hypothesis =>
    unfold drain
    refine (fillBuf_excused fits 1).bind ?_
    rintro available peeked ⟨rfl, moves⟩
    obtain ⟨fitsPeeked, peeking⟩ := moves.advances fits
    split
    · exact .pure moves
    · rename_i nonempty
      rw [List.isEmpty_iff] at nonempty
      have positive := List.length_pos_iff.mpr nonempty
      obtain ⟨dropped, ran, drops, spent⟩ := consume_excused fitsPeeked positive (Nat.le_refl _)
      obtain ⟨fitsDropped, dropping⟩ := drops.advances fitsPeeked
      have less : view.budget dropped < fuel := by
        have before := peeking.budget
        have total := dropping.total
        omega
      have drop : Leads (view.consume (view.held peeked).length) peeked
          (fun _ after => after = dropped) fun fault _ => fault.Excused strict := .of_ok ran rfl
      refine drop.bind ?_
      rintro - _ rfl
      refine (hypothesis fitsDropped less).bind fun rest after later => ?_
      exact .pure ((moves.trans drops).trans later)

/-- **Reading to the end** does not run out of its bound. -/
theorem readToEnd_excused (fits : layout.Fits streams view) :
    Leads view.readToEnd streams (fun _ after => Moves layout view view streams after)
      fun fault _ => fault.Excused strict :=
  look_bind_leads (drain_excused fits _ (Nat.lt_succ_of_le
    (Nat.le_trans (view.budget_le_weight streams) (Nat.le_add_right _ _))))

end View

end WireProgram
