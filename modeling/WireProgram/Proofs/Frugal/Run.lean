/-
**A run pulls no chunk that the bytes it consumed did not require.**

The rule of a run without transforms over a root of its own: what is pulled of the root is paid for
by what is consumed of it. Every operation keeps to it but a peek for a terminator, which is paid for
once the loop that peeked is through. The bounds over the root are kept apart from all others, since
what a bound has left limits what a peek may ask for. The main definitions and statements:

* `Streams.Paced` and `Contract.frugal`, how the streams of such a run change;
* `View.Orderly`, a view in order;
* `untilTerminator_frugal`, a loop pays for its peeks;
* `Regime.frugal`, the regime of these runs;
* `decode_frugal`, whole runs.
-/

import WireProgram.Examples
import WireProgram.Proofs.Chunking
import WireProgram.Proofs.Frugal.Streams
import WireProgram.Proofs.Regime

namespace WireProgram

variable {root : Nat}

/-! ### The contract -/

/--
How the streams change, whether or not what was pulled is paid for. Beside them stands which bounds
are over the root: what such a bound has left shrinks by no more than what is consumed of the root.
-/
structure Streams.Paced (root : Nat) (before after : Streams Codec × (Nat → Prop)) : Prop where
  later : (Streams.chunking Codec root).later before.1 after.1
  owned : ∀ cell < before.1.bounds.size, after.2 cell ↔ before.2 cell
  gives : ∃ count, Source.Gives count (before.1.sources.get root) (after.1.sources.get root)
  left : ∀ cell < before.1.bounds.size, before.2 cell →
    (before.1.bounds.get cell).left + (before.1.sources.get root).buffer.position ≤
      (after.1.bounds.get cell).left + (after.1.sources.get root).buffer.position

namespace Streams.Paced

variable {before middle after : Streams Codec × (Nat → Prop)}

theorem refl (state : Streams Codec × (Nat → Prop)) : Streams.Paced root state state :=
  ⟨Simulation.refl _ _, fun _ _ => Iff.rfl, ⟨0, .refl _⟩, fun _ _ _ => Int.le_refl _⟩

theorem trans (first : Streams.Paced root before middle) (second : Streams.Paced root middle after) :
    Streams.Paced root before after := by
  have within : ∀ cell < before.1.bounds.size, cell < middle.1.bounds.size :=
    fun cell inside => Nat.lt_of_lt_of_le inside first.later.2
  refine ⟨Simulation.trans _ first.later second.later, fun cell inside => ?_, ?_,
    fun cell inside owned => ?_⟩
  · exact (second.owned cell (within cell inside)).trans (first.owned cell inside)
  · obtain ⟨one, gives⟩ := first.gives
    obtain ⟨two, gives'⟩ := second.gives
    exact ⟨one + two, gives.trans gives'⟩
  · exact Int.le_trans (first.left cell inside owned)
      (second.left cell (within cell inside) ((first.owned cell inside).mpr owned))

theorem position (paced : Streams.Paced root before after) :
    (before.1.sources.get root).buffer.position ≤ (after.1.sources.get root).buffer.position := by
  obtain ⟨count, gives⟩ := paced.gives
  exact gives.position ▸ Nat.le_add_right _ _

end Streams.Paced

/-- The contract of a run that pulls no more of a root than it consumes. Nothing is said of runs that
fail. -/
def Contract.frugal (root : Nat) : Contract Fault (Streams Codec) (Nat → Prop) where
  later before after := Streams.Paced root before after ∧
    Source.Fetched 0 (before.1.sources.get root) (after.1.sources.get root)
  tolerates _ := True
  refl state := ⟨.refl state, .refl 0 _⟩
  trans first second := ⟨first.1.trans second.1, first.2.trans second.2 second.1.position⟩

/-! ### Views in order -/

/-- A view in order: over the fair root, with bounds that are, or apart from it, with bounds that
are not. -/
def View.Orderly (root : Nat) (state : Streams Codec × (Nat → Prop)) (view : View) : Prop :=
  (view.Over root state.1 ∧ (state.1.sources.get root).Fair ∧ ∀ cell ∈ view.cells, state.2 cell) ∨
    (view.Apart root ∧ ∀ cell ∈ view.cells, cell < state.1.bounds.size ∧ ¬state.2 cell)

namespace View

variable {α : Type} {view : View} {state before after : Streams Codec × (Nat → Prop)}

theorem Orderly.paced (kept : view.Orderly root before) (paced : Streams.Paced root before after) :
    view.Orderly root after := by
  obtain ⟨count, gives⟩ := paced.gives
  refine kept.imp ?_ ?_
  · rintro ⟨based, fair, owned⟩
    exact ⟨based.later paced.later, gives.fair fair, fun cell member =>
      (paced.owned cell (based.cells_lt cell member)).mpr (owned cell member)⟩
  · rintro ⟨apart, outside⟩
    refine ⟨apart, fun cell member => ?_⟩
    obtain ⟨inside, free⟩ := outside cell member
    exact ⟨Nat.lt_of_lt_of_le inside paced.later.2, fun owned =>
      free ((paced.owned cell inside).mp owned)⟩

/-- What an operation through a view over the root does. -/
theorem Draws.paced {slack count : Nat} {streams streams' : Streams Codec}
    (draws : view.Draws root slack count streams streams') (based : view.Over root streams)
    (record : Nat → Prop) : Streams.Paced root (streams, record) (streams', record) := by
  have gives := draws.gives based
  have size := draws.spends.size
  refine ⟨⟨draws.spends.driver, Nat.le_of_eq size.symm⟩, fun _ _ => Iff.rfl, ⟨count, gives⟩,
    fun cell _ _ => ?_⟩
  dsimp only
  rw [draws.spends.bounds, gives.position]
  split
  · show _ ≤ (streams.bounds.get cell).left - count + _
    omega
  · omega

/-- An operation through a view over the root keeps to the contract if it draws what it pulls. -/
theorem Over.frugal {step : StreamStep Codec α} (based : view.Over root state.1)
    (draws : ∀ value after, step.run state.1 = (.ok value, after) →
      ∃ count, view.Draws root 0 count state.1 after) :
    Keeps (.frugal root) (fun _ _ => True) step state := by
  rcases ran : step.run state.1 with ⟨fault | value, after⟩
  · exact .of_error ran trivial trivial
  · obtain ⟨count, drawn⟩ := draws value after ran
    exact Leads.of_ok ran ⟨state.2, ⟨drawn.paced based state.2, drawn.fetched⟩, trivial⟩

/-- An operation through a view apart from the root keeps to the contract. -/
theorem Apart.frugal {step : StreamStep Codec α}
    (outside : ∀ cell ∈ view.cells, cell < state.1.bounds.size ∧ ¬state.2 cell)
    (together : Together root step)
    (changes : Streams.Kept view.touches state.1 (step.run state.1).2) :
    Keeps (.frugal root) (fun _ _ => True) step state := by
  obtain ⟨same, later⟩ := together.kept state.1
  rcases ran : step.run state.1 with ⟨fault | value, after⟩
  · exact .of_error ran trivial trivial
  · rw [ran] at same later
    refine Leads.of_ok ran ⟨state.2, ⟨⟨later, fun _ _ => Iff.rfl, ⟨0, ?_⟩, fun cell _ owned => ?_⟩, ?_⟩,
      trivial⟩
    · rw [same]
      exact .refl _
    · have kept : after.bounds.get cell = state.1.bounds.get cell := by
        rw [ran] at changes
        exact changes.same (.bound cell) fun member => (outside cell (bound_mem.mp member)).2 owned
      dsimp only
      exact Int.le_of_eq (by rw [kept, same])
    · rw [same]
      exact .refl 0 _

/-! ### The operations -/

theorem Orderly.readExact (kept : view.Orderly root state) (count : Nat) :
    Keeps (.frugal root) (fun _ _ => True) (view.readExact count) state := by
  rcases kept with ⟨based, fair, -⟩ | ⟨apart, outside⟩
  · exact based.frugal fun _ _ ran => ⟨count, based.readExact fair ran⟩
  · exact Apart.frugal outside (apart.readExact _) (view.readExact_kept _ _)

theorem Orderly.readToEnd (kept : view.Orderly root state) :
    Keeps (.frugal root) (fun _ _ => True) view.readToEnd state := by
  rcases kept with ⟨based, fair, -⟩ | ⟨apart, outside⟩
  · exact based.frugal fun bytes _ ran => ⟨bytes.length, based.readToEnd fair ran⟩
  · exact Apart.frugal outside apart.readToEnd (view.readToEnd_kept _)

/-- Opening a bound, with a note whether it is over the root. -/
theorem openTake_later (view : View) (limit : Nat) (owned : Prop) :
    (Contract.frugal root).later state
      ((state.1.openTake view limit).2, Function.update state.2 state.1.bounds.size owned) := by
  have grown : state.1.bounds.size ≤ (state.1.openTake view limit).2.bounds.size := by
    rw [Streams.openTake, Table.size_push]
    exact Nat.le_succ _
  refine ⟨⟨⟨rfl, grown⟩, fun cell inside => ?_, ⟨0, .refl _⟩, fun cell inside _ => ?_⟩, .refl 0 _⟩
  · show Function.update state.2 state.1.bounds.size owned cell ↔ _
    rw [Function.update_of_ne (Nat.ne_of_lt inside)]
  · have old : (state.1.openTake view limit).2.bounds.get cell = state.1.bounds.get cell :=
      Table.get_push_old _ _ inside
    exact Int.le_of_eq (congrArg (fun bound : Bound => bound.left + _) old.symm)

/-- A new bound is over the root if what it bounds is. -/
theorem Orderly.openTake (kept : view.Orderly root state) (limit : Nat) :
    Keeps (.frugal root) (fun bounded after => bounded.Orderly root after)
      (openedBy fun streams => streams.openTake view limit) state := by
  have noted : ∀ owned : Prop, ∀ cell < state.1.bounds.size,
      Function.update state.2 state.1.bounds.size owned cell = state.2 cell :=
    fun owned cell inside => Function.update_of_ne (Nat.ne_of_lt inside) owned state.2
  rcases kept with ⟨based, fair, owned⟩ | ⟨apart, outside⟩
  · refine Leads.of_ok rfl ⟨_, openTake_later view limit True, .inl ⟨based.openTake limit, fair, ?_⟩⟩
    intro cell member
    rcases List.mem_cons.mp member with rfl | above
    · show Function.update state.2 state.1.bounds.size True state.1.bounds.size
      rw [Function.update_self]
      trivial
    · show Function.update state.2 state.1.bounds.size True cell
      rw [noted True cell (based.cells_lt cell above)]
      exact owned cell above
  · refine Leads.of_ok rfl ⟨_, openTake_later view limit False, .inr ⟨apart, ?_⟩⟩
    intro cell member
    show cell < (state.1.bounds.push _).size ∧
      ¬Function.update state.2 state.1.bounds.size False cell
    rw [Table.size_push]
    rcases List.mem_cons.mp member with rfl | above
    · rw [Function.update_self]
      exact ⟨Nat.lt_succ_self _, id⟩
    · obtain ⟨inside, free⟩ := outside cell above
      rw [noted False cell inside]
      exact ⟨Nat.lt_succ_of_lt inside, free⟩

/-- A new cursor is apart from the root. -/
theorem openCursor_frugal (bytes : Bytes) :
    Keeps (.frugal root) (fun cursor after => cursor.Orderly root after)
      (openedBy fun streams => streams.openCursor bytes) state := by
  refine Leads.of_ok rfl ⟨state.2, ⟨⟨⟨rfl, Nat.le_refl _⟩, fun _ _ => Iff.rfl, ⟨0, .refl _⟩, ?_⟩,
    .refl 0 _⟩, .inr ⟨trivial, fun _ member => nomatch member⟩⟩
  exact fun _ _ _ => Int.le_refl _

end View

/-! ### Loops up to a terminator -/

section Loops

variable {state : Machine × (Nat → Prop)} {view : View} {terminator : Bytes} {body : Step Unit}

/-- What was to be paid for at a later moment was so before. -/
theorem Streams.Paced.settled {before middle : Streams Codec × (Nat → Prop)}
    {after : Streams Codec} {want : Nat} (paced : Streams.Paced root before middle)
    (inside : ∀ cell ∈ view.cells, cell < before.1.bounds.size ∧ before.2 cell)
    (settled : view.Settled root want middle.1 after) : view.Settled root want before.1 after := by
  have position := paced.position
  refine settled.imp id (Or.imp (fun consumed => by omega) ?_)
  rintro ⟨cell, member, used⟩
  have left := paced.left cell (inside cell member).1 (inside cell member).2
  exact ⟨cell, member, by omega⟩

/-- A body that runs well wherever the views in order are still in order. -/
abbrev Runs (root : Nat) (body : Step Unit) (state : Machine × (Nat → Prop)) : Prop :=
  ∀ inner : Machine × (Nat → Prop), (∀ other : View, other.Orderly root (state.1.streams, state.2) →
    other.Orderly root (inner.1.streams, inner.2)) →
      Keeps (.over (.frugal root) .freely) (fun _ _ => True) body inner

/-- The loop over a view apart from the root. -/
theorem untilTerminator_apart (apart : view.Apart root)
    (kept : view.Orderly root (state.1.streams, state.2)) (runs : Runs root body state) (fuel : Nat) :
    Keeps (.over (.frugal root) .freely) (fun _ _ => True)
      (untilTerminator view terminator body fuel) state := by
  refine Keeps.untilTerminator (fun _ inner => ∀ other : View,
    other.Orderly root (state.1.streams, state.2) → other.Orderly root (inner.1.streams, inner.2))
    trivial (fun _ _ => trivial) ?_ ?_ ?_ (fun stays => runs _ stays) fun _ kept => kept
  · exact fun stays later other kept => (stays other kept).paced later.1.1
  · exact fun stays later _ other kept => (stays other kept).paced later.1.1
  · intro _ inner stays
    rcases stays view kept with ⟨based, -, -⟩ | ⟨-, outside⟩
    · exact absurd apart based.not_apart
    · exact View.Apart.frugal outside (apart.approach terminator) (view.approach_kept _ _)

/-- **The loop over a view over the root** pays for its peeks once it is through. -/
theorem untilTerminator_over (based : view.Over root state.1.streams)
    (fair : (state.1.streams.sources.get root).Fair) (owned : ∀ cell ∈ view.cells, state.2 cell)
    (filled : terminator ≠ []) (runs : Runs root body state) (fuel : Nat) :
    Keeps (.over (.frugal root) .freely)
      (fun _ after => view.Settled root terminator.length state.1.streams after.1.streams)
      (untilTerminator view terminator body fuel) state := by
  induction fuel generalizing state with
  | zero => exact .throw trivial
  | succ fuel hypothesis =>
    have asked : 0 < terminator.length := List.length_pos_iff.mpr filled
    have inside : ∀ cell ∈ view.cells, cell < state.1.streams.bounds.size ∧ state.2 cell :=
      fun cell member => ⟨based.cells_lt cell member, owned cell member⟩
    obtain ⟨found, peeked, same, draws⟩ := based.approach fair filled
    have ran : (Step.onStreams (view.approach terminator)).run state.1 =
        (.ok found, { state.1 with streams := peeked }) := by
      rw [Step.run_onStreams, same]
      rfl
    rw [untilTerminator_succ]
    cases found with
    | ended | reached =>
      obtain ⟨settled, count, drawn⟩ := draws
      refine Leads.of_ok (by rw [run_bind, ran]; rfl) ⟨state.2, ⟨⟨?_, ?_⟩, trivial⟩, settled⟩
      · exact drawn.paced based state.2
      · exact drawn.fetched
    | ahead =>
      have paced := draws.paced based state.2
      have start : view.Orderly root (state.1.streams, state.2) := .inl ⟨based, fair, owned⟩
      have rest : Keeps (.over (.frugal root) .freely)
          (fun _ after => view.Settled root terminator.length peeked after.1.streams)
          (withProgress view body >>= fun _ => untilTerminator view terminator body fuel)
          ({ state.1 with streams := peeked }, state.2) := by
        have still : Runs root body ({ state.1 with streams := peeked }, state.2) := fun inner stays =>
          runs inner fun other kept => stays other (kept.paced paced)
        refine (Keeps.withProgress trivial (still _ fun _ kept => kept)).bind fun _ after later _ => ?_
        have both := paced.trans later.1.1
        obtain ⟨count, gives⟩ := both.gives
        refine (hypothesis (based.later both.later) (gives.fair fair) (fun cell member => ?_)
          fun inner stays => ?_).mono fun _ last _ settled => ?_
        · exact (both.owned cell (inside cell member).1).mpr (owned cell member)
        · exact runs inner fun other kept => stays other (kept.paced both)
        · refine later.1.1.settled (fun cell member => ?_) settled
          have ⟨within, owns⟩ := inside cell member
          exact ⟨Nat.lt_of_lt_of_le within paced.later.2, (paced.owned cell within).mpr owns⟩
      refine Leads.of_run (by rw [run_bind, ran]) (Leads.mono rest ?_ fun _ _ holds => holds)
      rintro value after ⟨record, later, settled⟩
      have paid := paced.settled inside settled
      exact ⟨record, ⟨⟨paced.trans later.1.1, paid.fetched asked draws based later.1.2
        later.1.1.position⟩, trivial⟩, paid⟩

end Loops

/-! ### Runs -/

/-- The regime of runs that wrap no stream and pull no more of a root than they consume. -/
def Regime.frugal (root : Nat) : Regime (Nat → Prop) where
  contract := .frugal root
  fits state view := view.Orderly root state
  wraps _ := False
  enough _ _ _ := True
  excuses _ _ := trivial
  later later kept := kept.paced later.1
  readExact kept count := kept.readExact count
  readToEnd kept := kept.readToEnd
  openTake kept limit := kept.openTake limit
  openCursor bytes := (View.openCursor_frugal bytes).mono fun _ _ _ kept => ⟨kept, trivial⟩
  wrap covered := covered.elim
  enough_weight _ := trivial
  enough_later _ _ _ := trivial
  enough_round _ _ _ _ := trivial
  exhausted _ _ := trivial
  untilTerminator := by
    intro state view terminator body fuel kept filled _ runs
    rcases kept with ⟨based, fair, owned⟩ | ⟨apart, outside⟩
    · exact (untilTerminator_over based fair owned filled runs fuel).mono fun _ _ _ _ => trivial
    · exact untilTerminator_apart apart (.inr ⟨apart, outside⟩) runs fuel

theorem Linked.Bare.admitted {linked : Linked} (bare : linked.Bare) :
    linked.Admitted fun _ => False := by
  intro part member
  have holds := bare part member
  cases part with
  | decodeReference target data name arguments => exact fun _ _ => trivial
  | _ => exact holds

/-- A view that was opened before, with all of its bounds. -/
def View.Closed (streams : Streams Codec) (view : View) : Prop :=
  view.Opened streams ∧ ∀ cell ∈ view.cells, cell < streams.bounds.size

/-- Chunks that were needed hold fewer bytes, all but the last one, than were consumed. -/
theorem Source.Fetched.front_lt {before after : Source} {front : List Chunk} {last : Chunk}
    {count : Nat} (gives : Source.Gives count before after) (empty : before.buffer.content = [])
    (cut : before.input.pending = front ++ last :: after.input.pending)
    (less : after.buffer.content.length < last.size) :
    (front.flatMap Chunk.content).length < count := by
  have total : before.rest = front.flatMap Chunk.content ++ (last.content ++ after.input.content) := by
    rw [Source.rest, empty, List.nil_append, Input.content, cut, List.flatMap_append,
      List.flatMap_cons]
    rfl
  have left := congrArg List.length gives.rest
  have within := gives.within
  rw [total, Source.rest, List.length_drop] at left
  rw [total] at within
  rw [Chunk.size_eq] at less
  simp only [List.length_append] at left within
  omega

/-- **No over-pulling.** A program without transforms that reads only the built-in types is run over
a new source, and it gives a value. What was pulled is the front of the chunks; unless the end of the
input was asked for as well, all of these chunks but the last one have fewer bytes than were
consumed. -/
theorem decode_frugal (environment : Environment)
    (bare : (Linked.mk environment.program environment.types).Throughout Linked.Bare)
    (execution : Execution) (machine : Machine) (driven : machine.streams.driver = execution)
    (values : List Value)
    (closed : ∀ value ∈ values, ∀ view, value = .stream view → view.Closed machine.streams)
    (bytes : Bytes) (input : Input) (delivers : input.Delivers bytes) (value : Value)
    (after : Machine)
    (ran : decodeInput environment execution input values machine = (.ok value, after)) :
    let source := after.streams.sources.get machine.streams.sources.size
    ∃ pulled, input.pending = pulled ++ source.input.pending ∧
      (source.buffer.ended = false → ∀ front last, pulled = front ++ [last] →
        (front.flatMap Chunk.content).length < source.buffer.position) := by
  intro source
  have new : (machine.streams.openSource execution input).2.sources.get
      machine.streams.sources.size = { input := input } := Table.get_push_self _ _
  have fair := (Source.opened_fair delivers).1
  rw [← new] at fair
  have keeps : Keeps (Regime.frugal machine.streams.sources.size).run
      (fun value after => (Regime.frugal machine.streams.sources.size).Holds after value)
      (decodeWith environment ⟨.source execution machine.streams.sources.size, true⟩ values)
      ({ machine with streams := (machine.streams.openSource execution input).2 },
        fun _ => False) := by
    refine decodeWith_regime _ environment (fun other reaches => (bare other reaches).admitted)
      (.inl trivial) (.inl ⟨⟨driven.symm, rfl⟩, fair, nofun⟩) ?_
    intro value member view isStream
    obtain ⟨opened, bounds⟩ := closed value member view isStream
    exact .inr ⟨opened.apart, fun cell inside => ⟨bounds cell inside, id⟩⟩
  obtain ⟨record, ⟨⟨paced, fetched⟩, -⟩, -⟩ := keeps.ok ran
  obtain ⟨count, gives⟩ := paced.gives
  rw [new] at gives fetched fair
  have position : source.buffer.position = count := gives.position.trans (Nat.zero_add count)
  cases open_ : source.buffer.ended with
  | true =>
    have none : source.input.pending = [] := (gives.fair fair).ended open_
    exact ⟨input.pending, by rw [none, List.append_nil], nofun⟩
  | false =>
    obtain ⟨-, ⟨same, -⟩ | ⟨front, last, cut, less⟩⟩ := fetched open_
    · exact ⟨[], same.symm, fun _ front last wrong => by simp at wrong⟩
    · refine ⟨front ++ [last], by rw [List.append_assoc]; exact cut, fun _ front' last' parts => ?_⟩
      obtain ⟨rfl, -⟩ := List.append_inj' parts rfl
      rw [position]
      exact Source.Fetched.front_lt gives rfl cut less

/-- Bytes up to two zeros. -/
def terminatedBytes : Environment where
  program := Examples.terminatedItems [0, 0]
  types := []
  mode := "blocking"
  config := {}

theorem terminatedBytes_bare :
    (Linked.mk terminatedBytes.program terminatedBytes.types).Throughout Linked.Bare := by
  refine .of_unlinked (fun part member => ?_) (Linked.not_names rfl)
  have among : part ∈ terminatedBytes.program.instructions ++ Examples.collectByte := member
  simp only [terminatedBytes, Examples.terminatedItems, Examples.programOf, Examples.collectByte,
    List.cons_append, List.nil_append, List.mem_cons, List.not_mem_nil, or_false] at among
  rcases among with rfl | rfl | rfl | rfl <;> trivial

/-- Of three chunks of two bytes only those up to the terminator are pulled; the first one alone has
fewer bytes than were consumed. -/
theorem decode_frugal_of_terminatedBytes :
    ∃ value after, decodeInput terminatedBytes .blocking (Input.ofBytes 2 [5, 6, 0, 0, 7]) [] {} =
        (.ok value, after) ∧
      (after.streams.sources.get 0).input.pending = [.bytes [7]] ∧
      (after.streams.sources.get 0).buffer.ended = false ∧
      ([Chunk.bytes [5, 6]].flatMap Chunk.content).length <
        (after.streams.sources.get 0).buffer.position := by
  have succeeds : (decodeInput terminatedBytes .blocking (Input.ofBytes 2 [5, 6, 0, 0, 7]) []
      {}).1.isOk = true := by
    decide +kernel
  have seen : ((decodeInput terminatedBytes .blocking (Input.ofBytes 2 [5, 6, 0, 0, 7]) []
      {}).2.streams.sources.get 0).input.pending = [.bytes [7]] ∧
      ((decodeInput terminatedBytes .blocking (Input.ofBytes 2 [5, 6, 0, 0, 7]) []
        {}).2.streams.sources.get 0).buffer.ended = false := by
    decide +kernel
  rcases ran : decodeInput terminatedBytes .blocking (Input.ofBytes 2 [5, 6, 0, 0, 7]) [] {} with
    ⟨fault | value, after⟩
  · rw [ran] at succeeds
    cases succeeds
  · rw [ran] at seen
    obtain ⟨pulled, cut, frugal⟩ := decode_frugal terminatedBytes terminatedBytes_bare .blocking {} rfl
      [] nofun [5, 6, 0, 0, 7] _ (Input.ofBytes_delivers 2 _ (by decide)) value after ran
    refine ⟨value, after, rfl, seen.1, seen.2, frugal seen.2 [.bytes [5, 6]] (.bytes [0, 0]) ?_⟩
    have rest : (after.streams.sources.get 0).input.pending = [.bytes [7]] := seen.1
    have whole : [Chunk.bytes [5, 6], .bytes [0, 0], .bytes [7]] = pulled ++ [.bytes [7]] :=
      cut.trans (congrArg (pulled ++ ·) rest)
    exact (List.append_cancel_right whole).symm

end WireProgram
