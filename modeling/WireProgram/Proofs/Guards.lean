/-
**Guards that are never reached.**

Dropping bytes is guarded: a buffer must hold them, and a bound must have as many left. So is reading, by
a test for a negative number. With the built-in transforms and types no guard refuses in any run,
whatever its program, its source and its settings are: peeks are cut at the bounds, counts are tested
where they are read from values, codecs use no more than they are given, and nothing reads a layer
between a peek and the drop that follows it. The main definitions and statements:

* `Contract.modest`, operations that ask for no more than there is, and `Keeps.modest`, operations that
  time passes under and that overdraw no bound;
* `Regime.modest`, the regime of such runs;
* `guards_unreached`, **no guard refuses in any run**.
-/

import WireProgram.Examples
import WireProgram.Proofs.Call.Visit
import WireProgram.Proofs.Ending.Visit
import WireProgram.Proofs.Stream.Solvent

namespace WireProgram

/-! ### The contract -/

/-- Operations that ask for no more than there is: time passes on every view, no guard refuses, and no
bound is overdrawn, also where they fail. -/
def Contract.modest (base : Nat) : Contract Fault (Streams Codec) (Layout false) where
  later before after := (Contract.passing false).later before after ∧
    (before.1.Solvent base → after.1.Solvent base)
  tolerates fault := ¬fault.Guards
  leaves before after := before.1.Solvent base → after.Solvent base
  refl state := ⟨Contract.refl _ state, id⟩
  trans first second := ⟨Contract.trans _ first.1 second.1, second.2 ∘ first.2⟩
  stays _ := id
  goes later left := left ∘ later.2

/-- An operation that keeps within what is there to be read, and overdraws no bound. -/
theorem Keeps.modest {α : Type} {base : Nat} {step : StreamStep Codec α}
    {good : α → Streams Codec × Layout false → Prop} {state : Streams Codec × Layout false}
    (keeps : Keeps (.passing false) good step state) (saves : Saves base step) :
    Keeps (.modest base) good step state := by
  have solvent := saves state.1
  rcases ran : step.run state.1 with ⟨fault | value, after⟩
  · rw [ran] at solvent
    exact .of_error ran (fun guards => keeps.error ran guards.exceeds) solvent
  · rw [ran] at solvent
    obtain ⟨record, later, holds⟩ := keeps.ok ran
    exact Leads.of_ok ran ⟨record, ⟨later, solvent⟩, holds⟩

/-! ### The regime -/

/-- A built-in transform opens no bound. -/
theorem Transform.wrap_saves {transform : Transform}
    (builtIn : Prelude.hasTransform transform = true) (base : Nat) (view : View)
    (values : List Value) : Saves base (transform.wrap view values) := by
  refine .of_bounds fun streams => ?_
  unfold Transform.wrap
  rcases Prelude.hasTransform_cases builtIn with rfl | rfl
  · dsimp only
    split <;> rfl
  · dsimp only
    split <;> rfl

section Regime

variable {layout : Layout false} {streams : Streams Codec} {view : View}

theorem Layout.Fits.nodup (fits : layout.Fits streams view) : view.cells.Nodup :=
  fits.stands.nodup

/-- Peeking for a terminator. -/
theorem View.approach_modest (fits : layout.Fits streams view) {terminator : Bytes}
    (filled : terminator ≠ []) (base : Nat) :
    Keeps (.modest base) (fun _ _ => True) (view.approach terminator) (streams, layout) :=
  (approach_keeps fits filled).modest (approach_saves fits.nodup terminator)

/-- A new bound has no less than nothing left. -/
theorem openTake_modest (fits : layout.Fits streams view) (limit : Nat) (base : Nat) :
    Keeps (.modest base) (fun bounded after => after.2.Fits after.1 bounded)
      (openedBy fun streams => streams.openTake view limit) (streams, layout) :=
  (openTake_keeps fits limit).modest fun _ solvent => solvent.openTake view limit

theorem openCursor_modest (base : Nat) (bytes : Bytes) :
    Keeps (.modest base) (fun cursor after => after.2.Fits after.1 cursor ∧ True)
      (openedBy fun streams => streams.openCursor bytes) (streams, layout) :=
  ((openCursor_keeps bytes).mono fun _ _ _ opened => ⟨opened.1, trivial⟩).modest
    (.of_bounds fun _ => rfl)

/-- The regime of runs that ask for no more than there is. They may nest too deep, and nothing is said
of how long their loops go on. -/
def Regime.modest (base : Nat) : Regime (Layout false) where
  contract := .modest base
  fits state view := state.2.Fits state.1 view
  wraps transform := Prelude.hasTransform transform = true
  enough _ _ _ := True
  excuses _ contained := fun guards => contained guards.exceeds
  later later fits := (later.1 _ fits).1
  readExact fits count := (View.readExact_keeps fits count).modest (View.readExact_saves fits.nodup _)
  readToEnd fits := (View.readToEnd_keeps fits).modest (View.readToEnd_saves fits.nodup)
  openTake fits limit := openTake_modest fits limit base
  openCursor bytes := openCursor_modest base bytes
  wrap builtIn fits values :=
    (Transform.wrap_passing builtIn fits values).modest (Transform.wrap_saves builtIn base _ values)
  enough_weight _ := trivial
  enough_later _ _ _ := trivial
  enough_round _ _ _ _ := trivial
  exhausted _ _ := id
  untilTerminator {state view terminator _ _} fits filled _ runs := by
    have still : ∀ {inner : Machine × Layout false},
        (Contract.over (Contract.modest base) .freely).later state inner →
          ∀ other, state.2.Fits state.1.streams other → inner.2.Fits inner.1.streams other :=
      fun later other fits => (later.1.1 other fits).1
    exact Keeps.untilTerminator (fun _ => (Contract.over (Contract.modest base) .freely).later state)
      id (fun _ _ => id) (fun first second => Contract.trans _ first second)
      (fun first second _ => Contract.trans _ first second)
      (fun later => View.approach_modest (still later view fits) filled base)
      (fun later => runs _ (still later)) (Contract.refl _ state)

theorem Regime.modest_advances (base : Nat) : (Regime.modest base).Advances :=
  fun later fits => (later.1 _ fits).2

theorem Regime.modest_peeks (base : Nat) : (Regime.modest base).Peeks :=
  fun {state view _} fits filled =>
    View.approach_modest (show state.2.Fits state.1 view from fits) filled base

end Regime

/-! ### Whole runs -/

/-- **No guard refuses in any run.** A program with the built-in transforms and types is run over streams
in order; it may be unsound in any other way. The run does not fail for a guard. Wherever it drops bytes
of a layer, these are no fewer than none and no more than the layer holds, and wherever it reads a number
of bytes, the number is not negative. No bound that it opens is overdrawn: not at any instruction that it
comes to, and not at its end, whether it fails or not. Bytes are only ever taken off a bound, so that
none was overdrawn in between. -/
theorem guards_unreached (environment : Environment)
    (admitted : (Linked.mk environment.program environment.types).Throughout
      (Linked.Admitted fun transform => Prelude.hasTransform transform = true))
    (layout : Layout false) (source : RunSource) (values : List Value) (machine : Machine)
    (fits : layout.Fits machine.streams source.view)
    (holds : ∀ value ∈ values, ∀ view, value = .stream view → layout.Fits machine.streams view) :
    (∀ failure after, (decodeWith environment source values).run machine =
        (.error failure, after) → ¬failure.fault.Guards) ∧
      (∀ (view : View) count start, (decodeWith environment source values).Performs
        (view.consume count) start machine → 0 ≤ count ∧ count ≤ view.holding start) ∧
      (∀ (view : View) count start, (decodeWith environment source values).Performs
        (view.readExact count) start machine → 0 ≤ count) ∧
      (∀ station, environment.Visits source values machine station →
        station.machine.streams.Solvent machine.streams.bounds.size) ∧
      ((decodeWith environment source values).run machine).2.streams.Solvent
        machine.streams.bounds.size := by
  have solvent := Streams.Solvent.of_size_le machine.streams (Nat.le_refl _)
  have keeps : Keeps (Regime.modest machine.streams.bounds.size).run
      (fun value after => (Regime.modest machine.streams.bounds.size).Holds after value)
      (decodeWith environment source values) (machine, layout) :=
    decodeWith_regime _ environment admitted (.inl id) fits holds
  have unguarded : ∀ failure after, (decodeWith environment source values).run machine =
      (.error failure, after) → ¬failure.fault.Guards := fun failure after ran => keeps.error ran
  refine ⟨unguarded, fun view count start performs => ?_, fun view count start performs => ?_, ?_, ?_⟩
  · exact Decidable.not_not.mp fun beyond =>
      performs.unguarded unguarded (View.consume_guards beyond)
  · exact Int.not_lt.mp fun negative =>
      performs.unguarded unguarded (view.readExact_guards start negative)
  · rintro station ⟨view, first, opened, rfl, depth, rfl, starts, follows⟩
    have under : first.Under (Regime.modest first.machine.streams.bounds.size) layout :=
      starts.under_source opened depth (Regime.modest_peeks _) admitted (.inl id) fits holds
    obtain ⟨record, later, -⟩ := under.follows follows
    exact later.1.2 solvent
  · rcases ran : (decodeWith environment source values).run machine with ⟨failure | value, after⟩
    · exact keeps.left ran solvent
    · obtain ⟨record, later, -⟩ := keeps.ok ran
      exact later.1.2 solvent

/-! ### A text in a region -/

/-- The first region of a source. -/
def textRegion : View :=
  .take 0 (.source .blocking 0)

/-- Reads a byte of a text. -/
def textRegionRead : Instruction :=
  .decodePrimitive (.stream (Examples.register 2)) (Examples.register 3) "u8"

/-- A program that reads a byte of a text in a region of four bytes. -/
def textRegionDecoding : Environment where
  program := Examples.programOf 4
    [.eval (Examples.register 0) (.constant (.int 4)),
      .constrict .direct (Examples.register 1) (Examples.register 0),
      .wrapStream (.stream (Examples.register 1)) (Examples.register 2) ⟨"base64", .base64⟩ [],
      textRegionRead]
  types := []
  mode := "blocking"
  config := {}

/-- A text of four bytes, and a byte after it. -/
def textInRegion : Machine where
  streams := (Streams.openSource {} .blocking ⟨[.bytes [65, 103, 61, 61, 7]], 0⟩).2

/-- Before the program. -/
def Station.textRegionStart : Station where
  environment := textRegionDecoding
  depth := nestingLimit
  loops := []
  block := textRegionDecoding.program.instructions
  index := 0
  frame := { scope := { reader := some (.source .blocking 0) } }
  machine := textInRegion

/-- The byte is read of what the codec gives, which used all bytes of the region. -/
theorem textRegionRead_drops : ∃ station start,
    textRegionDecoding.Visits ⟨.source .blocking 0, true⟩ [] textInRegion station ∧
      station.block = [textRegionRead] ∧
        (station.execution textRegionRead).Performs (textRegion.consume 4) start
          (station.started textRegionRead) :=
  ⟨_, _, ⟨_, Station.textRegionStart, rfl, rfl, rfl, rfl, ⟨_, rfl, rfl, rfl, rfl, rfl⟩,
      .tail (.tail (.tail .refl (.later rfl rfl)) (.later rfl rfl)) (.later rfl rfl)⟩, rfl,
    .next rfl (.first (.next rfl (.first (.onStreams
      (View.readExact_transformed_occurs (by decide +kernel) fun _ =>
        View.refill_occurs (by decide +kernel) (by decide +kernel) rfl rfl rfl)))))⟩

theorem textRegionDecoding_unlinked :
    ∀ message, ¬(Linked.mk textRegionDecoding.program textRegionDecoding.types).Names message :=
  Linked.not_names rfl

theorem textRegionDecoding_admitted :
    (Linked.mk textRegionDecoding.program textRegionDecoding.types).Throughout
      (Linked.Admitted fun transform => Prelude.hasTransform transform = true) := by
  refine .of_unlinked (fun part member => ?_) textRegionDecoding_unlinked
  have among : part ∈ textRegionDecoding.program.instructions := member
  simp only [textRegionDecoding, Examples.programOf, List.mem_cons, List.not_mem_nil, or_false]
    at among
  rcases among with rfl | rfl | rfl | rfl <;> trivial

/-- The run drops the four bytes of the region where it has four left. -/
theorem guards_unreached_of_textRegion :
    (∀ failure after, (decodeWith textRegionDecoding ⟨.source .blocking 0, true⟩ []).run
      textInRegion = (.error failure, after) → ¬failure.fault.Guards) ∧
      ∃ start, (decodeWith textRegionDecoding ⟨.source .blocking 0, true⟩ []).Performs
        (textRegion.consume 4) start textInRegion ∧ 4 ≤ textRegion.holding start := by
  let layout : Layout false := ⟨fun _ => .blocking, View.cursor, View.cursor⟩
  have fits : layout.Fits textInRegion.streams (.source .blocking 0) :=
    openSource_fits .blocking _ rfl nofun
  obtain ⟨unguarded, drops, -, -, -⟩ := guards_unreached textRegionDecoding
    textRegionDecoding_admitted layout ⟨.source .blocking 0, true⟩ [] textInRegion fits nofun
  obtain ⟨station, start, visits, block, performs⟩ := textRegionRead_drops
  have made := visits.performs (Regime.modest_advances 0) (Regime.modest_peeks 0)
    textRegionDecoding_admitted (.inl id) fits nofun block performs
  exact ⟨unguarded, start, made, (drops textRegion 4 start made).2⟩

end WireProgram
