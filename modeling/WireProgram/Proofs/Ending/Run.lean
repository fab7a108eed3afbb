/-
**Runs that end within their bounds.**

With the built-in transforms and types, no fault of a run is that of a bound: every loop uses up a
byte of its stream in every round, every feed of a codec uses up a byte of the view under it, and the
built-in codecs give so many bytes for a byte at most. The main definitions and statements:

* `Transform.wrap_passing`, the built-in transforms, with any arguments;
* `Regime.passing`, the regime of runs in which time passes on every view;
* `decodeWith_bounded`, whole runs.
-/

import WireProgram.Proofs.Regime
import WireProgram.Proofs.Stream.Passing

namespace WireProgram

/-- A built-in transform opens a view, or it refuses its arguments. -/
theorem Transform.wrap_passing {layout : Layout false} {streams : Streams Codec} {view : View}
    {transform : Transform} (builtIn : Prelude.hasTransform transform = true)
    (fits : layout.Fits streams view) (values : List Value) :
    Keeps (.passing false) (fun wrapped after => after.2.Fits after.1 wrapped)
      (transform.wrap view values) (streams, layout) := by
  unfold Transform.wrap
  rcases Prelude.hasTransform_cases builtIn with rfl | rfl
  · dsimp only
    split
    · exact openTransformed_keeps fits trivial rfl
    · exact .throw id
  · dsimp only
    split
    · exact openTransformed_keeps fits trivial rfl
    · exact .throw id

/-- The regime of runs in which time passes on every view, and no bound is reached. -/
def Regime.passing : Regime (Layout false) where
  contract := .passing false
  fits state view := state.2.Fits state.1 view
  wraps transform := Prelude.hasTransform transform = true
  enough state view fuel := view.budget state.1 < fuel
  excuses _ contained := contained
  later later fits := (later _ fits).1
  readExact fits count := View.readExact_keeps fits count
  readToEnd fits := View.readToEnd_keeps fits
  openTake fits limit := openTake_keeps fits limit
  openCursor bytes := (openCursor_keeps bytes).mono fun _ _ _ ⟨fits, _, _, small⟩ =>
    ⟨fits, Nat.lt_succ_of_le small⟩
  wrap builtIn fits values := Transform.wrap_passing builtIn fits values
  enough_weight _ := Nat.lt_succ_of_le (View.budget_le_weight _ _)
  enough_later later fits enough := Nat.lt_of_le_of_lt (later _ fits).2.budget enough
  enough_round later fits moved enough := by
    obtain ⟨-, position, total⟩ := later _ fits
    omega
  exhausted _ enough := absurd enough (Nat.not_lt_zero _)
  untilTerminator fits filled enough runs :=
    untilTerminator_passing fits filled (fun _ later => runs _ fun other fits =>
      (later.1 other fits).1) enough

/-- **A run** ends with a value or a fault that is not that of a bound. -/
theorem decodeWith_bounded (environment : Environment)
    (admitted : (Linked.mk environment.program environment.types).Throughout
      (Linked.Admitted Regime.passing.wraps))
    (acyclic : (Linked.mk environment.program environment.types).Acyclic) {layout : Layout false}
    {source : RunSource} {values : List Value} {machine : Machine}
    (fits : layout.Fits machine.streams source.view)
    (holds : ∀ value ∈ values, ∀ view, value = .stream view → layout.Fits machine.streams view)
    {failure : Failure} {after : Machine}
    (ran : (decodeWith environment source values).run machine = (.error failure, after)) :
    ¬failure.fault.Overruns := by
  have keeps : Keeps Regime.passing.run (fun value after => Regime.passing.Holds after value)
      (decodeWith environment source values) (machine, layout) :=
    decodeWith_regime Regime.passing environment admitted (.inr acyclic) fits holds
  exact fun overruns => keeps.error ran overruns.exceeds

end WireProgram
