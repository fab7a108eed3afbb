/-
**Streams inside of values.**

A value can hold streams at any depth. A value whose streams are all good stays as it is under all names
that leave the good streams theirs, and that is how it is said here: then what is computed from such
values holds good streams only because it is the same under the names. The main definitions and
statements:

* `Value.Bears` and `Lists.Bears`, a value and lists with good streams only, and `Value.bears_iff` and
  `Lists.bears_iff`, what that says of each stream;
* `Expression.evaluate_bears` and `Constructable.build_bears`, what is computed from such values.
-/

import WireProgram.Proofs.Ensemble.Compute
import WireProgram.Proofs.Ensemble.Reference

namespace WireProgram

variable {good : View → Prop}

/-- Names that leave all lists and the good streams theirs. -/
structure Naming.Spares (naming : Naming) (good : View → Prop) : Prop where
  cells : ∀ cell, naming.cells cell = cell
  views : ∀ view, good view → naming.views view = view

/-- A value whose streams, at any depth, are good: names that spare them do not change it. -/
def Value.Bears (good : View → Prop) (value : Value) : Prop :=
  ∀ naming : Naming, naming.Spares good → value.named naming = value

/-- Lists whose items hold good streams only. -/
def Lists.Bears (good : View → Prop) (lists : Lists) : Prop :=
  ∀ naming : Naming, naming.Spares good → Lists.Named naming lists lists

theorem Naming.Spares.mono {naming : Naming} {better : View → Prop} (spares : naming.Spares better)
    (implied : ∀ view, good view → better view) : naming.Spares good :=
  ⟨spares.cells, fun view holds => spares.views view (implied view holds)⟩

theorem Lists.Bears.mono {better : View → Prop} {lists : Lists} (bears : lists.Bears good)
    (implied : ∀ view, good view → better view) : lists.Bears better :=
  fun naming spares => bears naming (spares.mono implied)

namespace Value.Bears

theorem mono {better : View → Prop} {value : Value} (bears : value.Bears good)
    (implied : ∀ view, good view → better view) : value.Bears better :=
  fun naming spares => bears naming (spares.mono implied)

theorem of_nameless {value : Value} (nameless : value.Nameless) : value.Bears good :=
  fun naming _ => nameless naming

theorem list (cell : Nat) : (Value.list cell).Bears good :=
  fun _ spares => congrArg Value.list (spares.cells cell)

theorem stream {view : View} (holds : good view) : (Value.stream view).Bears good :=
  fun _ spares => congrArg Value.stream (spares.views view holds)

end Value.Bears

/-! ### Each stream -/

theorem View.take_ne (cell : Nat) (view : View) : View.take cell view ≠ view := by
  intro same
  have depth : view.depth + 1 = view.depth := congrArg View.depth same
  exact Nat.succ_ne_self _ depth

/-- **A value bears good streams** if each of its streams is good: names that change all others would
change a value that has one of them. -/
theorem Value.bears_iff {value : Value} :
    value.Bears good ↔ ∀ view ∈ value.views, good view := by
  classical
  constructor
  · intro bears view member
    by_contra bad
    let naming : Naming := ⟨id, fun view => if good view then view else .take 0 view, fun _ _ => id⟩
    have spares : naming.Spares good := ⟨fun _ => rfl, fun view holds => if_pos holds⟩
    have same : value.views.map naming.views = value.views.map id := by
      rw [List.map_id, ← Value.views_named, bears naming spares]
    have fixed : (if good view then view else View.take 0 view) = view :=
      List.map_inj_left.mp same view member
    rw [if_neg bad] at fixed
    exact View.take_ne 0 view fixed
  · exact fun holds naming spares => value.named_eq_self
      ⟨fun cell _ => spares.cells cell, fun view member => spares.views view (holds view member)⟩

theorem Lists.bears_iff {lists : Lists} :
    lists.Bears good ↔ ∀ cell, ∀ item ∈ lists.get cell, item.Bears good := by
  constructor
  · intro bears cell item member naming spares
    have items := (bears naming spares).get cell
    rw [spares.cells] at items
    have same : (lists.get cell).map (Value.named naming) = (lists.get cell).map id := by
      rw [List.map_id, ← items]
    exact List.map_inj_left.mp same item member
  · intro holds naming spares
    refine ⟨fun cell => ?_, fun more => spares.cells _⟩
    rw [spares.cells, List.map_congr_left (g := id) fun item member =>
      holds cell item member naming spares, List.map_id]

theorem Value.bears_any (value : Value) : value.Bears fun _ => True :=
  bears_iff.mpr fun _ _ => trivial

theorem Lists.bears_any (lists : Lists) : lists.Bears fun _ => True :=
  bears_iff.mpr fun _ item _ => item.bears_any

/-! ### Computing -/

/-- A result that is the same under all names refers to nothing. -/
theorem Value.Nameless.of_result {result : Except Fault Value} {value : Value}
    (same : ∀ naming, result = result.map (Value.named naming)) (ok : result = .ok value) :
    value.Nameless := by
  subst ok
  exact fun naming => (Except.ok.inj (same naming)).symm

theorem Computed.eq_ok {naming : Naming} {α : Type} {put : α → α} {outcome outcome' : α × Lists}
    (computed : Computed naming put (.ok outcome) (.ok outcome')) :
    outcome'.1 = put outcome.1 ∧ Lists.Named naming outcome.2 outcome'.2 := by
  cases computed with
  | ok named => exact ⟨rfl, named⟩

/-- **An expression** over good streams gives a value and lists with good streams. -/
theorem Expression.evaluate_bears {field : Json → Except Fault Value}
    (fields : ∀ name value, field name = .ok value → value.Bears good) {expression : Expression}
    {lists : Lists} (bears : lists.Bears good) {outcome : Value × Lists}
    (same : expression.evaluate field lists = .ok outcome) :
    outcome.1.Bears good ∧ outcome.2.Bears good := by
  have named : ∀ naming : Naming, naming.Spares good →
      outcome.1 = outcome.1.named naming ∧ Lists.Named naming outcome.2 outcome.2 := by
    intro naming spares
    have fixed : ∀ name, field name = (field name).map (Value.named naming) := by
      intro name
      cases found : field name with
      | ok value => rw [map_ok, fields name value found naming spares]
      | error fault => rfl
    have computed := expression.evaluate_named fixed (fun cell _ => spares.cells cell)
      (bears naming spares)
    rw [same] at computed
    exact computed.eq_ok
  exact ⟨fun naming spares => (named naming spares).1.symm,
    fun naming spares => (named naming spares).2⟩

/-- **A constructable** over good streams is a value with good streams. -/
theorem Constructable.build_bears {types : Types} {frame : Frame} {constructable : Constructable}
    (registers : ∀ register value, frame.get register = .ok value → value.Bears good)
    {value : Value} (same : constructable.build types frame = .ok value) : value.Bears good := by
  intro naming spares
  have fixed : (frame.named naming).get = frame.get := by
    funext register
    rw [Frame.get_named]
    cases found : frame.get register with
    | ok value => rw [map_ok, registers register value found naming spares]
    | error fault => rfl
  have named := constructable.build_named naming types frame
  have unchanged : constructable.build types (frame.named naming) =
      constructable.build types frame := by
    cases constructable <;> simp only [build, Frame.getMany, fixed]
  rw [unchanged, same] at named
  exact (Except.ok.inj named).symm

end WireProgram
