/-
**Families of steps that go in unison.**

One program is run in several ways at once: the steps, the states and the results are families over
the ways. The steps of a family are in unison if all of them give values, or all of them faults, and
if the results and the states that they leave belong together. Nothing has to be the same: what
belongs together is said of a whole family. The main definitions:

* `Accord`, the families of states and of faults that belong together, and the order in which states
  come, and `Accord.Reached`, the families of states that may come after one;
* `Unison`, a family of steps that ends in such families.

It is closed under sequencing (`Unison.bind`), so that a statement on whole runs is put together
from statements on their parts.
-/

import WireProgram.Proofs.Outcome

namespace WireProgram

variable {ι ε σ α β : Type}

/-- One thing in all ways, put in each of them. -/
def Common (put : ι → α → α) (values : ι → α) : Prop :=
  ∃ value, values = fun way => put way value

/-- The same in all ways. -/
abbrev Constant : (ι → α) → Prop :=
  Common fun _ value => value

theorem Common.intro (put : ι → α → α) (value : α) : Common put fun way => put way value :=
  ⟨value, rfl⟩

namespace Constant

variable {values : ι → α} {others : ι → β}

/-- What is computed from the same is the same. -/
theorem map {γ : Type} (same : Constant values) (what : α → γ) :
    Constant fun way => what (values way) := by
  obtain ⟨value, rfl⟩ := same
  exact ⟨what value, rfl⟩

theorem map₂ {γ : Type} (same : Constant values) (same' : Constant others) (what : α → β → γ) :
    Constant fun way => what (values way) (others way) := by
  obtain ⟨value, rfl⟩ := same
  exact same'.map (what value)

theorem exists_eq (same : Constant values) : ∃ value, ∀ way, values way = value := by
  obtain ⟨value, rfl⟩ := same
  exact ⟨value, fun _ => rfl⟩

end Constant

/-- One good thing in all ways, put in each of them. -/
def Alike (good : α → Prop) (put : ι → α → α) (values : ι → α) : Prop :=
  ∃ value, good value ∧ values = fun way => put way value

/-- The same in all ways, whatever the states. -/
abbrev Constantly : (ι → σ) → (ι → α) → Prop :=
  fun _ => Constant

/-- One thing in all ways, good in the states that it comes with. -/
abbrev Likewise (good : (ι → σ) → α → Prop) (put : ι → α → α) : (ι → σ) → (ι → α) → Prop :=
  fun after => Alike (good after) put

/-- The families of states and of faults that belong together, and how states come later. -/
structure Accord (ι ε σ : Type) where
  states : (ι → σ) → Prop
  faults : (ι → ε) → Prop
  later : (ι → σ) → (ι → σ) → Prop
  refl : ∀ family, later family family
  trans : ∀ {before middle after}, later before middle → later middle after → later before after

/-- States that belong together, after others. -/
structure Accord.Reached (accord : Accord ι ε σ) (before after : ι → σ) : Prop where
  states : accord.states after
  later : accord.later before after

/-- A family of steps that all end with a value or all with a fault, in families that belong
together. What is good of values may depend on the states that they come with. -/
def Unison (accord : Accord ι ε σ) (good : (ι → σ) → (ι → α) → Prop)
    (step : ι → ExceptT ε (StateM σ) α) (before : ι → σ) : Prop :=
  ∃ after, accord.Reached before after ∧
    ((∃ values, good after values ∧
        ∀ way, (step way).run (before way) = (.ok (values way), after way)) ∨
      ∃ faults, accord.faults faults ∧
        ∀ way, (step way).run (before way) = (.error (faults way), after way))

namespace Accord

variable {accord : Accord ι ε σ} {before middle after : ι → σ}

theorem Reached.refl (states : accord.states before) : accord.Reached before before :=
  ⟨states, accord.refl before⟩

theorem Reached.trans (first : accord.Reached before middle) (second : accord.Reached middle after) :
    accord.Reached before after :=
  ⟨second.states, accord.trans first.later second.later⟩

end Accord

namespace Unison

variable {accord : Accord ι ε σ} {good : (ι → σ) → (ι → α) → Prop}
  {better : (ι → σ) → (ι → β) → Prop} {step : ι → ExceptT ε (StateM σ) α} {before after : ι → σ}

theorem of_ok {values : ι → α} (reached : accord.Reached before after) (holds : good after values)
    (ran : ∀ way, (step way).run (before way) = (.ok (values way), after way)) :
    Unison accord good step before :=
  ⟨after, reached, Or.inl ⟨values, holds, ran⟩⟩

theorem of_error {faults : ι → ε} (reached : accord.Reached before after)
    (holds : accord.faults faults)
    (ran : ∀ way, (step way).run (before way) = (.error (faults way), after way)) :
    Unison accord good step before :=
  ⟨after, reached, Or.inr ⟨faults, holds, ran⟩⟩

theorem pure {values : ι → α} (states : accord.states before) (holds : good before values) :
    Unison accord good (fun way => Pure.pure (values way)) before :=
  .of_ok (.refl states) holds fun _ => rfl

theorem throw {faults : ι → ε} (states : accord.states before) (holds : accord.faults faults) :
    Unison accord good (fun way => MonadExcept.throw (faults way)) before :=
  .of_error (.refl states) holds fun _ => rfl

theorem mono {more : (ι → σ) → (ι → α) → Prop} (unison : Unison accord good step before)
    (implied : ∀ after values, accord.Reached before after → good after values → more after values) :
    Unison accord more step before := by
  obtain ⟨after, reached, ⟨values, holds, ran⟩ | ⟨faults, holds, ran⟩⟩ := unison
  · exact .of_ok reached (implied after values reached holds) ran
  · exact .of_error reached holds ran

/-- **Sequencing.** The second steps are in unison from every family that the first ones leave. -/
theorem bind {next : ι → α → ExceptT ε (StateM σ) β} (first : Unison accord good step before)
    (second : ∀ values after, accord.Reached before after → good after values →
      Unison accord better (fun way => next way (values way)) after) :
    Unison accord better (fun way => step way >>= next way) before := by
  obtain ⟨middle, reached, ⟨values, holds, ran⟩ | ⟨faults, holds, ran⟩⟩ := first
  · obtain ⟨after, reached', rest⟩ := second values middle reached holds
    refine ⟨after, reached.trans reached', rest.imp ?_ ?_⟩
    · rintro ⟨found, holds', ran'⟩
      refine ⟨found, holds', fun way => ?_⟩
      rw [run_bind, ran]
      exact ran' way
    · rintro ⟨faults, holds', ran'⟩
      refine ⟨faults, holds', fun way => ?_⟩
      rw [run_bind, ran]
      exact ran' way
  · exact .of_error reached holds fun way => by rw [run_bind, ran]

/-- A first step that only looks leaves the rest where it starts. -/
theorem look_bind {values : ι → α} {next : ι → α → ExceptT ε (StateM σ) β}
    (looked : ∀ way, (step way).run (before way) = (.ok (values way), before way))
    (rest : Unison accord better (fun way => next way (values way)) before) :
    Unison accord better (fun way => step way >>= next way) before := by
  have same : ∀ way, (step way >>= next way).run (before way) =
      (next way (values way)).run (before way) := by
    intro way
    rw [run_bind, looked]
  unfold Unison
  simp only [same]
  exact rest

theorem discard (unison : Unison accord good step before) :
    Unison accord (fun _ values => values = fun _ => ())
      (fun way => (Functor.discard (step way) : ExceptT ε (StateM σ) Unit)) before := by
  obtain ⟨after, reached, ⟨values, holds, ran⟩ | ⟨faults, holds, ran⟩⟩ := unison
  · exact .of_ok reached rfl fun way => by rw [run_discard, ran]
  · exact .of_error reached holds fun way => by rw [run_discard, ran]

/-- A test that comes out the same in all ways. -/
theorem ite {condition : Prop} [Decidable condition] {step' : ι → ExceptT ε (StateM σ) α}
    (holds : condition → Unison accord good step before)
    (fails : ¬condition → Unison accord good step' before) :
    Unison accord good (fun way => if condition then step way else step' way) before := by
  by_cases test : condition
  · simp only [if_pos test]
    exact holds test
  · simp only [if_neg test]
    exact fails test

end Unison

end WireProgram
