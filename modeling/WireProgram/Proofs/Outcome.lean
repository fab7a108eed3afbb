/-
**What a step leads to.**

A step starts in a state and ends in another one, with a value or with a fault; the state outlives
a fault. The operations on streams and those of a run are both such steps. The main definitions:

* `Ends`, what holds of a result, a value or a fault;
* `Leads`, what holds where one step ends, with a value or with a fault;
* `Contract` and `Keeps`, a step that does only what all steps of a run may do;
* `Lockstep`, two steps with the same result that keep their states alike.

All are closed under sequencing (`Ends.bind`, `Leads.bind`, `Keeps.bind`, `Lockstep.bind`), so that a
statement on a whole run is put together from statements on its parts.
-/

import Mathlib.Tactic.Common

namespace WireProgram

section Generic

variable {ε σ α β : Type}

/-- The run of a sequence: the second step starts where the first one ended. -/
theorem run_bind (first : ExceptT ε (StateM σ) α) (next : α → ExceptT ε (StateM σ) β) (before : σ) :
    (first >>= next).run before =
      match first.run before with
      | (.ok value, after) => (next value).run after
      | (.error fault, after) => (.error fault, after) := by
  rw [ExceptT.run_bind]
  cases same : first.run before with
  | mk result after =>
    show (match first.run before with | (found, reached) => StateT.run (match found with
      | .ok value => (next value).run
      | .error fault => pure (.error fault)) reached) = _
    rw [same]
    cases result <;> rfl

section Sequence

variable {first : ExceptT ε (StateM σ) α} {next : α → ExceptT ε (StateM σ) β} {before after : σ}

theorem run_bind_ok {value : α} (ran : first.run before = (.ok value, after)) :
    (first >>= next).run before = (next value).run after := by
  rw [run_bind, ran]

theorem run_bind_error {fault : ε} (ran : first.run before = (.error fault, after)) :
    (first >>= next).run before = (.error fault, after) := by
  rw [run_bind, ran]

/-- The two parts of a sequence that gives a value. -/
theorem run_bind_eq_ok {value : β} (ran : (first >>= next).run before = (.ok value, after)) :
    ∃ found middle, first.run before = (.ok found, middle) ∧
      (next found).run middle = (.ok value, after) := by
  rcases same : first.run before with ⟨fault | found, middle⟩
  · rw [run_bind_error same] at ran
    cases ran
  · rw [run_bind_ok same] at ran
    exact ⟨found, middle, rfl, ran⟩

end Sequence

theorem run_throw (fault : ε) (before : σ) :
    (throw fault : ExceptT ε (StateM σ) α).run before = (.error fault, before) := rfl

/-- The run of a step whose fault is handled. -/
theorem run_tryCatch (step : ExceptT ε (StateM σ) α) (handler : ε → ExceptT ε (StateM σ) α)
    (before : σ) :
    (tryCatch step handler).run before =
      match step.run before with
      | (.ok value, after) => (.ok value, after)
      | (.error fault, after) => (handler fault).run after := by
  cases same : step.run before with
  | mk result after =>
    show (match step.run before with | (found, reached) => StateT.run (match found with
      | .ok value => pure (Except.ok value)
      | .error fault => (handler fault).run) reached) = _
    rw [same]
    cases result <;> rfl

/-- The run of a step whose value is dropped. -/
theorem run_discard (step : ExceptT ε (StateM σ) α) (before : σ) :
    (discard step : ExceptT ε (StateM σ) Unit).run before =
      match step.run before with
      | (.ok _, after) => (.ok (), after)
      | (.error fault, after) => (.error fault, after) := by
  cases same : step.run before with
  | mk result after =>
    show (match step.run before with
      | (found, reached) => StateT.run (match found with
        | .ok _ => (pure (Except.ok ()) : StateM σ (Except ε Unit))
        | .error fault => pure (.error fault)) reached) = _
    rw [same]
    cases result <;> rfl

/-! ### Results -/

/-- What holds of a result: of its value or of its fault. -/
def Ends (result : Except ε α) (good : α → Prop) (bad : ε → Prop) : Prop :=
  match result with
  | .ok value => good value
  | .error fault => bad fault

/-- A result is a value if it is that value as an option, which can be decided. -/
theorem eq_ok_of_toOption {result : Except ε α} {value : α}
    (same : result.toOption = some value) : result = .ok value := by
  cases result with
  | ok found => exact congrArg Except.ok (Option.some.inj same)
  | error fault => cases same

/-- A run with a value. -/
theorem exists_eq_ok_of_isSome {σ : Type} {outcome : Except ε α × σ}
    (holds : outcome.1.toOption.isSome = true) : ∃ value after, outcome = (.ok value, after) := by
  rcases outcome with ⟨fault | value, after⟩
  · cases holds
  · exact ⟨value, after, rfl⟩

/-- A sequence goes on with the value of its first part. -/
theorem bind_of_ok {result : Except ε α} {value : α} {next : α → Except ε β}
    (same : result = .ok value) : (result >>= next) = next value := by
  rw [same]
  rfl

/-- A sequence that gives a value goes by a value of its first part. -/
theorem bind_eq_ok {result : Except ε α} {next : α → Except ε β} {last : β}
    (same : (result >>= next) = .ok last) : ∃ value, result = .ok value ∧ next value = .ok last := by
  cases result with
  | error fault => cases same
  | ok value => exact ⟨value, rfl, same⟩

namespace Ends

variable {result : Except ε α} {good better : α → Prop} {bad worse : ε → Prop}

theorem ok {value : α} (ends : Ends result good bad) (same : result = .ok value) : good value := by
  rw [same] at ends
  exact ends

theorem error {fault : ε} (ends : Ends result good bad) (same : result = .error fault) :
    bad fault := by
  rw [same] at ends
  exact ends

theorem mono (ends : Ends result good bad) (values : ∀ value, good value → better value)
    (faults : ∀ fault, bad fault → worse fault) : Ends result better worse := by
  cases result with
  | ok value => exact values value ends
  | error fault => exact faults fault ends

theorem of_ok (holds : ∀ value, result = .ok value → good value) :
    Ends result good fun _ => True := by
  cases result with
  | ok value => exact holds value rfl
  | error fault => trivial

/-- Sequencing of results. -/
theorem bind {next : α → Except ε β} {better : β → Prop} (first : Ends result good bad)
    (second : ∀ value, good value → Ends (next value) better bad) :
    Ends (result >>= next) better bad := by
  cases result with
  | ok value => exact second value first
  | error fault => exact first

theorem map {act : α → β} {better : β → Prop} (first : Ends result good bad)
    (second : ∀ value, good value → better (act value)) :
    Ends (result.map act) better bad := by
  cases result with
  | ok value => exact second value first
  | error fault => exact first

/-- One result for each item of a list. -/
theorem mapM {items : List β} {act : β → Except ε α}
    (each : ∀ item ∈ items, Ends (act item) good bad) :
    Ends (items.mapM act) (fun values => values.length = items.length ∧ ∀ value ∈ values, good value)
      bad := by
  induction items with
  | nil => exact ⟨rfl, nofun⟩
  | cons item items hypothesis =>
    rw [List.mapM_cons]
    refine (each item (List.mem_cons_self ..)).bind fun value holds => ?_
    refine (hypothesis fun other member => each other (List.mem_cons_of_mem _ member)).bind
      fun values ⟨same, all⟩ => ⟨congrArg (· + 1) same, fun other member => ?_⟩
    rcases List.mem_cons.mp member with rfl | member
    · exact holds
    · exact all other member

end Ends

theorem exists_mapM_eq_ok {items : List β} {act : β → Except ε α}
    (each : ∀ item ∈ items, ∃ value, act item = .ok value) :
    ∃ values, items.mapM act = .ok values ∧ values.length = items.length := by
  have noFault : ∀ item ∈ items, Ends (act item) (fun _ => True) fun _ => False := by
    intro item member
    obtain ⟨value, same⟩ := each item member
    rw [same]
    trivial
  cases ran : items.mapM act with
  | ok values => exact ⟨values, rfl, ((Ends.mapM noFault).ok ran).1⟩
  | error fault => exact ((Ends.mapM noFault).error ran).elim

/-! ### One step -/

/-- Where a step ends: with a good value and state, or with a fault and state that may come. -/
def Leads (step : ExceptT ε (StateM σ) α) (before : σ) (good : α → σ → Prop)
    (bad : ε → σ → Prop) : Prop :=
  match step.run before with
  | (.ok value, after) => good value after
  | (.error fault, after) => bad fault after

namespace Leads

variable {step : ExceptT ε (StateM σ) α} {before : σ} {good : α → σ → Prop} {bad : ε → σ → Prop}

theorem of_run {result : Except ε α × σ} (same : step.run before = result)
    (holds : match (motive := Except ε α × σ → Prop) result with
      | (.ok value, after) => good value after
      | (.error fault, after) => bad fault after) : Leads step before good bad := by
  unfold Leads
  rw [same]
  exact holds

theorem of_ok {value : α} {after : σ} (same : step.run before = (.ok value, after))
    (holds : good value after) : Leads step before good bad :=
  of_run same holds

theorem of_error {fault : ε} {after : σ} (same : step.run before = (.error fault, after))
    (holds : bad fault after) : Leads step before good bad :=
  of_run same holds

theorem ok {value : α} {after : σ} (leads : Leads step before good bad)
    (same : step.run before = (.ok value, after)) : good value after := by
  unfold Leads at leads
  rwa [same] at leads

theorem error {fault : ε} {after : σ} (leads : Leads step before good bad)
    (same : step.run before = (.error fault, after)) : bad fault after := by
  unfold Leads at leads
  rwa [same] at leads

theorem mono {better : α → σ → Prop} {worse : ε → σ → Prop} (leads : Leads step before good bad)
    (values : ∀ value after, good value after → better value after)
    (faults : ∀ fault after, bad fault after → worse fault after) :
    Leads step before better worse := by
  unfold Leads at leads ⊢
  split at leads
  · exact values _ _ leads
  · exact faults _ _ leads

theorem pure {value : α} (holds : good value before) :
    Leads (Pure.pure value : ExceptT ε (StateM σ) α) before good bad :=
  of_ok rfl holds

theorem throw {fault : ε} (holds : bad fault before) :
    Leads (MonadExcept.throw fault : ExceptT ε (StateM σ) α) before good bad :=
  of_error rfl holds

/-- **Sequencing.** The second step is judged from every good end of the first one. -/
theorem bind {next : α → ExceptT ε (StateM σ) β} {middle : α → σ → Prop} {good : β → σ → Prop}
    (first : Leads step before middle bad)
    (second : ∀ value after, middle value after → Leads (next value) after good bad) :
    Leads (step >>= next) before good bad := by
  unfold Leads at first
  split at first
  · rename_i value after same
    have rest := second value after first
    unfold Leads at rest ⊢
    rw [run_bind, same]
    exact rest
  · rename_i fault after same
    exact of_error (by rw [run_bind, same]) first

end Leads

/-! ### Steps under a contract -/

/-- What all steps of a run agree on: how a state comes later, which faults may come, and what a step may
leave that fails. Beside the state stands a record of what the proof has to remember of it. -/
structure Contract (ε σ γ : Type) where
  later : σ × γ → σ × γ → Prop
  tolerates : ε → Prop
  leaves : σ × γ → σ → Prop := fun _ _ => True
  refl : ∀ state, later state state
  trans : ∀ {before middle after}, later before middle → later middle after → later before after
  stays : ∀ state, leaves state state.1 := by intros; trivial
  goes : ∀ {before middle after}, later before middle → leaves middle after → leaves before after := by
    intros; trivial

/-- A step under a contract, with a good value and state where it gives a value. -/
def Keeps {γ : Type} (contract : Contract ε σ γ) (good : α → σ × γ → Prop)
    (step : ExceptT ε (StateM σ) α) (before : σ × γ) : Prop :=
  Leads step before.1 (fun value after => ∃ record, contract.later before (after, record) ∧
    good value (after, record)) fun fault after =>
      contract.tolerates fault ∧ contract.leaves before after

namespace Keeps

variable {γ : Type} {contract : Contract ε σ γ} {good : α → σ × γ → Prop}
  {step : ExceptT ε (StateM σ) α} {before : σ × γ}

theorem ok {value : α} {after : σ} (keeps : Keeps contract good step before)
    (same : step.run before.1 = (.ok value, after)) :
    ∃ record, contract.later before (after, record) ∧ good value (after, record) := by
  unfold Keeps Leads at keeps
  rwa [same] at keeps

theorem error {fault : ε} {after : σ} (keeps : Keeps contract good step before)
    (same : step.run before.1 = (.error fault, after)) : contract.tolerates fault :=
  (Leads.error keeps same).1

/-- What a failing step leaves. -/
theorem left {fault : ε} {after : σ} (keeps : Keeps contract good step before)
    (same : step.run before.1 = (.error fault, after)) : contract.leaves before after :=
  (Leads.error keeps same).2

theorem of_ok {value : α} {after : σ × γ} (same : step.run before.1 = (.ok value, after.1))
    (later : contract.later before after) (holds : good value after) :
    Keeps contract good step before :=
  Leads.of_ok same ⟨after.2, later, holds⟩

theorem of_error {fault : ε} {after : σ} (same : step.run before.1 = (.error fault, after))
    (tolerated : contract.tolerates fault) (left : contract.leaves before after) :
    Keeps contract good step before :=
  Leads.of_error same ⟨tolerated, left⟩

/-- A step that fails where it starts. -/
theorem of_refused {fault : ε} (same : step.run before.1 = (.error fault, before.1))
    (tolerated : contract.tolerates fault) : Keeps contract good step before :=
  of_error same tolerated (contract.stays before)

theorem pure {value : α} (holds : good value before) :
    Keeps contract good (Pure.pure value : ExceptT ε (StateM σ) α) before :=
  .of_ok rfl (contract.refl before) holds

theorem throw {fault : ε} (holds : contract.tolerates fault) :
    Keeps contract good (MonadExcept.throw fault : ExceptT ε (StateM σ) α) before :=
  .of_refused rfl holds

theorem mono {better : α → σ × γ → Prop} (keeps : Keeps contract good step before)
    (values : ∀ value after, contract.later before after → good value after → better value after) :
    Keeps contract better step before := by
  refine Leads.mono keeps ?_ fun _ _ holds => holds
  rintro value after ⟨record, later, holds⟩
  exact ⟨record, later, values value _ later holds⟩

/-- **Sequencing.** The second step is judged from every later state that the first one leaves. -/
theorem bind {next : α → ExceptT ε (StateM σ) β} {better : β → σ × γ → Prop}
    (first : Keeps contract good step before)
    (second : ∀ value after, contract.later before after → good value after →
      Keeps contract better (next value) after) : Keeps contract better (step >>= next) before := by
  refine Leads.bind first ?_
  rintro value middle ⟨record, later, holds⟩
  refine Leads.mono (second value _ later holds) ?_ fun _ _ ⟨tolerated, left⟩ =>
    ⟨tolerated, contract.goes later left⟩
  rintro found after ⟨record', later', holds'⟩
  exact ⟨record', contract.trans later later', holds'⟩

theorem discard (keeps : Keeps contract good step before) :
    Keeps contract (fun _ _ => True) (Functor.discard step : ExceptT ε (StateM σ) Unit) before := by
  rcases same : step.run before.1 with ⟨fault | value, after⟩
  · exact .of_error (by rw [run_discard, same]) (keeps.error same) (keeps.left same)
  · obtain ⟨record, later, -⟩ := keeps.ok same
    have ran : (Functor.discard step : ExceptT ε (StateM σ) Unit).run before.1 =
        (.ok (), after) := by
      rw [run_discard, same]
    exact Leads.of_ok ran ⟨record, later, trivial⟩

end Keeps

/-! ### Two steps -/

/-- What two runs have in common: how their states are alike, and how a state comes later. -/
structure Simulation (σ : Type) where
  alike : σ → σ → Prop
  later : σ → σ → Prop
  refl : ∀ state, later state state
  trans : ∀ {before middle after}, later before middle → later middle after → later before after

/--
Two steps that give the same result and keep their states alike. What is good of a value is said of
the first state.
-/
structure Lockstep (both : Simulation σ) (good : α → σ → Prop)
    (step step' : ExceptT ε (StateM σ) α) (before before' : σ) : Prop where
  result : (step'.run before').1 = (step.run before).1
  alike : both.alike (step.run before).2 (step'.run before').2
  later : both.later before (step.run before).2
  good : ∀ value, (step.run before).1 = .ok value → good value (step.run before).2

namespace Lockstep

variable {both : Simulation σ} {good : α → σ → Prop} {step step' : ExceptT ε (StateM σ) α}
  {before before' after after' : σ}

/-- Two steps whose ends are known. -/
theorem of_run {result : Except ε α} (same : step.run before = (result, after))
    (same' : step'.run before' = (result, after')) (alike : both.alike after after')
    (later : both.later before after) (holds : ∀ value, result = .ok value → good value after) :
    Lockstep both good step step' before before' := by
  constructor
  · rw [same, same']
  · rw [same, same']
    exact alike
  · rw [same]
    exact later
  · rw [same]
    exact holds

theorem pure {value : α} (alike : both.alike before before') (holds : good value before) :
    Lockstep both good (Pure.pure value) (Pure.pure value : ExceptT ε (StateM σ) α)
      before before' :=
  of_run rfl rfl alike (both.refl before) fun _ same => Except.ok.inj same ▸ holds

theorem throw {fault : ε} (alike : both.alike before before') :
    Lockstep both good (MonadExcept.throw fault)
      (MonadExcept.throw fault : ExceptT ε (StateM σ) α) before before' :=
  of_run rfl rfl alike (both.refl before) nofun

/-- **Sequencing.** The second steps go together from every pair of states that the first leave. -/
theorem bind {next next' : α → ExceptT ε (StateM σ) β} {better : β → σ → Prop}
    (first : Lockstep both good step step' before before')
    (second : ∀ value after after', both.alike after after' → both.later before after →
      good value after → Lockstep both better (next value) (next' value) after after') :
    Lockstep both better (step >>= next) (step' >>= next') before before' := by
  obtain ⟨result, alike, later, holds⟩ := first
  rcases same : step.run before with ⟨found, after⟩
  rcases same' : step'.run before' with ⟨found', after'⟩
  rw [same, same'] at result alike
  rw [same] at later holds
  cases found with
  | ok value =>
    obtain rfl : found' = .ok value := result
    obtain ⟨result', alike', later', holds'⟩ :=
      second value after after' alike later (holds value rfl)
    constructor
    · rw [run_bind, run_bind, same, same']
      exact result'
    · rw [run_bind, run_bind, same, same']
      exact alike'
    · rw [run_bind, same]
      exact both.trans later later'
    · rw [run_bind, same]
      exact holds'
  | error fault =>
    obtain rfl : found' = .error fault := result
    refine of_run (by rw [run_bind, same]) (by rw [run_bind, same']) alike later ?_
    intro value wrong
    cases wrong

theorem discard (lockstep : Lockstep both good step step' before before') :
    Lockstep both (fun _ _ => True) (Functor.discard step : ExceptT ε (StateM σ) Unit)
      (Functor.discard step') before before' := by
  obtain ⟨result, alike, later, -⟩ := lockstep
  rcases same : step.run before with ⟨found, after⟩
  rcases same' : step'.run before' with ⟨found', after'⟩
  rw [same, same'] at result alike
  rw [same] at later
  cases found with
  | ok value =>
    obtain rfl : found' = .ok value := result
    exact of_run (by rw [run_discard, same]) (by rw [run_discard, same']) alike later
      fun _ _ => trivial
  | error fault =>
    obtain rfl : found' = .error fault := result
    exact of_run (by rw [run_discard, same]) (by rw [run_discard, same']) alike later
      fun _ _ => trivial

/-- A first step that only looks leaves the rest where it starts. -/
theorem of_look {value : α} {next next' : α → ExceptT ε (StateM σ) β} {better : β → σ → Prop}
    (same : step.run before = (.ok value, before))
    (same' : step'.run before' = (.ok value, before'))
    (rest : Lockstep both better (next value) (next' value) before before') :
    Lockstep both better (step >>= next) (step' >>= next') before before' := by
  obtain ⟨result, alike, later, holds⟩ := rest
  constructor
  · rw [run_bind, run_bind, same, same']
    exact result
  · rw [run_bind, run_bind, same, same']
    exact alike
  · rw [run_bind, same]
    exact later
  · rw [run_bind, same]
    exact holds

end Lockstep

end Generic

end WireProgram
