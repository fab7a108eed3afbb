/-
**Steps that spare the lists of others.**

A step spares lists if only those in some cells change, however it ends: its failures are judged as its
values are, since what a run changed outlives them. A strict step also never breaks the discipline of
registers. The main definitions and statements:

* `Spares`, what a step does to the lists and how it may end;
* `Spares.ofExcept`, `Spares.onStreams` and their like, one rule for each operation on the machine;
* `Spares.newList_bind`, a new list is free to change;
* `Spares.repeatBody`, `Spares.untilTerminator` and `Spares.throughCursor`, the three loops.
-/

import WireProgram.Proofs.Discipline.Quiet

namespace WireProgram

/-- A step that changes no lists but those in some cells, however it ends, and that gives a good value
if it gives one. A strict step does not break the discipline of registers. -/
def Spares {α : Type} (strict : Prop) (loops : List Nat) (good : α → Prop) (step : Step α)
    (machine : Machine) : Prop :=
  Leads step machine
    (fun value after => Lists.Kept loops machine.lists after.lists ∧ good value)
    fun failure after => Lists.Kept loops machine.lists after.lists ∧
      (strict → ¬failure.fault.Breaks)

namespace Spares

variable {α β : Type} {strict : Prop} {loops : List Nat} {good : α → Prop} {better : β → Prop}
  {step : Step α} {machine after : Machine}

/-! ### What is known of the ends -/

theorem ok {value : α} (spares : Spares strict loops good step machine)
    (ran : step.run machine = (.ok value, after)) :
    Lists.Kept loops machine.lists after.lists ∧ good value := by
  unfold Spares at spares
  exact spares.ok ran

theorem error {failure : Failure} (spares : Spares strict loops good step machine)
    (ran : step.run machine = (.error failure, after)) :
    Lists.Kept loops machine.lists after.lists ∧ (strict → ¬failure.fault.Breaks) := by
  unfold Spares at spares
  exact spares.error ran

/-- However a step ends, it spares the lists. -/
theorem kept (spares : Spares strict loops good step machine) :
    Lists.Kept loops machine.lists (step.run machine).2.lists := by
  rcases ran : step.run machine with ⟨failure | value, after⟩
  · exact (spares.error ran).1
  · exact (spares.ok ran).1

/-! ### Steps one after the other -/

theorem pure {value : α} (holds : good value) :
    Spares strict loops good (Pure.pure value) machine :=
  Leads.pure ⟨.refl _ _, holds⟩

theorem throw {fault : Fault} (harmless : ¬fault.Breaks) :
    Spares strict loops good (MonadExcept.throw ⟨fault, []⟩) machine :=
  Leads.throw ⟨.refl _ _, fun _ => harmless⟩

theorem mono {more : α → Prop} (spares : Spares strict loops good step machine)
    (implied : ∀ value, good value → more value) : Spares strict loops more step machine :=
  Leads.mono spares (fun value _ holds => ⟨holds.1, implied value holds.2⟩) fun _ _ holds => holds

/-- **Sequencing.** The second step is judged from every machine that the first one leaves. -/
theorem bind {next : α → Step β} (first : Spares strict loops good step machine)
    (second : ∀ value after, Lists.Kept loops machine.lists after.lists → good value →
      Spares strict loops better (next value) after) :
    Spares strict loops better (step >>= next) machine := by
  have judged : Leads step machine
      (fun value after => Lists.Kept loops machine.lists after.lists ∧ good value)
      fun failure after => Lists.Kept loops machine.lists after.lists ∧
        (strict → ¬failure.fault.Breaks) := first
  refine judged.bind fun value middle holds => ?_
  refine Leads.mono (second value middle holds.1 holds.2) ?_ ?_
  · exact fun found after ends => ⟨holds.1.trans ends.1, ends.2⟩
  · exact fun failure after ends => ⟨holds.1.trans ends.1, ends.2⟩

theorem discard (spares : Spares strict loops good step machine) :
    Spares strict loops (fun _ => True) (Functor.discard step) machine := by
  rcases ran : step.run machine with ⟨failure | value, after⟩
  · exact Leads.of_error (by rw [run_discard, ran]) (spares.error ran)
  · exact Leads.of_ok (by rw [run_discard, ran]) ⟨(spares.ok ran).1, trivial⟩

/-- What spares all lists spares those beside some. -/
theorem of_none (spares : Spares strict [] good step machine) :
    Spares strict loops good step machine :=
  Leads.mono spares (fun _ _ holds => ⟨holds.1.mono (List.nil_subset loops), holds.2⟩)
    fun _ _ holds => ⟨holds.1.mono (List.nil_subset loops), holds.2⟩

/-- What spares some lists spares fewer, and may be strict or not. -/
theorem lax {more : List Nat} (spares : Spares strict loops good step machine) (within : loops ⊆ more) :
    Spares False more good step machine :=
  Leads.mono spares (fun _ _ holds => ⟨holds.1.mono within, holds.2⟩)
    fun _ _ holds => ⟨holds.1.mono within, False.elim⟩

/-- What changes a list that was not there yet spares those that were. -/
theorem of_new {cell : Nat} (new : machine.lists.size ≤ cell)
    (spares : Spares strict (cell :: loops) good step machine) :
    Spares strict loops good step machine :=
  Leads.mono spares (fun _ _ holds => ⟨holds.1.of_new new, holds.2⟩)
    fun _ _ holds => ⟨holds.1.of_new new, holds.2⟩

/-! ### The operations on the machine -/

theorem ofExcept {result : Except Fault α} (ends : Ends result good fun fault => ¬fault.Breaks) :
    Spares strict loops good (Step.ofExcept result) machine := by
  cases result with
  | ok value => exact Leads.of_ok rfl ⟨.refl _ _, ends⟩
  | error fault => exact Leads.of_error rfl ⟨.refl _ _, fun _ => ends⟩

/-- Any computation that does not touch the machine, where faults do not matter. -/
theorem computed (result : Except Fault α) :
    Spares False loops (fun _ => True) (Step.ofExcept result) machine := by
  cases result with
  | ok value => exact Leads.of_ok rfl ⟨.refl _ _, trivial⟩
  | error fault => exact Leads.of_error rfl ⟨.refl _ _, False.elim⟩

/-- A computation that does not touch the machine, before the rest. -/
theorem ofExcept_bind {result : Except Fault α} {next : α → Step β}
    (ends : Ends result good fun fault => ¬fault.Breaks)
    (rest : ∀ value, result = .ok value → good value →
      Spares strict loops better (next value) machine) :
    Spares strict loops better (Step.ofExcept result >>= next) machine := by
  cases result with
  | ok value =>
    refine Leads.of_run ?_ (rest value rfl ends)
    rw [run_bind]
    rfl
  | error fault =>
    have ran : (Step.ofExcept (.error fault) >>= next).run machine =
        (.error ⟨fault, []⟩, machine) := by
      rw [run_bind]
      rfl
    exact Leads.of_error ran ⟨.refl _ _, fun _ => ends⟩

/-- A look at the machine, before the rest. -/
theorem look_bind {question : Machine → α} {next : α → Step β}
    (rest : Spares strict loops better (next (question machine)) machine) :
    Spares strict loops better (Step.look question >>= next) machine := by
  refine Leads.of_run ?_ rest
  rw [run_bind]
  rfl

/-- What happens to the streams spares all lists. -/
theorem onStreams {operation : StreamStep Codec α} (quiet : Quiet operation) :
    Spares strict loops (fun _ => True) (Step.onStreams operation) machine := by
  have same := Step.run_onStreams operation machine
  rcases ran : operation.run machine.streams with ⟨fault | value, streams⟩
  · rw [ran] at same
    have mild : ¬fault.Static := (quiet (machine.streams, ())).error ran
    exact Leads.of_error same ⟨.refl _ _, fun _ breaks => mild breaks.static⟩
  · rw [ran] at same
    exact Leads.of_ok same ⟨.refl _ _, trivial⟩

theorem onLists {act : Lists → Except Fault (α × Lists)}
    (ends : Ends (act machine.lists)
      (fun result => Lists.Kept loops machine.lists result.2 ∧ good result.1)
      fun fault => strict → ¬fault.Breaks) :
    Spares strict loops good (Step.onLists act) machine := by
  have ran := Step.run_onLists act machine
  cases same : act machine.lists with
  | ok result =>
    rw [same] at ran ends
    have holds : Lists.Kept loops machine.lists result.2 ∧ good result.1 := ends
    exact Leads.of_ok ran holds
  | error fault =>
    rw [same] at ran ends
    have harmless : strict → ¬fault.Breaks := ends
    exact Leads.of_error ran ⟨.refl _ _, harmless⟩

/-- A change of the trace or of the warnings. -/
theorem change {act : Machine → Machine} (lists : (act machine).lists = machine.lists) :
    Spares strict loops (fun _ => True) (Step.change act) machine := by
  refine Leads.of_ok (Step.run_change act machine) ⟨?_, trivial⟩
  rw [lists]
  exact .refl _ _

theorem record (config : Config) (event : String) (depth : Nat) (label detail : String) :
    Spares strict loops (fun _ => True) (Step.record config event depth label detail) machine := by
  refine change ?_
  split <;> rfl

theorem warn (text : String) : Spares strict loops (fun _ => True) (Step.warn text) machine :=
  change rfl

/-- An instruction at its place: only a fault of the input gets the place. -/
theorem guarded (config : Config) (depth : Nat) (site : Site)
    (spares : Spares strict loops good step machine) :
    Spares strict loops good (Step.guarded config depth site step) machine := by
  have ran := Step.run_guarded config depth site step machine
  rcases same : step.run machine with ⟨failure | value, after⟩
  · rw [same] at ran
    obtain ⟨kept, harmless⟩ := spares.error same
    refine Leads.of_error ran ⟨?_, ?_⟩
    · unfold Step.recorded
      split <;> exact kept
    · unfold Failure.within
      split <;> exact harmless
  · rw [same] at ran
    exact Leads.of_ok ran (spares.ok same)

/-- **A new list** is free to change in what comes after it. -/
theorem newList_bind {next : Value → Step β}
    (rest : Spares strict (machine.lists.size :: loops) better (next (.list machine.lists.size))
      { machine with lists := machine.lists.push [] }) :
    Spares strict loops better (newList >>= next) machine := by
  refine of_new (Nat.le_refl _) ?_
  let listed : Machine := { machine with lists := machine.lists.push [] }
  have makes : Leads newList machine
      (fun value after => value = .list machine.lists.size ∧ after = listed)
      fun failure after => Lists.Kept (machine.lists.size :: loops) machine.lists after.lists ∧
        (strict → ¬failure.fault.Breaks) := Leads.of_ok rfl ⟨rfl, rfl⟩
  have pushed := Lists.Kept.push (machine.lists.size :: loops) machine.lists []
  refine makes.bind ?_
  rintro value after ⟨rfl, rfl⟩
  exact Leads.mono rest (fun _ _ holds => ⟨pushed.trans holds.1, holds.2⟩)
    fun _ _ holds => ⟨pushed.trans holds.1, holds.2⟩

/-! ### Loops -/

theorem repeatBody {body : Step Unit}
    (each : ∀ inner, Spares strict loops (fun _ => True) body inner) (count : Nat) :
    Spares strict loops (fun _ => True) (repeatBody body count) machine := by
  induction count generalizing machine with
  | zero => exact .pure trivial
  | succ count hypothesis => exact (each machine).bind fun _ _ _ _ => hypothesis

/-- A body that consumes nothing is a fault of its own. -/
theorem withProgress {body : Step Unit} (view : View)
    (spares : Spares strict loops (fun _ => True) body machine) :
    Spares strict loops (fun _ => True) (withProgress view body) machine := by
  refine look_bind (spares.bind fun _ after _ _ => look_bind ?_)
  split
  · exact .throw id
  · exact .pure trivial

theorem untilTerminator {body : Step Unit} (view : View) (terminator : Bytes)
    (each : ∀ inner, Spares strict loops (fun _ => True) body inner) (fuel : Nat) :
    Spares strict loops (fun _ => True) (untilTerminator view terminator body fuel) machine := by
  induction fuel generalizing machine with
  | zero => exact .throw id
  | succ fuel hypothesis =>
    refine (onStreams (view.fillBuf_quiet _)).bind fun peeked _ _ _ => ?_
    split
    · exact .pure trivial
    · split
      · exact onStreams (view.consume_quiet _)
      · exact ((each _).withProgress view).bind fun _ _ _ _ => hypothesis

theorem throughCursor {body : Step Unit} (cursor : View)
    (each : ∀ inner, Spares strict loops (fun _ => True) body inner) (fuel : Nat) :
    Spares strict loops (fun _ => True) (throughCursor cursor body fuel) machine := by
  induction fuel generalizing machine with
  | zero => exact .throw id
  | succ fuel hypothesis =>
    refine look_bind ?_
    split
    · exact .pure trivial
    · exact ((each _).withProgress cursor).bind fun _ _ _ _ => hypothesis

end Spares

end WireProgram
