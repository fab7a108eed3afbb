/-
**Contracts of a run.**

A contract on the streams is extended to whole machines: the trace and the warnings may change
freely, and the lists by a rule, such as that a list that is there may change only if it belongs to a
loop that is still running. The main definitions:

* `Lists.Kept`, lists that grew and changed at most in some cells;
* `Lists.Rule`, how the lists of a run may change;
* `Contract.over` and `Contract.run`, the contract of a run;
* `Keeps.ofExcept`, `Keeps.onStreams` and their like, one rule for each operation on the machine;
* `Keeps.repeatBody`, `Keeps.withProgress` and `Keeps.untilTerminator`, loops and their parts.
-/

import WireProgram.Proofs.Step

namespace WireProgram

/-! ### Lists that are kept -/

/-- Lists that grew, and of which at most those in some cells changed. -/
structure Lists.Kept (loops : List Nat) (before after : Lists) : Prop where
  grown : before.size ≤ after.size
  same : ∀ cell < before.size, cell ∉ loops → after.get cell = before.get cell

namespace Lists.Kept

variable {loops : List Nat} {before middle after : Lists}

theorem refl (loops : List Nat) (lists : Lists) : Lists.Kept loops lists lists :=
  ⟨Nat.le_refl _, fun _ _ _ => rfl⟩

theorem trans (first : Lists.Kept loops before middle) (second : Lists.Kept loops middle after) :
    Lists.Kept loops before after := by
  refine ⟨Nat.le_trans first.grown second.grown, fun cell inside free => ?_⟩
  rw [second.same cell (Nat.lt_of_lt_of_le inside first.grown) free, first.same cell inside free]

theorem push (loops : List Nat) (lists : Lists) (items : List Value) :
    Lists.Kept loops lists (lists.push items) := by
  constructor
  · exact Nat.le_of_lt (Table.size_lt_push _ _)
  · intro cell inside _
    rw [Table.get_push, if_neg (Nat.ne_of_lt inside)]

theorem modify {cell : Nat} (member : cell ∈ loops) (lists : Lists)
    (change : List Value → List Value) : Lists.Kept loops lists (lists.modify cell change) := by
  refine ⟨Table.size_le_set _ _ _, fun other _ free => ?_⟩
  have apart : other ≠ cell := fun same => free (same ▸ member)
  show (lists.set cell _).get other = _
  rw [Table.get_set, if_neg apart]

theorem mono {more : List Nat} (kept : Lists.Kept loops before after) (within : loops ⊆ more) :
    Lists.Kept more before after :=
  ⟨kept.grown, fun cell inside free => kept.same cell inside fun member => free (within member)⟩

/-- What a loop does to its own new list is nothing to those before it. -/
theorem of_new {cell : Nat} (new : before.size ≤ cell)
    (kept : Lists.Kept (cell :: loops) before after) : Lists.Kept loops before after := by
  refine ⟨kept.grown, fun other inside free => kept.same other inside fun member => ?_⟩
  rcases List.mem_cons.mp member with rfl | member
  · omega
  · exact free member

end Lists.Kept

/-! ### The contract -/

/-- How the lists of a run may change: by such a rule, new lists may always come. -/
structure Lists.Rule where
  allows : Lists → Lists → Prop
  refl : ∀ lists, allows lists lists
  trans : ∀ {before middle after}, allows before middle → allows middle after → allows before after
  push : ∀ lists items, allows lists (lists.push items)

/-- Only the lists of some loops change. -/
def Lists.Rule.keeping (loops : List Nat) : Lists.Rule where
  allows := Lists.Kept loops
  refl := .refl loops
  trans := .trans
  push := .push loops

/-- The lists change in any way. -/
def Lists.Rule.freely : Lists.Rule where
  allows _ _ := True
  refl _ := trivial
  trans _ _ := trivial
  push _ _ := trivial

/-- The contract of a run: that of the streams, and the lists change by a rule. -/
def Contract.over {γ : Type} (streams : Contract Fault (Streams Codec) γ) (rule : Lists.Rule) :
    Contract Failure Machine γ where
  later before after :=
    streams.later (before.1.streams, before.2) (after.1.streams, after.2) ∧
      rule.allows before.1.lists after.1.lists
  tolerates failure := streams.tolerates failure.fault
  leaves before after := streams.leaves (before.1.streams, before.2) after.streams
  refl state := ⟨streams.refl _, rule.refl state.1.lists⟩
  trans first second := ⟨streams.trans first.1 second.1, rule.trans first.2 second.2⟩
  stays _ := streams.stays _
  goes later left := streams.goes later.1 left

/-- The contract of a run in which only the lists of some loops change. -/
abbrev Contract.run {γ : Type} (streams : Contract Fault (Streams Codec) γ) (loops : List Nat) :
    Contract Failure Machine γ :=
  .over streams (.keeping loops)

/-! ### The operations on the machine -/

namespace Keeps

variable {γ α β : Type} {streams : Contract Fault (Streams Codec) γ} {rule : Lists.Rule}
  {loops : List Nat}
  {state : Machine × γ} {good : α → Machine × γ → Prop} {better : β → Machine × γ → Prop}

theorem ofExcept {result : Except Fault α}
    (ends : Ends result (fun value => good value state) streams.tolerates) :
    Keeps (.over streams rule) good (Step.ofExcept result) state := by
  cases result with
  | ok value => exact .of_ok rfl (Contract.refl _ state) ends
  | error fault =>
    have ran : (Step.ofExcept (.error fault) : Step α).run state.1 =
        (.error ⟨fault, []⟩, state.1) := rfl
    exact .of_refused ran ends

/-- A computation that does not touch the machine, before the rest. -/
theorem ofExcept_bind {result : Except Fault α} {next : α → Step β} {holds : α → Prop}
    (ends : Ends result holds streams.tolerates)
    (rest : ∀ value, result = .ok value → holds value →
      Keeps (.over streams rule) better (next value) state) :
    Keeps (.over streams rule) better (Step.ofExcept result >>= next) state := by
  cases result with
  | ok value =>
    refine Leads.of_run ?_ (rest value rfl ends)
    rw [run_bind]
    rfl
  | error fault =>
    have ran : (Step.ofExcept (.error fault) >>= next).run state.1 =
        (.error ⟨fault, []⟩, state.1) := by
      rw [run_bind]
      rfl
    exact .of_refused ran ends

/-- A computation whose value is known, before the rest. -/
theorem ofExcept_ok {result : Except Fault α} {value : α} {next : α → Step β}
    (same : result = .ok value) (rest : Keeps (.over streams rule) better (next value) state) :
    Keeps (.over streams rule) better (Step.ofExcept result >>= next) state := by
  refine Leads.of_run ?_ rest
  rw [same, run_bind]
  rfl

/-- A look at the machine, before the rest. -/
theorem look_bind {question : Machine → α} {next : α → Step β}
    (rest : Keeps (.over streams rule) better (next (question state.1)) state) :
    Keeps (.over streams rule) better (Step.look question >>= next) state := by
  refine Leads.of_run ?_ rest
  rw [run_bind]
  rfl

theorem onStreams {step : StreamStep Codec α} {holds : α → Streams Codec × γ → Prop}
    (keeps : Keeps streams holds step (state.1.streams, state.2)) :
    Keeps (.over streams rule) (fun value after => holds value (after.1.streams, after.2))
      (Step.onStreams step) state := by
  rcases same : step.run state.1.streams with ⟨fault | value, after⟩
  · have ran : (Step.onStreams step).run state.1 =
        (.error ⟨fault, []⟩, { state.1 with streams := after }) := by
      rw [Step.run_onStreams, same]
      rfl
    exact .of_error ran (keeps.error same) (keeps.left same)
  · have ran : (Step.onStreams step).run state.1 =
        (.ok value, { state.1 with streams := after }) := by
      rw [Step.run_onStreams, same]
      rfl
    obtain ⟨record, later, found⟩ := keeps.ok same
    exact Leads.of_ok ran ⟨record, ⟨later, rule.refl state.1.lists⟩, found⟩

theorem onLists {act : Lists → Except Fault (α × Lists)}
    (ends : Ends (act state.1.lists) (fun result => rule.allows state.1.lists result.2 ∧
      good result.1 ({ state.1 with lists := result.2 }, state.2)) streams.tolerates) :
    Keeps (.over streams rule) good (Step.onLists act) state := by
  cases same : act state.1.lists with
  | ok result =>
    rw [same] at ends
    have ran : (Step.onLists act).run state.1 =
        (.ok result.1, { state.1 with lists := result.2 }) := by
      rw [Step.run_onLists, same]
    exact Leads.of_ok ran ⟨state.2, ⟨streams.refl _, ends.1⟩, ends.2⟩
  | error fault =>
    rw [same] at ends
    have ran : (Step.onLists act).run state.1 = (.error ⟨fault, []⟩, state.1) := by
      rw [Step.run_onLists, same]
    exact .of_refused ran ends

/-- A change of the trace or of the warnings. -/
theorem change {act : Machine → Machine} (same : (act state.1).streams = state.1.streams)
    (lists : (act state.1).lists = state.1.lists) :
    Keeps (.over streams rule) (fun _ after => after = (act state.1, state.2)) (Step.change act)
      state := by
  refine Leads.of_ok (Step.run_change act state.1) ⟨state.2, ⟨?_, ?_⟩, rfl⟩
  · rw [same]
    exact streams.refl _
  · rw [lists]
    exact rule.refl _

theorem record (config : Config) (event : String) (depth : Nat) (label detail : String) :
    Keeps (.over streams rule) (fun _ _ => True) (Step.record config event depth label detail)
      state := by
  refine (change ?_ ?_).mono fun _ _ _ _ => trivial
  · split <;> rfl
  · split <;> rfl

theorem warn (text : String) :
    Keeps (.over streams rule) (fun _ _ => True) (Step.warn text) state :=
  (change rfl rfl).mono fun _ _ _ _ => trivial

/-- An instruction at its place: the place is added to faults of the input only. -/
theorem guarded {step : Step α} (config : Config) (depth : Nat) (site : Site)
    (keeps : Keeps (.over streams rule) good step state) :
    Keeps (.over streams rule) good (Step.guarded config depth site step) state := by
  have ran := Step.run_guarded config depth site step state.1
  rcases same : step.run state.1 with ⟨failure | value, after⟩
  · rw [same] at ran
    refine .of_error ran ?_ ?_
    · show streams.tolerates (failure.within site).fault
      have tolerated : streams.tolerates failure.fault := keeps.error same
      unfold Failure.within
      split
      · exact tolerated
      · exact tolerated
    · show streams.leaves _ (Step.recorded config depth site failure after).streams
      rw [Step.recorded_streams]
      exact keeps.left same
  · rw [same] at ran
    exact Leads.of_ok ran (keeps.ok same)

/-- A new list is kept apart from all others. -/
theorem newList : Keeps (.over streams rule)
    (fun value after => ∃ cell, value = .list cell ∧ cell = state.1.lists.size ∧
      cell < after.1.lists.size) newList state := by
  refine onLists ⟨rule.push state.1.lists [], state.1.lists.size, rfl, rfl, ?_⟩
  show state.1.lists.size < (state.1.lists.push []).size
  exact Table.size_lt_push _ _

/-- What runs outside of all loops may also run inside of some. -/
theorem of_none {step : Step α} (keeps : Keeps (.run streams []) good step state) :
    Keeps (.run streams loops) good step state := by
  refine Leads.mono keeps ?_ fun _ _ holds => holds
  rintro value after ⟨record, later, holds⟩
  exact ⟨record, ⟨later.1, later.2.mono (List.nil_subset loops)⟩, holds⟩

/-- What runs under a new list of its own keeps to the contract of the loops around it. -/
theorem of_new {cell : Nat} {step : Step α} (new : state.1.lists.size ≤ cell)
    (keeps : Keeps (.run streams (cell :: loops)) good step state) :
    Keeps (.run streams loops) good step state := by
  refine Leads.mono keeps ?_ fun _ _ holds => holds
  rintro value after ⟨record, later, holds⟩
  exact ⟨record, ⟨later.1, later.2.of_new new⟩, holds⟩

/-! ### Loops -/

theorem repeatBody {body : Step Unit}
    (each : ∀ inner, (Contract.over streams rule).later state inner →
      Keeps (.over streams rule) (fun _ _ => True) body inner) (count : Nat) :
    Keeps (.over streams rule) (fun _ _ => True) (repeatBody body count) state := by
  induction count generalizing state with
  | zero => exact .pure trivial
  | succ count hypothesis =>
    refine (each state (Contract.refl _ state)).bind fun _ middle later _ => ?_
    exact hypothesis fun inner more => each inner (Contract.trans _ later more)

/-- A body that consumes nothing is a fault of its own. -/
theorem withProgress {body : Step Unit} {view : View}
    (stalls : streams.tolerates (.decode .stalledLoop))
    (keeps : Keeps (.over streams rule) (fun _ _ => True) body state) :
    Keeps (.over streams rule)
      (fun _ after => view.position after.1.streams ≠ view.position state.1.streams)
      (withProgress view body) state := by
  refine look_bind (keeps.bind fun _ after _ _ => look_bind ?_)
  split
  · exact .throw stalls
  · exact .pure ‹_›

/-- A loop up to a terminator, whose rounds all start in a state that allows for them. -/
theorem untilTerminator {view : View} {terminator : Bytes} {body : Step Unit}
    (allows : Nat → Machine × γ → Prop) (stalls : streams.tolerates (.decode .stalledLoop))
    (exhausted : ∀ state, allows 0 state → streams.tolerates (.misuse .boundExceeded))
    (later : ∀ {fuel before after}, allows fuel before →
      (Contract.over streams rule).later before after → allows fuel after)
    (round : ∀ {fuel before after}, allows (fuel + 1) before →
      (Contract.over streams rule).later before after →
        view.position after.1.streams ≠ view.position before.1.streams → allows fuel after)
    (approaches : ∀ {fuel state}, allows fuel state →
      Keeps streams (fun _ _ => True) (view.approach terminator) (state.1.streams, state.2))
    (each : ∀ {fuel state}, allows fuel state →
      Keeps (.over streams rule) (fun _ _ => True) body state)
    {fuel : Nat} (allowed : allows fuel state) :
    Keeps (.over streams rule) (fun _ _ => True) (untilTerminator view terminator body fuel)
      state := by
  induction fuel generalizing state with
  | zero => exact .throw (exhausted state allowed)
  | succ fuel hypothesis =>
    rw [untilTerminator_succ]
    refine (onStreams (approaches allowed)).bind fun approach seen more _ => ?_
    cases approach with
    | ended => exact .pure trivial
    | reached => exact .pure trivial
    | ahead =>
      have still := later allowed more
      refine (withProgress stalls (each still)).bind fun _ after next moved => ?_
      exact hypothesis (round still next moved)

end Keeps

end WireProgram
