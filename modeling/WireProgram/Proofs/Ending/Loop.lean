/-
**Rounds of loops, counted.**

A loop without a count tests its stream and runs a round, until the test fails. So many whole rounds
lead from one machine to another, whatever bound the loop has; every round adds to the position of the
stream, and so no stream gives more rounds than bytes. The main definitions and statements:

* `repeatWhile`, a loop with a test, and `untilTerminator_eq` and `throughCursor_eq`;
* `laps`, so many whole rounds of a loop;
* `laps_keeps`, what every round keeps up, and `laps_position`, what it pays with;
* `Loop` and `Station.Begins`, the loops that an instruction comes to.
-/

import WireProgram.Proofs.Ending.Run
import WireProgram.Proofs.Station

namespace WireProgram

/-! ### Loops with a test -/

/-- Runs a body as long as a test holds. -/
def repeatWhile (test : Step Bool) (body : Step Unit) : (fuel : Nat) → Step Unit
  | 0 => throw ⟨.misuse .boundExceeded, []⟩
  | fuel + 1 => do
    if ← test then
      body
      repeatWhile test body fuel

/-- Whether a loop up to a terminator goes on: there is more, and it is not the terminator. -/
def View.goesOn (view : View) (terminator : Bytes) : Step Bool := do
  match ← Step.onStreams (view.approach terminator) with
  | .ahead => return true
  | .ended | .reached => return false

theorem View.goesOn_of_peeked {view : View} {terminator peeked : Bytes} {before after : Machine}
    (ran : (Step.onStreams (view.fillBuf terminator.length)).run before = (.ok peeked, after))
    (more : peeked.isEmpty = false) (apart : peeked.take terminator.length ≠ terminator) :
    (view.goesOn terminator).run before = (.ok true, after) := by
  have ahead : Approach.of terminator peeked = .ahead := by
    unfold Approach.of
    rw [more, if_neg Bool.false_ne_true, if_neg apart]
  have approached : (Step.onStreams (view.approach terminator)).run before =
      (.ok .ahead, after) := by
    unfold approach
    rw [Step.onStreams_bind, run_bind, ran]
    dsimp only
    rw [ahead]
    rfl
  unfold goesOn
  rw [run_bind, approached]
  rfl

/-- Whether a loop through a cursor goes on: the cursor is not at its end. -/
def View.hasMore (cursor : View) : Step Bool :=
  Step.look fun machine => !cursor.atEnd machine.streams

theorem Step.Immediate.goesOn (view : View) (terminator : Bytes) :
    (view.goesOn terminator).Immediate := by
  refine .bind (.onStreams _) fun approach => ?_
  cases approach <;> exact .pure _

theorem Step.Immediate.hasMore (cursor : View) : cursor.hasMore.Immediate :=
  .look fun _ _ => rfl

theorem untilTerminator_eq (view : View) (terminator : Bytes) (body : Step Unit) (fuel : Nat) :
    untilTerminator view terminator body fuel =
      repeatWhile (view.goesOn terminator) (withProgress view body) fuel := by
  induction fuel with
  | zero => rfl
  | succ fuel hypothesis =>
    rw [untilTerminator_succ, repeatWhile, View.goesOn, bind_assoc]
    refine congrArg _ (funext fun approach => ?_)
    cases approach with
    | ended => rfl
    | reached => rfl
    | ahead =>
      rw [hypothesis, pure_bind, if_pos rfl]
      rfl

theorem throughCursor_eq (cursor : View) (body : Step Unit) (fuel : Nat) :
    throughCursor cursor body fuel =
      repeatWhile cursor.hasMore (withProgress cursor body) fuel := by
  induction fuel with
  | zero => rfl
  | succ fuel hypothesis =>
    funext machine
    rw [throughCursor, repeatWhile, hypothesis]
    show (Step.look _ >>= _).run machine = (cursor.hasMore >>= _).run machine
    rw [run_bind, run_bind, View.hasMore, Step.run_look, Step.run_look]
    cases cursor.atEnd machine.streams <;> rfl

/-- The machine after so many whole rounds of a loop, if there are as many. -/
def laps (test : Step Bool) (body : Step Unit) : (count : Nat) → Machine → Option Machine
  | 0, machine => some machine
  | count + 1, machine =>
    match test.run machine with
    | (.ok true, tested) =>
      match body.run tested with
      | (.ok (), after) => laps test body count after
      | (.error _, _) => none
    | _ => none

section Laps

variable {test : Step Bool} {body : Step Unit} {count : Nat} {machine after : Machine}

theorem laps_succ (lapped : laps test body (count + 1) machine = some after) :
    ∃ tested ended, test.run machine = (.ok true, tested) ∧ body.run tested = (.ok (), ended) ∧
      laps test body count ended = some after := by
  rw [laps] at lapped
  split at lapped
  · rename_i tested ran
    split at lapped
    · exact ⟨tested, _, ran, ‹_›, lapped⟩
    · cases lapped
  · cases lapped

/-- One more round at the end. -/
theorem laps_concat (lapped : laps test body count machine = some after) {tested ended : Machine}
    (holds : test.run after = (.ok true, tested)) (ran : body.run tested = (.ok (), ended)) :
    laps test body (count + 1) machine = some ended := by
  induction count generalizing machine with
  | zero =>
    cases lapped
    simp only [laps, holds, ran]
  | succ count hypothesis =>
    obtain ⟨first, second, holds', ran', others⟩ := laps_succ lapped
    rw [laps]
    simp only [holds', ran']
    exact hypothesis others

/-- **What is counted is what runs:** a loop goes on from where its rounds have come to. -/
theorem repeatWhile_laps (lapped : laps test body count machine = some after) (fuel : Nat) :
    (repeatWhile test body (count + fuel)).run machine = (repeatWhile test body fuel).run after := by
  induction count generalizing machine with
  | zero =>
    cases lapped
    rw [Nat.zero_add]
  | succ count hypothesis =>
    obtain ⟨tested, ended, holds, ran, others⟩ := laps_succ lapped
    rw [Nat.succ_add, repeatWhile, run_bind, holds]
    show ((body >>= fun _ => repeatWhile test body (count + fuel)).run tested) = _
    rw [run_bind, ran]
    exact hypothesis others

/-- A round that consumed something is a run of its body. -/
theorem withProgress_ok {view : View}
    (ran : (withProgress view body).run machine = (.ok (), after)) :
    body.run machine = (.ok (), after) := by
  unfold withProgress at ran
  rw [run_bind_ok (Step.run_look _ _)] at ran
  rcases ended : body.run machine with ⟨failure | _, last⟩
  · cases (run_bind_error ended).symm.trans ran
  · rw [run_bind_ok ended, run_bind_ok (Step.run_look _ _)] at ran
    split at ran
    · cases ran
    · exact congrArg (Prod.mk _) (congrArg Prod.snd ran)

end Laps

/-! ### Rounds and bytes -/

section Rounds

variable {γ : Type} {streams : Contract Fault (Streams Codec) γ} {rule : Lists.Rule}
  {state : Machine × γ} {view : View} {test : Step Bool} {round : Step Unit}

/-- **What every round keeps up,** as it adds to the position of the stream, holds after all of them. -/
theorem laps_keeps (stalls : streams.tolerates (.decode .stalledLoop))
    (tests : ∀ inner, (Contract.over streams rule).later state inner →
      Keeps (.over streams rule) (fun _ _ => True) test inner)
    (rounds : ∀ inner, (Contract.over streams rule).later state inner →
      Keeps (.over streams rule) (fun _ _ => True) round inner)
    (holds : Nat → Machine → Prop) (start : holds 0 state.1)
    (next : ∀ {count inner tested ended}, (Contract.over streams rule).later state inner →
      (Contract.over streams rule).later inner tested →
      (Contract.over streams rule).later tested ended →
        view.position ended.1.streams ≠ view.position tested.1.streams → holds count inner.1 →
          holds (count + 1) ended.1)
    {count : Nat} {after : Machine}
    (lapped : laps test (withProgress view round) count state.1 = some after) :
    ∃ record, (Contract.over streams rule).later state (after, record) ∧ holds count after := by
  let contract := Contract.over streams rule
  induction count generalizing state holds with
  | zero =>
    cases lapped
    exact ⟨state.2, contract.refl state, start⟩
  | succ count hypothesis =>
    obtain ⟨tested, ended, goesOn, ran, others⟩ := laps_succ lapped
    obtain ⟨first, toTest, -⟩ := (tests state (contract.refl state)).ok goesOn
    have progress := @Keeps.withProgress _ _ rule _ round view stalls (rounds _ toTest)
    obtain ⟨second, toEnd, moved⟩ := progress.ok ran
    have both := contract.trans toTest toEnd
    obtain ⟨last, toAfter, kept⟩ := hypothesis
      (fun inner later => tests inner (contract.trans both later))
      (fun inner later => rounds inner (contract.trans both later)) (fun count => holds (count + 1))
      (next (contract.refl state) toTest toEnd moved start)
      (fun later => next (contract.trans both later)) others
    exact ⟨last, contract.trans both toAfter, kept⟩

/-- **Every round pays** with a byte of the stream, if time only passes on it. -/
theorem laps_position (stalls : streams.tolerates (.decode .stalledLoop))
    (advances : ∀ {inner after}, (Contract.over streams rule).later state inner →
      (Contract.over streams rule).later inner after →
        view.position inner.1.streams ≤ view.position after.1.streams)
    (tests : ∀ inner, (Contract.over streams rule).later state inner →
      Keeps (.over streams rule) (fun _ _ => True) test inner)
    (rounds : ∀ inner, (Contract.over streams rule).later state inner →
      Keeps (.over streams rule) (fun _ _ => True) round inner)
    {count : Nat} {after : Machine}
    (lapped : laps test (withProgress view round) count state.1 = some after) :
    ∃ record, (Contract.over streams rule).later state (after, record) ∧
      view.position state.1.streams + count ≤ view.position after.streams := by
  let contract := Contract.over streams rule
  refine laps_keeps stalls tests rounds
    (fun count inner => view.position state.1.streams + count ≤ view.position inner.streams)
    (Nat.le_refl _) ?_ lapped
  intro count inner tested ended toInner toTest toEnd moved paid
  have before := advances toInner toTest
  have during := advances (contract.trans toInner toTest) toEnd
  omega

end Rounds

/-! ### The loops of a run -/

/-- A loop without a count, from the machine on which it makes its first test. -/
structure Loop where
  /-- The stream of which every round has to consume something. -/
  view : View
  test : Step Bool
  round : Step Unit
  start : Machine
  /-- The number of bytes that its stream can give from there on. -/
  supply : Nat
  /-- How a round enters its block on a machine. -/
  entry : Machine → Station.Entry
  /-- The frame after the loop. -/
  frame : Frame

/-- A round of a loop, which has to consume something. -/
def Loop.body (loop : Loop) : Step Unit :=
  withProgress loop.view loop.round

/-- The machine after so many whole rounds of a loop, if there are as many. -/
def Loop.after (loop : Loop) (count : Nat) : Option Machine :=
  laps loop.test loop.body count loop.start

/-- The body runs without consuming anything, and is refused. -/
theorem Loop.refused (loop : Loop) {before after : Machine}
    (ran : loop.round.run before = (.ok (), after))
    (same : loop.view.position after.streams = loop.view.position before.streams) :
    loop.body.run before = (.error ⟨.decode .stalledLoop, []⟩, after) := by
  unfold body withProgress
  rw [run_bind, Step.run_look]
  dsimp only
  rw [run_bind, ran]
  dsimp only
  rw [run_bind, Step.run_look]
  dsimp only
  rw [if_pos same]
  rfl

/-- How an instruction comes to a loop: up to a terminator, or through what its stream had to give. -/
inductive Station.Begins (station : Station) : Instruction → Loop → Prop
  | terminated {target : Target} {terminator output : Register} {body : List Instruction}
    {view : View} {value : Value} {ending : Bytes} {cell : Nat} {frame : Frame} {listed : Machine}
    (targeted : station.frame.target target = .ok view)
    (read : station.frame.get terminator = .ok value)
    (ends : value.toBytes
      (station.started (.loop target none (some terminator) output body)).lists
      (view.weight (station.started (.loop target none (some terminator) output body)).streams + 1)
        = .ok ending)
    (filled : ending ≠ [])
    (lists : newList.run (station.started (.loop target none (some terminator) output body)) =
      (.ok (.list cell), listed))
    (written : station.frame.set output (.list cell) = .ok frame) :
    Begins station (.loop target none (some terminator) output body)
      { view := view
        test := view.goesOn ending
        round := station.round body (frame.child none [])
        start := listed
        supply := view.budget listed.streams
        entry := fun machine => ⟨[cell], body, frame.child none [], machine⟩
        frame := frame }
  | throughout {target : Target} {output : Register} {body : List Instruction} {view cursor : View}
    {content : Bytes} {cell : Nat} {frame : Frame} {drained opened listed : Machine}
    (targeted : station.frame.target target = .ok view)
    (read : (Step.onStreams view.readToEnd).run
      (station.started (.loop target none none output body)) = (.ok content, drained))
    (opens : (Step.onStreams (openedBy fun streams => streams.openCursor content)).run drained =
      (.ok cursor, opened))
    (lists : newList.run opened = (.ok (.list cell), listed))
    (written : station.frame.set output (.list cell) = .ok frame) :
    Begins station (.loop target none none output body)
      { view := cursor
        test := cursor.hasMore
        round := station.round body (cursorFrame frame target cursor)
        start := listed
        supply := content.length
        entry := fun machine => ⟨[cell], body, cursorFrame frame target cursor, machine⟩
        frame := frame }

namespace Station

variable {station : Station} {instruction : Instruction} {loop other : Loop}

/-- An instruction comes to one loop at most. -/
theorem Begins.unique (begins : station.Begins instruction loop)
    (again : station.Begins instruction other) : other = loop := by
  cases begins with
  | terminated targeted read ends filled lists written =>
    cases again with
    | terminated targeted' read' ends' filled' lists' written' =>
      cases targeted.symm.trans targeted'
      cases read.symm.trans read'
      cases ends.symm.trans ends'
      cases lists.symm.trans lists'
      cases written.symm.trans written'
      rfl
  | throughout targeted read opens lists written =>
    cases again with
    | throughout targeted' read' opens' lists' written' =>
      cases targeted.symm.trans targeted'
      cases read.symm.trans read'
      cases opens.symm.trans opens'
      cases lists.symm.trans lists'
      cases written.symm.trans written'
      rfl

/-- **The instruction runs its loop**, and goes on in the frame after it. The bound of the loop is above
what its stream can give. -/
theorem Begins.run (begins : station.Begins instruction loop) :
    ∃ fuel, loop.supply < fuel ∧ (instruction.run station.environment station.refer station.frame).run
        (station.started instruction) =
      (repeatWhile loop.test loop.body fuel >>= fun _ => pure loop.frame).run loop.start := by
  cases begins with
  | @terminated target terminator output body view value ending cell frame listed targeted read ends
      filled lists written =>
    refine ⟨view.weight (station.started (.loop target none (some terminator) output body)).streams + 1,
      Nat.lt_succ_of_le ?_, ?_⟩
    · obtain rfl := (Prod.mk.inj lists).2
      exact View.budget_le_weight _ _
    unfold Instruction.run
    rw [run_bind_ok (Step.run_ofExcept_ok targeted _), run_bind_ok (Step.run_ofExcept_ok read _),
      run_bind_ok (Step.run_look _ _), run_bind_ok (Step.run_look _ _),
      run_bind_ok (Step.run_ofExcept_ok ends _)]
    dsimp only
    rw [if_neg fun empty => filled (List.isEmpty_iff.mp empty), run_bind_ok lists,
      run_bind_ok (Step.run_ofExcept_ok written _), untilTerminator_eq]
    rfl
  | @throughout target output body view cursor content cell frame drained opened listed targeted read
      opens lists written =>
    refine ⟨content.length + 1, Nat.lt_succ_self _, ?_⟩
    unfold Instruction.run
    rw [run_bind_ok (Step.run_ofExcept_ok targeted _), run_bind_ok read, run_bind_ok opens,
      run_bind_ok lists, run_bind_ok (Step.run_ofExcept_ok written _)]
    dsimp only
    rw [throughCursor_eq]
    rfl

end Station

end WireProgram
