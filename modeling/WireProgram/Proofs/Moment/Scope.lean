/-
**Frames, as long as they live.**

A block runs in a frame of its own. While it runs, the frames around it wait, and so do those of the
messages that refer to the one it is in: together with its own frame they are the frames alive. A run
writes to the innermost one only, and only registers that nothing visible has been written to. The main
definitions and statements:

* `Frame.Grown`, a frame after some writes, and `Frame.set_of_sees`, a write that is refused;
* `Moment.live`, the frames alive at a moment, and `Moment.Holds`, one of them above certain others;
* `Moment.Waits`, what an instruction does to the frame of its block while it runs;
* `Moment.Scoped`, what holds of a moment and of all that is executed from there on in its block;
* `decode_scoped`, **a run is scoped**, whatever its program.
-/

import WireProgram.Proofs.Discipline.Exact
import WireProgram.Proofs.Discipline.Place
import WireProgram.Proofs.Moment.Order

namespace WireProgram

/-! ### Frames that grow -/

/-- A frame after some writes: what was visible is what it was, and neither the scopes around nor the
reader changed. -/
structure Frame.Grown (before after : Frame) : Prop where
  find? : ∀ slot value, before.find? slot = some value → after.find? slot = some value
  enclosing : after.enclosing = before.enclosing
  reader : after.scope.reader = before.scope.reader

namespace Frame

variable {frame before middle after : Frame} {register : Register} {value : Value}

namespace Grown

theorem refl (frame : Frame) : frame.Grown frame :=
  ⟨fun _ _ found => found, rfl, rfl⟩

theorem trans (first : before.Grown middle) (second : middle.Grown after) : before.Grown after :=
  ⟨fun slot value found => second.find? slot value (first.find? slot value found),
    second.enclosing.trans first.enclosing, second.reader.trans first.reader⟩

/-- A register that is visible keeps denoting what it denoted. -/
theorem get (grown : before.Grown after) (found : before.get register = .ok value) :
    after.get register = .ok value := by
  obtain ⟨slot, addressed, holds⟩ := get_eq_ok.mp found
  exact get_eq_ok.mpr ⟨slot, addressed, grown.find? slot value holds⟩

/-- The stream without a register stays the same. -/
theorem ambient (grown : before.Grown after) : after.reader = before.reader := by
  unfold Frame.reader scopes
  rw [List.findSome?_cons, List.findSome?_cons, grown.reader, grown.enclosing]

theorem of_set (written : before.set register value = .ok after) : before.Grown after := by
  obtain ⟨slot, -, free, rfl⟩ := set_eq_ok.mp written
  refine ⟨fun other value found => ?_, rfl, rfl⟩
  have apart : other ≠ slot := by
    rintro rfl
    rw [free] at found
    cases found
  rw [find?_write, if_neg apart, found]

end Grown

/-- A frame after at most one write, to a certain register. -/
def Adds (register : Register) (before after : Frame) : Prop :=
  after = before ∨ ∃ value, before.set register value = .ok after

theorem Adds.grown (adds : Adds register before after) : before.Grown after := by
  rcases adds with rfl | ⟨value, written⟩
  · exact .refl _
  · exact .of_set written

/-- **A write to a register that is visible is refused,** whether its own scope or one around it has
the register. -/
theorem set_of_sees (sees : frame.Sees register) (value : Value) :
    frame.set register value = .error (.program (.writtenTwice register)) := by
  obtain ⟨held, read⟩ := sees
  obtain ⟨slot, addressed, found⟩ := get_eq_ok.mp read
  unfold set slotOf
  simp [bind, Except.bind, addressed, found, throw, throwThe, MonadExceptOf.throw]

/-- The frame of some scopes and those around it, innermost first. -/
def ofScopes : List Scope → List Frame
  | [] => []
  | scope :: rest => ⟨scope, rest⟩ :: ofScopes rest

/-- A frame and the frames around it, innermost first. -/
def chain (frame : Frame) : List Frame :=
  ofScopes frame.scopes

/-- What a frame around sees is visible. -/
theorem sees_of_mem_chain {outer : Frame} (member : outer ∈ frame.chain)
    (sees : outer.Sees register) : frame.Sees register := by
  obtain ⟨value, read⟩ := sees
  obtain ⟨slot, addressed, found⟩ := get_eq_ok.mp read
  have visible : ∀ scopes, outer ∈ ofScopes scopes →
      ∃ held, scopes.findSome? (fun scope => scope.slots.lookup slot) = some held := by
    intro scopes
    induction scopes with
    | nil => exact fun member => absurd member List.not_mem_nil
    | cons scope rest hypothesis =>
      intro member
      rcases List.mem_cons.mp member with rfl | member
      · exact ⟨value, found⟩
      · rw [List.findSome?_cons]
        cases scope.slots.lookup slot with
        | none => exact hypothesis member
        | some held => exact ⟨held, rfl⟩
  obtain ⟨held, found⟩ := visible _ member
  exact ⟨held, get_eq_ok.mpr ⟨slot, addressed, found⟩⟩

end Frame

theorem enclosing_cursorFrame (frame : Frame) (target : Target) (cursor : View) :
    (cursorFrame frame target cursor).enclosing = frame.scopes := by
  rcases cursorFrame_cases frame target cursor with same | same | ⟨-, slot, -, -, same⟩
  all_goals
    rw [same]
    rfl

/-- The frame of the arguments has no scope around it. -/
theorem enclosing_of_bindArguments {program : Program} {values : List Value} {frame : Frame}
    (bound : bindArguments program values = .ok frame) : frame.enclosing = [] := by
  refine @bindArguments_keeps frame program values (fun frame => frame.enclosing = []) rfl
    (fun frame next register value _ empty written => ?_) bound
  exact (Frame.Grown.of_set written).enclosing.trans empty

/-! ### The frames alive -/

namespace Moment

/-- The frames that wait at a moment: those around the frame of the block, and those of the messages
that refer to the one it is in. -/
def below (moment : Moment) : List Frame :=
  Frame.ofScopes moment.station.frame.enclosing ++ moment.waiting.flatMap Frame.chain

/-- **The frames alive at a moment,** innermost first. -/
def live (moment : Moment) : List Frame :=
  moment.station.frame :: moment.below

/-- A frame alive at a moment, above certain others. -/
def Holds (base : List Frame) (moment : Moment) (frame : Frame) : Prop :=
  ∃ inner, moment.live = inner ++ frame :: base

variable {moment next last : Moment} {base : List Frame} {frame held : Frame} {instruction : Instruction}
  {rest : List Instruction}

theorem holds_self (moment : Moment) : moment.Holds moment.below moment.station.frame :=
  ⟨[], rfl⟩

/-- There is one such frame at most. -/
theorem Holds.unique (holds : moment.Holds base frame) (again : moment.Holds base held) :
    held = frame := by
  obtain ⟨inner, same⟩ := holds
  obtain ⟨inner', same'⟩ := again
  have whole := List.append_inj_right' (same'.symm.trans same) rfl
  exact (List.cons.inj whole).1

/-! ### What an instruction does to the frames -/

/-- The registers that a block of an instruction sees as they are outside: all of them, but for the
stream of a loop that runs through what it has to give. A message sees none of them. -/
def Shares : Instruction → Register → Prop
  | .decodeReference _ _ _ _, _ => False
  | .loop target none none _ _, register => ∀ own ∈ target.reads, own.slot? ≠ register.slot?
  | _, _ => True

/-- The frame in which an instruction starts a block or a message, while the frame of its own block
waits: one of its own, with nothing in it, through which the block sees the frame that waits; for a loop
through what a stream has to give, one in which the stream is a cursor; and for a message, one with
nothing around it. -/
def Brings (instruction : Instruction) (held frame : Frame) : Prop :=
  match instruction with
  | .decodeReference _ _ _ _ => frame.enclosing = []
  | .loop target none none _ _ =>
    ∃ cursor, frame = cursorFrame held target cursor ∧ frame.target target = .ok cursor
  | _ => frame = held.child none []

/-- A block starts with what is visible where it is. -/
theorem Brings.get {register : Register} (brings : Brings instruction held frame)
    (shares : Shares instruction register) : frame.get register = held.get register := by
  have inner : (held.child none []).get register = held.get register := held.get_inner register
  cases instruction with
  | decodeReference => exact shares.elim
  | loop target stop terminator output body =>
    cases stop with
    | some stop => exact brings ▸ inner
    | none =>
      cases terminator with
      | some terminator => exact brings ▸ inner
      | none =>
        obtain ⟨cursor, rfl, -⟩ := brings
        refine Frame.get_congr fun slot addressed => find?_cursorFrame cursor fun own reads => ?_
        exact addressed ▸ shares own reads
  | _ => exact brings ▸ inner

section Completed

variable {after : Machine} (ran : (instruction.run moment.station.environment moment.station.refer
  moment.station.frame).run (moment.station.started instruction) = (.ok frame, after))
include ran

/-- An instruction that completes has written its register, which was not visible, unless it adds to a
list. -/
theorem wrote_of_run :
    (instruction.isWriter = true ∧ ¬ moment.station.frame.Sees instruction.labelRegister ∧
      ∃ value, moment.station.frame.set instruction.labelRegister value = .ok frame) ∨
    instruction.isWriter = false ∧ frame = moment.station.frame := by
  have fresh : ∀ register, (∃ value, moment.station.frame.set register value = .ok frame) →
      ¬ moment.station.frame.Sees register := by
    rintro register ⟨value, written⟩ sees
    rw [Frame.set_of_sees sees] at written
    cases written
  obtain ⟨-, wrote⟩ := Instruction.run_yields _ _ _ _ _ _ _ ran
  cases instruction with
  | loopOutput => exact .inr ⟨rfl, wrote⟩
  | _ => exact .inl ⟨rfl, fresh _ wrote, wrote⟩

theorem adds_of_run : moment.station.frame.Adds instruction.labelRegister frame := by
  rcases wrote_of_run ran with ⟨-, -, written⟩ | ⟨-, same⟩
  · exact .inr written
  · exact .inl same

end Completed

/-- Above the frame that waits stands what a block starts in. -/
theorem below_of_enclosing {station : Station} (grown : moment.station.frame.Grown held)
    (enclosing : station.frame.enclosing = held.scopes) :
    below ⟨station, moment.waiting⟩ = held :: moment.below := by
  unfold below
  rw [enclosing]
  show held :: (Frame.ofScopes held.enclosing ++ moment.waiting.flatMap Frame.chain) = _
  rw [grown.enclosing]

/-- **While an instruction runs, the frame of its block waits** with at most the list of a loop written
in it. All that the instruction starts is above it, and all rounds of a loop start alike. If the
instruction completes, its block goes on in the frame that waited, with at most one write more. -/
structure Waits (moment : Moment) (instruction : Instruction) (held : Frame) : Prop where
  waiting : moment.station.frame.Adds instruction.labelRegister held
  above : ∀ next ∈ moment.entered instruction,
    next.below = held :: moment.below ∧ Brings instruction held next.station.frame
  alike : ∀ next ∈ moment.entered instruction, ∀ other ∈ moment.entered instruction,
    other.station.frame = next.station.frame
  goesOn : ∀ frame after, (instruction.run moment.station.environment moment.station.refer
    moment.station.frame).run (moment.station.started instruction) = (.ok frame, after) →
      held.Adds instruction.labelRegister frame

/-- An instruction that starts one block or message, or none. -/
theorem waits_of_single (each : ∀ next ∈ moment.entered instruction,
      next.below = moment.station.frame :: moment.below ∧
        Brings instruction moment.station.frame next.station.frame)
    (single : (moment.entered instruction).length ≤ 1) :
    moment.Waits instruction moment.station.frame := by
  refine ⟨.inl rfl, each, fun next member other member' => ?_, fun _ _ => adds_of_run⟩
  obtain ⟨first, same⟩ : ∃ first, ∀ moment' ∈ moment.entered instruction, moment' = first := by
    cases found : moment.entered instruction with
    | nil => rw [found] at member; cases member
    | cons first rest =>
      rw [found, List.length_cons] at single
      obtain rfl := List.length_eq_zero_iff.mp (Nat.le_zero.mp (Nat.le_of_succ_le_succ single))
      exact ⟨first, fun _ inside => List.mem_singleton.mp inside⟩
  rw [same next member, same other member']

theorem waits_of_nothing (nothing : moment.entered instruction = []) :
    moment.Waits instruction moment.station.frame :=
  waits_of_single (nothing ▸ nofun) (nothing ▸ Nat.zero_le _)

/-- An instruction that runs one block, which starts in a frame with nothing in it. -/
theorem waits_of_opens (plain : ∀ entry, moment.station.Opens instruction entry →
      entry.frame = moment.station.frame.child none [])
    (brings : Brings instruction moment.station.frame (moment.station.frame.child none []))
    (alone : moment.station.message? instruction = none)
    (single : (moment.station.entries instruction).length ≤ 1) :
    moment.Waits instruction moment.station.frame := by
  have blocks : moment.entered instruction = (moment.station.entries instruction).map fun entry =>
      ⟨moment.station.enter entry, moment.waiting⟩ := by
    unfold entered
    rw [alone]
    exact List.append_nil _
  refine waits_of_single (fun next member => ?_) (by rwa [blocks, List.length_map])
  rw [blocks] at member
  obtain ⟨entry, inside, rfl⟩ := List.mem_map.mp member
  have same : (moment.station.enter entry).frame = moment.station.frame.child none [] :=
    plain entry (Station.opens_of_mem_entries inside)
  refine ⟨below_of_enclosing (.refl _) ?_, same.symm ▸ brings⟩
  rw [same]
  rfl

/-- A message that is referred to has nothing around it. -/
theorem waits_of_reference (target : Target) (data : Register) (name : Json)
    (arguments : List Register) :
    moment.Waits (.decodeReference target data name arguments) moment.station.frame := by
  refine waits_of_single (fun next member => ?_) ?_
  · obtain ⟨start, called, rfl⟩ := List.mem_map.mp member
    have enclosing : start.frame.enclosing = [] := by
      have same := Option.mem_toList.mp called
      unfold Station.message? at same
      dsimp only at same
      split at same
      · obtain ⟨frame, bound, rfl⟩ := Option.map_eq_some_iff.mp same
        show frame.enclosing = []
        exact enclosing_of_bindArguments (eq_ok_of_toOption bound)
      · cases same
    refine ⟨?_, enclosing⟩
    unfold below
    rw [enclosing]
    rfl
  · show (List.map _ (Option.toList _)).length ≤ 1
    rw [List.length_map]
    exact Option.length_toList_le

/-- The rounds of a loop start above the frame in which its list is written. -/
theorem waits_of_prepare {target : Target} {stop terminator : Option Register} {output : Register}
    {body : List Instruction} {cycle : Cycle} {listed : Machine}
    (ran : (moment.station.prepare target output body stop terminator).run
      (moment.station.started (.loop target stop terminator output body)) = (.ok cycle, listed)) :
    moment.Waits (.loop target stop terminator output body) cycle.frame := by
  have prepares := Station.prepares_of_run ran
  have each : ∀ next ∈ moment.entered (.loop target stop terminator output body), ∃ machine,
      next = ⟨moment.station.enter ⟨[cycle.cell], body, cycle.inner, machine⟩, moment.waiting⟩ := by
    intro next member
    rw [entered_loop ran] at member
    obtain ⟨machine, -, rfl⟩ := List.mem_map.mp member
    exact ⟨machine, rfl⟩
  refine ⟨.inr ⟨_, prepares.written⟩, fun next member => ?_, fun next member other member' => ?_,
    fun _ _ ran' => ?_⟩
  · obtain ⟨machine, rfl⟩ := each next member
    refine ⟨below_of_enclosing (.of_set prepares.written) ?_, ?_⟩
    · cases prepares with
      | counted => rfl
      | terminated => rfl
      | throughout => exact enclosing_cursorFrame ..
    · cases prepares with
      | counted => rfl
      | terminated => rfl
      | throughout targeted read opens lists written =>
        exact ⟨_, rfl, target_cursorFrame _ (Frame.target_of_set written targeted)⟩
  · obtain ⟨machine, rfl⟩ := each next member
    obtain ⟨machine', rfl⟩ := each other member'
    rfl
  · rw [moment.station.run_loop, run_bind_ok ran] at ran'
    obtain ⟨_, middle, -, ended⟩ := run_bind_eq_ok ran'
    cases ended
    exact .inl rfl

theorem exists_waits (moment : Moment) (instruction : Instruction) :
    ∃ held, moment.Waits instruction held := by
  cases instruction with
  | conditional target interior condition body =>
    refine ⟨_, waits_of_opens (fun entry opens => by cases opens; rfl) rfl rfl ?_⟩
    unfold Station.entries
    dsimp only
    split <;> exact Nat.le_of_ble_eq_true rfl
  | conditionalWrapStream condition prelude stream newStream transform arguments =>
    refine ⟨_, waits_of_opens (fun entry opens => by cases opens; rfl) rfl rfl ?_⟩
    unfold Station.entries
    dsimp only
    split <;> exact Nat.le_of_ble_eq_true rfl
  | decodeReference target data name arguments =>
    exact ⟨_, waits_of_reference target data name arguments⟩
  | loop target stop terminator output body =>
    rcases ran : (moment.station.prepare target output body stop terminator).run
      (moment.station.started (.loop target stop terminator output body)) with
      ⟨failure | cycle, listed⟩
    · exact ⟨_, waits_of_nothing (entered_loop_failed ran)⟩
    · exact ⟨_, waits_of_prepare ran⟩
  | _ => exact ⟨_, waits_of_nothing rfl⟩

/-! ### The frame of a block -/

/-- The next moment of a block has the frame in which the block goes on, above the same frames. -/
theorem of_mem_later (member : next ∈ moment.later instruction rest) :
    next.below = moment.below ∧ ∃ after,
      (instruction.run moment.station.environment moment.station.refer moment.station.frame).run
        (moment.station.started instruction) = (.ok next.station.frame, after) := by
  obtain ⟨station, inside, rfl⟩ := List.mem_map.mp member
  have same := Option.mem_toList.mp inside
  unfold Station.next? at same
  split at same
  · rename_i frame after ran
    cases same
    refine ⟨?_, after, ran⟩
    unfold below
    dsimp only
    rw [(adds_of_run ran).grown.enclosing]
  · cases same

/-- A frame above one that an instruction started is above the one that waits. -/
theorem Waits.holds (waits : moment.Waits instruction held)
    (entered : next ∈ moment.entered instruction) (holds : last.Holds next.below frame) :
    last.Holds moment.below held := by
  obtain ⟨inner, live⟩ := holds
  refine ⟨inner ++ [frame], ?_⟩
  rw [live, (waits.above next entered).1, List.append_assoc]
  rfl

/-- **The frame of a block lives as long as the block runs,** and has what it had. -/
theorem lives : ∀ last ∈ moment.executed,
    ∃ frame, last.Holds moment.below frame ∧ moment.station.frame.Grown frame := by
  induction moment using executed.induct with
  | case1 moment empty =>
    rw [executed_nil (List.isEmpty_iff.mp empty)]
    exact fun _ member => absurd member List.not_mem_nil
  | case2 moment filled hypothesis =>
    obtain ⟨instruction, rest, block⟩ := List.exists_cons_of_ne_nil fun empty =>
      filled (List.isEmpty_iff.mpr empty)
    obtain ⟨held, waits⟩ := moment.exists_waits instruction
    intro last member
    rw [executed_cons block] at member
    rcases List.mem_cons.mp member with rfl | member
    · exact ⟨_, last.holds_self, .refl _⟩
    · rcases List.mem_append.mp member with member | member
      · obtain ⟨next, inside, member⟩ := List.mem_flatMap.mp member
        obtain ⟨frame, holds, -⟩ := hypothesis ⟨next, mem_children block (.inl inside)⟩ last member
        exact ⟨held, waits.holds inside holds, waits.waiting.grown⟩
      · obtain ⟨next, inside, member⟩ := List.mem_flatMap.mp member
        obtain ⟨same, after, ran⟩ := of_mem_later inside
        obtain ⟨frame, holds, grown⟩ :=
          hypothesis ⟨next, mem_children block (.inr inside)⟩ last member
        exact ⟨frame, same ▸ holds, (adds_of_run ran).grown.trans grown⟩

/-- What an instruction starts runs above the frame that waits, from the first moment to the last. -/
theorem Waits.within (waits : moment.Waits instruction held)
    (member : last ∈ (moment.entered instruction).flatMap executed) :
    last.Holds moment.below held := by
  obtain ⟨next, inside, member⟩ := List.mem_flatMap.mp member
  obtain ⟨frame, holds, -⟩ := lives last member
  exact waits.holds inside holds

/-- **The frame of a block keeps what it has,** from one moment of the block to the next and through
all that is executed between. -/
theorem keeps (moment : Moment) :
    moment.executed.Pairwise fun earlier later => ∀ before after,
      earlier.Holds moment.below before → later.Holds moment.below after → before.Grown after := by
  induction moment using executed.induct with
  | case1 moment empty =>
    rw [executed_nil (List.isEmpty_iff.mp empty)]
    exact .nil
  | case2 moment filled hypothesis =>
    obtain ⟨instruction, rest, block⟩ := List.exists_cons_of_ne_nil fun empty =>
      filled (List.isEmpty_iff.mpr empty)
    obtain ⟨held, waits⟩ := moment.exists_waits instruction
    have first : ∀ last ∈ moment.executed, ∀ after, last.Holds moment.below after →
        moment.station.frame.Grown after := by
      intro last member after holds
      obtain ⟨frame, held, grown⟩ := lives last member
      exact held.unique holds ▸ grown
    have apart : ∀ next ∈ moment.later instruction rest, ∀ last ∈ next.executed, ∀ after,
        last.Holds moment.below after → held.Grown after := by
      intro next inside last member after holds
      obtain ⟨same, _, ran⟩ := of_mem_later inside
      obtain ⟨frame, alive, grown⟩ := lives last member
      exact (same ▸ alive).unique holds ▸ (waits.goesOn _ _ ran).grown.trans grown
    rw [executed_cons block] at first ⊢
    refine List.pairwise_cons.mpr ⟨fun last member before after holds holds' => ?_,
      List.pairwise_append.mpr ⟨?_, ?_, fun earlier member last member' before after holds holds' =>
        ?_⟩⟩
    · exact moment.holds_self.unique holds ▸ first last (List.mem_cons_of_mem _ member) after holds'
    · refine List.pairwise_of_forall_mem_list fun earlier member last member' before after holds
        holds' => ?_
      exact (waits.within member).unique holds ▸ (waits.within member').unique holds' ▸ .refl _
    · cases same : moment.station.next? instruction rest with
      | none =>
        unfold later
        rw [same]
        exact .nil
      | some station =>
        have alone : moment.later instruction rest = [⟨station, moment.waiting⟩] := by
          unfold later
          rw [same]
          rfl
        have inside : ⟨station, moment.waiting⟩ ∈ moment.later instruction rest :=
          alone ▸ List.mem_singleton_self _
        have goesOn := hypothesis ⟨_, mem_children block (.inr inside)⟩
        rw [(of_mem_later inside).1] at goesOn
        rw [alone, List.flatMap_singleton]
        exact goesOn
    · obtain ⟨next, inside, member'⟩ := List.mem_flatMap.mp member'
      exact (waits.within member).unique holds ▸ apart next inside last member' after holds'

/-! ### Moments are scoped -/

/-- **What an instruction does to the frames,** with what it starts. -/
structure Encloses (moment : Moment) (instruction : Instruction) (held : Frame) : Prop where
  /-- The frame of its block waits, with all that the frame had. -/
  waits : moment.Waits instruction held
  /-- The frame that waits, those around it and those of the messages that wait are the same at every
  moment of a block or a message that the instruction starts, up to the last one, after which it is
  complete or has failed. -/
  within : ∀ last ∈ (moment.entered instruction).flatMap executed, last.Holds moment.below held
  /-- A block starts with the registers of the frame that waits, whatever was written in rounds before
  it. -/
  shares : ∀ next ∈ moment.entered instruction, ∀ register, Shares instruction register →
    next.station.frame.get register = held.get register
  /-- An instruction that completes has written its register, which was not visible, or added to a
  list. -/
  wrote : ∀ frame after, (instruction.run moment.station.environment moment.station.refer
    moment.station.frame).run (moment.station.started instruction) = (.ok frame, after) →
      (instruction.isWriter = true ∧ ¬ moment.station.frame.Sees instruction.labelRegister ∧
        ∃ value, moment.station.frame.set instruction.labelRegister value = .ok frame) ∨
      instruction.isWriter = false ∧ frame = moment.station.frame

/-- **What holds of a moment and of all that is executed from there on in its block.** -/
structure Scoped (moment : Moment) : Prop where
  /-- The frame of the block is alive throughout, above the same frames, -/
  lives : ∀ last ∈ moment.executed, ∃ frame, last.Holds moment.below frame
  /-- and keeps what it has: what a register denotes in it, what is around it and the stream without a
  register. -/
  keeps : moment.executed.Pairwise fun earlier later => ∀ before after,
    earlier.Holds moment.below before → later.Holds moment.below after →
      (∀ register value, before.get register = .ok value → after.get register = .ok value) ∧
        after.enclosing = before.enclosing ∧ after.reader = before.reader
  /-- What the frame or one around it has is not written. -/
  refuses : ∀ outer ∈ moment.station.frame.chain, ∀ register, outer.Sees register → ∀ value,
    moment.station.frame.set register value = .error (.program (.writtenTwice register))
  /-- The instruction that is next leaves the frames as they are, but for what it writes itself. -/
  encloses : ∀ instruction rest, moment.station.block = instruction :: rest →
    ∃ held, moment.Encloses instruction held

/-- **Every moment is scoped.** -/
theorem scopes (moment : Moment) : moment.Scoped where
  lives last member := (lives last member).imp fun _ => And.left
  keeps := moment.keeps.imp fun keeps before after holds holds' =>
    have grown := keeps before after holds holds'
    ⟨fun _ _ => grown.get, grown.enclosing, grown.ambient⟩
  refuses _ member _ sees := Frame.set_of_sees (Frame.sees_of_mem_chain member sees)
  encloses instruction rest _ := by
    obtain ⟨held, waits⟩ := moment.exists_waits instruction
    exact ⟨held, waits, fun _ => waits.within,
      fun next inside _ => (waits.above next inside).2.get, fun _ _ => wrote_of_run⟩

/-- **A frame alive is that of a block that runs,** if it is not among those that wait from before. -/
theorem exists_of_holds {last : Moment} (member : last ∈ moment.executed) {base : List Frame}
    {frame : Frame} (holds : last.Holds base frame) :
    (∃ block ∈ moment.executed, block.below = base ∧ last ∈ block.executed) ∨
      frame :: base <:+ moment.below := by
  induction moment using executed.induct with
  | case1 moment empty =>
    rw [executed_nil (List.isEmpty_iff.mp empty)] at member
    cases member
  | case2 moment filled hypothesis =>
    obtain ⟨instruction, rest, block⟩ := List.exists_cons_of_ne_nil fun empty =>
      filled (List.isEmpty_iff.mpr empty)
    have first : moment ∈ moment.executed := mem_executed_self (block ▸ List.cons_ne_nil _ _)
    have deeper : ∀ next ∈ moment.children, last ∈ next.executed →
        (∃ block ∈ moment.executed, block.below = base ∧ last ∈ block.executed) ∨
          frame :: base <:+ next.below := by
      intro next child member
      refine (hypothesis ⟨next, child⟩ member).imp_left fun found => ?_
      obtain ⟨block, executed, same⟩ := found
      exact ⟨block, mem_executed_of_child child executed, same⟩
    have whole := member
    rw [executed_cons block] at member
    rcases List.mem_cons.mp member with rfl | member
    · obtain ⟨_ | ⟨_, inner⟩, live⟩ := holds
      · exact .inl ⟨last, first, (List.cons.inj live).2, first⟩
      · exact .inr ⟨inner, (List.cons.inj live).2.symm⟩
    · rcases List.mem_append.mp member with member | member
      · obtain ⟨next, entered, member⟩ := List.mem_flatMap.mp member
        obtain ⟨held, waits⟩ := moment.exists_waits instruction
        refine (deeper next (mem_children block (.inl entered)) member).elim .inl fun waiting => ?_
        rw [(waits.above next entered).1] at waiting
        rcases List.suffix_cons_iff.mp waiting with same | waiting
        · exact .inl ⟨moment, first, (List.cons.inj same).2.symm, whole⟩
        · exact .inr waiting
      · obtain ⟨next, later, member⟩ := List.mem_flatMap.mp member
        have waiting := deeper next (mem_children block (.inr later)) member
        rwa [(of_mem_later later).1] at waiting

end Moment

/-- **Registers are written once, in frames that live as long as their blocks.** Every moment of a run,
of whatever program, is scoped, and every frame alive is that of a block that runs. -/
theorem decode_scoped (environment : Environment) (source : RunSource) (values : List Value)
    (machine : Machine) :
    (∀ moment ∈ environment.executed source values machine, moment.Scoped) ∧
      ∀ last ∈ environment.executed source values machine, ∀ base frame, last.Holds base frame →
        ∃ block ∈ environment.executed source values machine,
          block.below = base ∧ last ∈ block.executed := by
  refine ⟨fun moment _ => moment.scopes, fun last member base frame holds => ?_⟩
  unfold Environment.executed at member ⊢
  cases same : environment.start? source values machine with
  | none =>
    rw [same] at member
    cases member
  | some start =>
    rw [same] at member
    refine (Moment.exists_of_holds member holds).resolve_right fun waiting => ?_
    obtain ⟨view, -, -, -, -, arguments, bound, frame, -⟩ := Environment.starts_of_start? same
    have alone : Moment.below ⟨start, []⟩ = [] := by
      unfold Moment.below
      rw [frame]
      show Frame.ofScopes arguments.enclosing ++ [] = []
      rw [enclosing_of_bindArguments bound]
      rfl
    rw [alone] at waiting
    cases List.suffix_nil.mp waiting

/-- The moment before the first packet. -/
theorem decode_scoped_of_cutOffPacket :
    ∃ moment ∈ packets.executed ⟨.source .blocking 0, true⟩ [] cutOffPacket,
      moment.station.label = "DecodeRef(r1)" ∧ moment.live.length = 2 ∧ moment.Scoped := by
  obtain ⟨moment, member, label, live⟩ :
      ∃ moment ∈ packets.executed ⟨.source .blocking 0, true⟩ [] cutOffPacket,
        moment.station.label = "DecodeRef(r1)" ∧ moment.live.length = 2 := by
    refine ⟨_, Moment.mem_executed_of_child (List.mem_cons_self) (Moment.mem_executed_of_child
      (List.mem_cons_self) (Moment.mem_executed_self ?_)), rfl, rfl⟩
    exact List.cons_ne_nil _ _
  exact ⟨moment, member, label, live,
    (decode_scoped packets ⟨.source .blocking 0, true⟩ [] cutOffPacket).1 moment member⟩

end WireProgram
