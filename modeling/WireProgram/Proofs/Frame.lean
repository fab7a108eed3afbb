/-
**Frames by what they hold.**

A frame is known by what `Frame.find?` and `Frame.reader` give. Reading, writing and opening a child
are described by these two alone:

* `Frame.get_eq_ok` and `Frame.set_eq_ok`, when reading and writing work, and what they give;
* `Frame.find?_child` and `Frame.reader_child`, what a nested block sees;
* `Frame.Views`, a property of all streams that a frame holds.
-/

import Mathlib.Tactic.Common
import WireProgram.Frame

namespace WireProgram.Frame

variable {frame next : Frame} {register : Register} {slot : Slot} {value : Value}

/-! ### Reading and writing -/

/-- Reading works if the register addresses a slot that has a value. -/
theorem get_eq_ok : frame.get register = .ok value ↔
    ∃ slot, register.slot? = some slot ∧ frame.find? slot = some value := by
  unfold get slotOf
  cases register.slot? with
  | none => simp [bind, Except.bind]
  | some slot =>
    cases found : frame.find? slot <;>
      simp [bind, Except.bind, found, pure, Except.pure, throw, throwThe, MonadExceptOf.throw]

/-- Reading a register takes no more than its slot. -/
theorem get_congr (same : ∀ slot, register.slot? = some slot → frame.find? slot = next.find? slot) :
    frame.get register = next.get register := by
  unfold get slotOf
  cases addressed : register.slot? with
  | none => rfl
  | some slot => simp only [bind, Except.bind, same slot addressed]

/-- Writing works if the register addresses a slot that has no value yet. -/
theorem set_eq_ok : frame.set register value = .ok next ↔
    ∃ slot, register.slot? = some slot ∧ frame.find? slot = none ∧
      next = { frame with
        scope := { frame.scope with slots := (slot, value) :: frame.scope.slots } } := by
  unfold set slotOf
  cases register.slot? with
  | none => simp [bind, Except.bind]
  | some slot =>
    cases found : frame.find? slot <;>
      simp [bind, Except.bind, found, pure, Except.pure, throw, throwThe, MonadExceptOf.throw,
        eq_comm]

theorem find?_write (frame : Frame) (slot other : Slot) (value : Value) :
    find? { frame with scope := { frame.scope with slots := (slot, value) :: frame.scope.slots } }
      other = if other = slot then some value else frame.find? other := by
  unfold find? scopes
  rw [List.findSome?_cons, List.findSome?_cons, List.lookup_cons]
  by_cases same : other = slot
  · rw [if_pos same, same, beq_self_eq_true]
  · rw [if_neg same, beq_eq_false_iff_ne.mpr same]

/-- What was written is read back. -/
theorem get_set (written : frame.set register value = .ok next) :
    next.get register = .ok value := by
  obtain ⟨slot, addressed, -, rfl⟩ := set_eq_ok.mp written
  exact get_eq_ok.mpr ⟨slot, addressed, by rw [find?_write, if_pos rfl]⟩

theorem length_getMany {registers : List Register} {values : List Value}
    (same : frame.getMany registers = .ok values) : values.length = registers.length := by
  unfold getMany at same
  induction registers generalizing values with
  | nil =>
    cases same
    rfl
  | cons register registers hypothesis =>
    rw [List.mapM_cons] at same
    cases first : frame.get register with
    | error fault =>
      rw [first] at same
      cases same
    | ok value =>
      rw [first] at same
      cases others : registers.mapM frame.get with
      | error fault =>
        rw [others] at same
        cases same
      | ok rest =>
        rw [others] at same
        cases same
        exact congrArg (· + 1) (hypothesis others)

/-! ### Nested blocks -/

theorem find?_child (frame : Frame) (view : Option View) (slots : List (Slot × Value))
    (slot : Slot) :
    (frame.child view slots).find? slot = (slots.lookup slot).or (frame.find? slot) := by
  show List.findSome? _ (⟨view, slots⟩ :: frame.scopes) = _
  rw [List.findSome?_cons]
  cases slots.lookup slot <;> rfl

/-- A block that binds nothing of its own reads what the frame around it holds. -/
theorem get_inner (frame : Frame) (register : Register) :
    (frame.child none []).get register = frame.get register :=
  get_congr fun slot _ => frame.find?_child none [] slot

theorem reader_child (frame : Frame) (view : Option View) (slots : List (Slot × Value)) :
    (frame.child view slots).reader = view.elim frame.reader .ok := by
  cases view <;> rfl

/-! ### Targets -/

theorem streamIn_eq_ok {view : View} : frame.streamIn register = .ok view ↔
    frame.get register = .ok (.stream view) := by
  unfold streamIn
  rcases frame.get register with fault | value
  · simp [bind, Except.bind]
  · cases value <;>
      simp [bind, Except.bind, pure, Except.pure, throw, throwThe, MonadExceptOf.throw]

/-- A block that binds nothing of its own reads where the frame around it reads. -/
theorem target_inner (frame : Frame) (target : Target) :
    (frame.child none []).target target = frame.target target := by
  have stream : ∀ register, (frame.child none []).streamIn register = frame.streamIn register := by
    intro register
    unfold streamIn
    rw [get_inner]
  cases target with
  | direct => exact frame.reader_child none []
  | stream register => exact stream register
  | buffer register => exact stream register

/-- A write changes no register that has a value. -/
theorem get_of_set {other : Register} {found : Value} (written : frame.set register value = .ok next)
    (same : frame.get other = .ok found) : next.get other = .ok found := by
  obtain ⟨slot, -, free, rfl⟩ := set_eq_ok.mp written
  obtain ⟨asked, addressed, holds⟩ := get_eq_ok.mp same
  refine get_eq_ok.mpr ⟨asked, addressed, ?_⟩
  have apart : asked ≠ slot := by
    rintro rfl
    rw [free] at holds
    cases holds
  rw [find?_write, if_neg apart, holds]

theorem target_of_set {target : Target} {view : View} (written : frame.set register value = .ok next)
    (found : frame.target target = .ok view) : next.target target = .ok view := by
  cases target with
  | direct =>
    obtain ⟨slot, -, -, rfl⟩ := set_eq_ok.mp written
    exact found
  | stream other => exact streamIn_eq_ok.mpr (get_of_set written (streamIn_eq_ok.mp found))
  | buffer other => exact streamIn_eq_ok.mpr (get_of_set written (streamIn_eq_ok.mp found))

/-! ### The streams of a frame -/

/-- A property of all streams in the registers of a frame and of its reader. -/
structure Views (good : View → Prop) (frame : Frame) : Prop where
  slots : ∀ slot view, frame.find? slot = some (.stream view) → good view
  reader : ∀ view, frame.reader = .ok view → good view

namespace Views

variable {good better : View → Prop}

theorem mono (views : frame.Views good) (implied : ∀ view, good view → better view) :
    frame.Views better :=
  ⟨fun slot view found => implied view (views.slots slot view found),
    fun view found => implied view (views.reader view found)⟩

theorem get (views : frame.Views good) {view : View} (found : frame.get register = .ok (.stream view)) :
    good view := by
  obtain ⟨slot, -, holds⟩ := get_eq_ok.mp found
  exact views.slots slot view holds

theorem target (views : frame.Views good) {target : Target} {view : View}
    (found : frame.target target = .ok view) : good view := by
  cases target with
  | direct => exact views.reader view found
  | stream register => exact views.get (streamIn_eq_ok.mp found)
  | buffer register => exact views.get (streamIn_eq_ok.mp found)

theorem set (views : frame.Views good) (same : frame.set register value = .ok next)
    (holds : ∀ view, value = .stream view → good view) : next.Views good := by
  obtain ⟨slot, -, -, rfl⟩ := set_eq_ok.mp same
  refine ⟨fun other view found => ?_, views.reader⟩
  rw [find?_write] at found
  split at found
  · exact holds view (Option.some.inj found)
  · exact views.slots other view found

theorem child (views : frame.Views good) {reader : Option View} {slots : List (Slot × Value)}
    (bound : ∀ view, reader = some view → good view)
    (holds : ∀ slot view, slots.lookup slot = some (.stream view) → good view) :
    (frame.child reader slots).Views good := by
  constructor
  · intro slot view found
    rw [find?_child] at found
    cases here : slots.lookup slot with
    | none =>
      rw [here, Option.none_or] at found
      exact views.slots slot view found
    | some value =>
      rw [here, Option.some_or] at found
      exact holds slot view (here.trans found)
  · intro view found
    rw [reader_child] at found
    cases reader with
    | none => exact views.reader view found
    | some bounded => exact bound view (congrArg some (Except.ok.inj found))

/-- A block that binds nothing of its own sees the streams around it. -/
theorem inner (views : frame.Views good) : (frame.child none []).Views good :=
  views.child nofun nofun

theorem bindReader (views : frame.Views good) {view : View} (holds : good view) :
    (frame.bindReader view).Views good :=
  ⟨views.slots, fun _ found => Except.ok.inj found ▸ holds⟩

end Views

end WireProgram.Frame
