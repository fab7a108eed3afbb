/-
**Programs whose registers hold what their uses ask for.**

A stream is read from a register that an instruction opened a stream for, a condition is a scalar
that was read, and a terminator is a byte string that is not empty; names are those of scalars, of
registered enumerations and of registered messages. Counts and lengths may be anything: a value that
is no count is a fault of the input. The main definitions:

* `ValueKind` and `Kinds`, what is known of the registers at a point of a program;
* `Instruction.WellKinded` and `BlockWellKinded`, the conditions on a program;
* `Kinded`, the frame of a run whose registers hold what is known of them.
-/

import WireProgram.Proofs.Discipline.Track
import WireProgram.Proofs.Kind.Streams
import WireProgram.Run

namespace WireProgram

/-! ### Kinds -/

/-- What is known of a value. -/
inductive ValueKind where
  /-- A scalar that was read. -/
  | scalar
  /-- A byte string that is not empty. -/
  | terminator
  /-- A stream. -/
  | stream
  /-- Nothing. -/
  | other
  deriving DecidableEq

/-- Whether a value is of a kind. A stream is in order. -/
def ValueKind.Holds (layout : Layout true) (streams : Streams Codec) : ValueKind → Value → Prop
  | .scalar, value => ∃ scalar : Scalar, value = scalar.toValue
  | .terminator, value => ∃ content, value = .bytes content ∧ content ≠ []
  | .stream, value => ∃ view, value = .stream view ∧ layout.Fits streams view
  | .other, _ => True

/-- The kinds of the registers that are written at a point of a program. -/
abbrev Kinds := List (Slot × ValueKind)

/-- Whether a register is known to be of a kind. -/
def Kinds.Knows (kinds : Kinds) (register : Register) (kind : ValueKind) : Prop :=
  ∃ slot, register.slot? = some slot ∧ List.lookup slot kinds = some kind

/-- The kinds after a register was written. -/
def Kinds.write (kinds : Kinds) (register : Register) (kind : ValueKind) : Kinds :=
  match register.slot? with
  | some slot => (slot, kind) :: kinds
  | none => kinds

/-- The kind of the value that an instruction writes. -/
def Instruction.valueKind : Instruction → ValueKind
  | .eval _ (.constant (.bytes content)) => if content.isEmpty then .other else .terminator
  | .constrict _ _ _ | .wrapStream _ _ _ _ | .conditionalWrapStream _ _ _ _ _ _ => .stream
  | .decodePrimitive _ _ _ => .scalar
  | _ => .other

/-- The kinds after an instruction. -/
def Instruction.kindsAfter (kinds : Kinds) : Instruction → Kinds
  | .loopOutput _ _ => kinds
  | instruction => kinds.write instruction.labelRegister instruction.valueKind

/-! ### Conditions on programs -/

/-- Whether a target is known to be a stream. -/
def Target.IsStream (kinds : Kinds) : Target → Prop
  | .direct => True
  | .stream register | .buffer register => kinds.Knows register .stream

/-- Whether no type is registered under the name of a constructable. -/
def Constructable.Unregistered (types : Types) : Constructable → Prop
  | .tuple _ => True
  | .tagged name _ | .struct name _ => findNamed (types.lookup ·) name = .ok none

mutual

/-- The conditions on an instruction at a point of a program. -/
def Instruction.WellKinded (types : Types) (kinds : Kinds) : Instruction → Prop
  | .eval _ expression => ∃ literal, expression = .constant literal
  | .construct _ constructable => constructable.Unregistered types
  | .constrict stream _ _ => stream.IsStream kinds
  | .wrapStream stream _ transform arguments =>
    stream.IsStream kinds ∧ Prelude.hasTransform transform = true ∧ arguments = []
  | .conditionalWrapStream condition prelude stream _ transform arguments =>
    kinds.Knows condition .scalar ∧ stream.IsStream kinds ∧
      Prelude.hasTransform transform = true ∧ arguments = [] ∧
      BlockWellKinded types kinds prelude
  | .decodeForeign target _ foreign arguments =>
    target.IsStream kinds ∧ Prelude.hasType foreign = true ∧ foreign.Takes arguments.length
  | .decodeReference target _ name arguments =>
    target.IsStream kinds ∧ ∃ entry message, types.require name = .ok entry ∧
      entry.inPlace = .ok message ∧ arguments.length = message.program.arguments.length
  | .decodeEnumeration enumeration backing _ target =>
    target.IsStream kinds ∧ (∃ named, types.require enumeration = .ok (.enumeration named)) ∧
      ∃ primitive, requirePrimitive backing = .ok primitive ∧ primitive.isInteger = true
  | .decodePrimitive target _ name =>
    target.IsStream kinds ∧ ∃ primitive, requirePrimitive name = .ok primitive
  | .decodeArray target _ name _ =>
    target.IsStream kinds ∧ ∃ primitive, requirePrimitive name = .ok primitive
  | .loop target _ terminator output body =>
    target.IsStream kinds ∧ (∀ register ∈ terminator, kinds.Knows register .terminator) ∧
      BlockWellKinded types (kinds.write output .other) body
  | .loopOutput _ _ => True
  | .conditional _ _ condition body =>
    kinds.Knows condition .scalar ∧ BlockWellKinded types kinds body

/-- The conditions on the instructions of a block. -/
def BlockWellKinded (types : Types) (kinds : Kinds) : List Instruction → Prop
  | [] => True
  | instruction :: rest =>
    instruction.WellKinded types kinds ∧
      BlockWellKinded types (instruction.kindsAfter kinds) rest

end

/-! ### Frames -/

/-- A frame that brings a stream and holds what is known of its registers. -/
structure Kinded (state : Machine × Layout true) (kinds : Kinds) (frame : Frame) : Prop where
  reader : ∃ view, frame.reader = .ok view ∧ state.2.Fits state.1.streams view
  slots : ∀ slot kind, List.lookup slot kinds = some kind →
    ∃ value, frame.find? slot = some value ∧ kind.Holds state.2 state.1.streams value

/-- A value stays of its kind. -/
theorem ValueKind.Holds.later {kind : ValueKind} {value : Value} {loops : List Nat}
    {state after : Machine × Layout true} (holds : kind.Holds state.2 state.1.streams value)
    (later : (Contract.honestRun loops).later state after) :
    kind.Holds after.2 after.1.streams value := by
  cases kind with
  | stream =>
    obtain ⟨view, same, fits⟩ := holds
    exact ⟨view, same, (later.1 view fits).1⟩
  | _ => exact holds

namespace Kinded

variable {state after : Machine × Layout true} {kinds : Kinds} {frame next : Frame}
  {register : Register} {kind : ValueKind} {value : Value} {loops : List Nat}

theorem later (kinded : Kinded state kinds frame)
    (later : (Contract.honestRun loops).later state after) : Kinded after kinds frame := by
  obtain ⟨view, read, fits⟩ := kinded.reader
  refine ⟨⟨view, read, (later.1 view fits).1⟩, fun slot kind known => ?_⟩
  obtain ⟨value, found, holds⟩ := kinded.slots slot kind known
  exact ⟨value, found, holds.later later⟩

/-- What is known of a register. -/
theorem get (kinded : Kinded state kinds frame) (knows : kinds.Knows register kind) :
    ∃ value, frame.get register = .ok value ∧ kind.Holds state.2 state.1.streams value := by
  obtain ⟨slot, addressed, known⟩ := knows
  obtain ⟨value, found, holds⟩ := kinded.slots slot kind known
  exact ⟨value, Frame.get_eq_ok.mpr ⟨slot, addressed, found⟩, holds⟩

theorem target (kinded : Kinded state kinds frame) {target : Target}
    (isStream : target.IsStream kinds) :
    ∃ view, frame.target target = .ok view ∧ state.2.Fits state.1.streams view := by
  cases target with
  | direct => exact kinded.reader
  | stream register =>
    obtain ⟨value, read, view, rfl, fits⟩ := kinded.get isStream
    exact ⟨view, Frame.streamIn_eq_ok.mpr read, fits⟩
  | buffer register =>
    obtain ⟨value, read, view, rfl, fits⟩ := kinded.get isStream
    exact ⟨view, Frame.streamIn_eq_ok.mpr read, fits⟩

/-- A write of a value of a kind. -/
theorem write (kinded : Kinded state kinds frame) (written : frame.set register value = .ok next)
    (holds : kind.Holds state.2 state.1.streams value) :
    Kinded state (kinds.write register kind) next := by
  obtain ⟨slot, addressed, free, rfl⟩ := Frame.set_eq_ok.mp written
  unfold Kinds.write
  rw [addressed]
  refine ⟨kinded.reader, fun other kind' known => ?_⟩
  rw [Frame.find?_write]
  by_cases same : other = slot
  · rw [same, List.lookup_cons, beq_self_eq_true] at known
    cases known
    exact ⟨value, if_pos same, holds⟩
  · rw [List.lookup_cons, beq_eq_false_iff_ne.mpr same] at known
    rw [if_neg same]
    exact kinded.slots other kind' known

/-- A write to another register leaves it known that a target is a stream. -/
theorem isStream_write (kinded : Kinded state kinds frame)
    (written : frame.set register value = .ok next) {target : Target}
    (isStream : target.IsStream kinds) : target.IsStream (kinds.write register kind) := by
  obtain ⟨slot, addressed, free, -⟩ := Frame.set_eq_ok.mp written
  have other : ∀ read : Register, kinds.Knows read .stream →
      (kinds.write register kind).Knows read .stream := by
    rintro read ⟨asked, addressed', known⟩
    obtain ⟨value, found, -⟩ := kinded.slots asked _ known
    have apart : asked ≠ slot := by
      rintro rfl
      rw [free] at found
      cases found
    refine ⟨asked, addressed', ?_⟩
    unfold Kinds.write
    rw [addressed]
    dsimp only
    rw [List.lookup_cons, beq_eq_false_iff_ne.mpr apart]
    exact known
  cases target with
  | direct => trivial
  | stream read => exact other read isStream
  | buffer read => exact other read isStream

theorem child (kinded : Kinded state kinds frame) : Kinded state kinds (frame.child none []) := by
  refine ⟨kinded.reader, fun slot kind known => ?_⟩
  rw [Frame.find?_child]
  exact kinded.slots slot kind known

theorem bindReader (slots : ∀ slot kind, List.lookup slot kinds = some kind →
      ∃ value, frame.find? slot = some value ∧ kind.Holds state.2 state.1.streams value)
    {view : View} (fits : state.2.Fits state.1.streams view) :
    Kinded state kinds (frame.bindReader view) :=
  ⟨⟨view, rfl, fits⟩, slots⟩

/-- The body of a loop over a cursor, which takes the place of the stream of the loop. -/
theorem cursorFrame (kinded : Kinded state kinds frame) {target : Target}
    (isStream : target.IsStream kinds) {cursor : View}
    (fits : state.2.Fits state.1.streams cursor) :
    Kinded state kinds (WireProgram.cursorFrame frame target cursor) := by
  rcases cursorFrame_cases frame target cursor with same | same | ⟨register, slot, read, addressed,
    same⟩
  · rw [same]
    refine ⟨⟨cursor, rfl, fits⟩, fun slot kind known => ?_⟩
    rw [Frame.find?_child]
    exact kinded.slots slot kind known
  · rw [same]
    exact kinded.child
  · rw [same]
    refine ⟨kinded.reader, fun other kind known => ?_⟩
    rw [Frame.find?_child, List.lookup_cons, List.lookup_nil]
    by_cases here : other = slot
    · have knows : kinds.Knows register .stream := by
        rcases read with rfl | rfl
        · exact isStream
        · exact isStream
      obtain ⟨found, addressed', stream⟩ := knows
      obtain rfl : found = slot := Option.some.inj (addressed'.symm.trans addressed)
      obtain rfl := here
      obtain rfl : kind = .stream := Option.some.inj (known.symm.trans stream)
      rw [beq_self_eq_true]
      exact ⟨.stream cursor, rfl, cursor, rfl, fits⟩
    · rw [beq_eq_false_iff_ne.mpr here]
      exact kinded.slots other kind known

end Kinded

end WireProgram
