/-
**Kinds of faults.**

Some faults come from the structure of a program or of its run: a register was read before it was
written, one was written twice, a loop has two rules, a name is not registered, a bound was exceeded,
references nest too deep, or a guard found more bytes dropped than are held. The main definitions:

* `Fault.Breaks`, `Fault.Unresolved`, `Fault.Overruns` and `Fault.Guards`, these faults;
* `Fault.Excused`, the faults that a run may come to for its input;
* `Calm`, a result that is no fault of structure, and `Contained`, one that does not go beyond bounds
  or guards.
-/

import WireProgram.Fault
import WireProgram.Proofs.Outcome

namespace WireProgram

/-! ### Faults of structure -/

/-- The faults of a program that breaks the discipline of registers. -/
def Fault.Breaks : Fault → Prop
  | .program (.notPopulated _) | .program (.writtenTwice _) | .program .twoLoopRules => True
  | _ => False

/-- The fault of a name that is not registered. -/
def Fault.Unresolved : Fault → Prop
  | .program (.unregisteredType _) => True
  | _ => False

/-- The faults that come from the structure of a program alone. -/
def Fault.Static : Fault → Prop
  | .program (.notPopulated _) | .program (.writtenTwice _) | .program .twoLoopRules
  | .program (.unregisteredType _) => True
  | _ => False

/-- The faults of a run that goes on for longer, or nests deeper, than its bounds allow for. -/
def Fault.Overruns : Fault → Prop
  | .misuse .boundExceeded | .misuse .nestingTooDeep => True
  | _ => False

/-- The faults of guards: more bytes are dropped than a layer holds, or fewer than none are dropped or
read. -/
def Fault.Guards : Fault → Prop
  | .misuse (.consumeBeyondBuffer _ _) | .misuse (.consumeBeyondView _ _)
  | .misuse (.negativeRead _) => True
  | _ => False

/-- The faults of a run that goes beyond its bounds, and those of guards. -/
def Fault.Exceeds : Fault → Prop
  | .misuse .boundExceeded | .misuse .nestingTooDeep | .misuse (.consumeBeyondBuffer _ _)
  | .misuse (.consumeBeyondView _ _) | .misuse (.negativeRead _) => True
  | _ => False

/-- The faults that come from the structure of a program or of its run. -/
def Fault.Structural : Fault → Prop
  | .program (.notPopulated _) | .program (.writtenTwice _) | .program .twoLoopRules
  | .program (.unregisteredType _) | .misuse .boundExceeded | .misuse .nestingTooDeep
  | .misuse (.consumeBeyondBuffer _ _) | .misuse (.consumeBeyondView _ _)
  | .misuse (.negativeRead _) => True
  | _ => False

/-- The faults that a run may come to: strictly those of the input only, else all but those of its
bounds and of guards. -/
def Fault.Excused : (strict : Bool) → Fault → Prop
  | true, fault => fault.isDecode = true
  | false, fault => ¬fault.Exceeds

/-- A result that does not break the discipline. -/
abbrev Harmless {α : Type} (result : Except Fault α) : Prop :=
  Ends result (fun _ => True) fun fault => ¬fault.Breaks

/-- A result that does not go beyond the bounds of a run. -/
abbrev Bounded {α : Type} (result : Except Fault α) : Prop :=
  Ends result (fun _ => True) fun fault => ¬fault.Overruns

/-- A result that goes neither beyond the bounds of a run nor beyond what is there to be read. -/
abbrev Contained {α : Type} (result : Except Fault α) : Prop :=
  Ends result (fun _ => True) fun fault => ¬fault.Exceeds

/-- A result that is no fault of structure. -/
abbrev Calm {α : Type} (result : Except Fault α) : Prop :=
  Ends result (fun _ => True) fun fault => ¬fault.Structural

theorem Fault.Breaks.static {fault : Fault} (breaks : fault.Breaks) : fault.Static := by
  unfold Breaks at breaks
  split at breaks
  · trivial
  · trivial
  · trivial
  · exact breaks.elim

theorem Fault.Unresolved.static {fault : Fault} (unresolved : fault.Unresolved) :
    fault.Static := by
  unfold Unresolved at unresolved
  split at unresolved
  · trivial
  · exact unresolved.elim

theorem Fault.Static.structural {fault : Fault} (static : fault.Static) : fault.Structural := by
  unfold Static at static
  split at static
  · trivial
  · trivial
  · trivial
  · trivial
  · exact static.elim

theorem Fault.Overruns.exceeds {fault : Fault} (overruns : fault.Overruns) : fault.Exceeds := by
  unfold Overruns at overruns
  split at overruns
  · trivial
  · trivial
  · exact overruns.elim

theorem Fault.Guards.exceeds {fault : Fault} (guards : fault.Guards) : fault.Exceeds := by
  unfold Guards at guards
  split at guards
  · trivial
  · trivial
  · trivial
  · exact guards.elim

theorem Fault.Exceeds.structural {fault : Fault} (exceeds : fault.Exceeds) : fault.Structural := by
  unfold Exceeds at exceeds
  split at exceeds
  · trivial
  · trivial
  · trivial
  · trivial
  · trivial
  · exact exceeds.elim

theorem Fault.not_breaks {fault : Fault} (calm : ¬fault.Structural) : ¬fault.Breaks :=
  fun breaks => calm breaks.static.structural

theorem Fault.not_exceeds {fault : Fault} (calm : ¬fault.Structural) : ¬fault.Exceeds :=
  fun exceeds => calm exceeds.structural

theorem Fault.not_exceeds_of_isDecode {fault : Fault} (decode : fault.isDecode = true) :
    ¬fault.Exceeds := by
  intro exceeds
  unfold Exceeds at exceeds
  split at exceeds
  all_goals first | cases decode | exact exceeds.elim

theorem Fault.not_overruns_of_isDecode {fault : Fault} (decode : fault.isDecode = true) :
    ¬fault.Overruns :=
  fun overruns => not_exceeds_of_isDecode decode overruns.exceeds

/-- A fault of the input is excused in any case. -/
theorem Fault.excused {fault : Fault} (strict : Bool) (decode : fault.isDecode = true) :
    fault.Excused strict := by
  cases strict with
  | false => exact not_exceeds_of_isDecode decode
  | true => exact decode

section Calm

variable {α : Type} {result : Except Fault α} {good : α → Prop}

theorem Ends.harmless (calm : Ends result good fun fault => ¬fault.Structural) :
    Ends result good fun fault => ¬fault.Breaks :=
  calm.mono (fun _ holds => holds) fun _ => Fault.not_breaks

theorem Ends.contained (calm : Ends result good fun fault => ¬fault.Structural) :
    Ends result good fun fault => ¬fault.Exceeds :=
  calm.mono (fun _ holds => holds) fun _ => Fault.not_exceeds

end Calm

end WireProgram
