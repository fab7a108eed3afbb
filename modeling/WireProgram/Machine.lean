/-
**The state of a run.**

A run changes the streams, the lists, the trace and the warnings; what it changed outlives a
failure. The main definitions:

* `Machine` and `Step`, an operation on it;
* `Step.onStreams` and `Step.onLists`, operations on a part of it;
* `Step.guarded` records the instruction around a failure.
-/

import WireProgram.Frame
import WireProgram.Trace
import WireProgram.Types

namespace WireProgram

/-- The state of a run. -/
structure Machine where
  streams : Streams Codec := {}
  lists : Lists := {}
  trace : Trace := {}
  /-- What the run warns of, latest first. -/
  warnings : List String := []

instance : Inhabited Machine := ⟨{}⟩

/-- An operation of a run. -/
abbrev Step (α : Type) := ExceptT Failure (StateM Machine) α

namespace Step

/-- A computation that does not touch the machine. -/
def ofExcept {α : Type} (result : Except Fault α) : Step α :=
  ExceptT.mk fun machine => (result.mapError fun fault => ⟨fault, []⟩, machine)

/-- An operation on the streams. -/
def onStreams {α : Type} (step : StreamStep Codec α) : Step α :=
  ExceptT.mk fun machine =>
    let result := step.run machine.streams
    (result.1.mapError fun fault => ⟨fault, []⟩, { machine with streams := result.2 })

/-- An operation on the lists. -/
def onLists {α : Type} (act : Lists → Except Fault (α × Lists)) : Step α :=
  ExceptT.mk fun machine =>
    match act machine.lists with
    | .ok (value, lists) => (.ok value, { machine with lists := lists })
    | .error fault => (.error ⟨fault, []⟩, machine)

/-- A look at the machine. -/
def look {α : Type} (question : Machine → α) : Step α :=
  ExceptT.mk fun machine => (.ok (question machine), machine)

/-- A change of the machine. -/
def change (act : Machine → Machine) : Step Unit :=
  ExceptT.mk fun machine => (.ok (), act machine)

/-- Records an event, if the run is recorded. -/
def record (config : Config) (event : String) (depth : Nat) (label detail : String) : Step Unit :=
  change fun machine =>
    if config.trace then
      { machine with trace := machine.trace.record event depth label detail }
    else machine

/-- Adds a warning. -/
def warn (text : String) : Step Unit :=
  change fun machine => { machine with warnings := text :: machine.warnings }

/--
Runs an instruction at a place. A fault of the input is recorded and gets the place on its path; all
others pass as they are.
-/
def guarded {α : Type} (config : Config) (depth : Nat) (site : Site) (step : Step α) : Step α :=
  tryCatch step fun failure => do
    if failure.fault.isDecode then
      record config "fail" depth site.label failure.fault.message
    throw (failure.within site)

end Step

end WireProgram
