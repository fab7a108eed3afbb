/-
**The trace: a bounded record of what a run did.**

Events are numbered from zero. The newest ones are kept, at most as many as the capacity allows.

* `Trace.record` adds an event;
* `Trace.snapshot` gives the events that are kept, oldest first;
* `TraceEntry.render` writes one on a line.
-/

import WireProgram.Json.Printer
import WireProgram.Text.Blank

namespace WireProgram

/-- An event of a run. -/
structure TraceEntry where
  number : Nat
  event : String
  depth : Nat
  instruction : String
  detail : String
  deriving DecidableEq, Inhabited

/-- An event on a line: its number, then its text, indented by depth, without blanks at the end. -/
def TraceEntry.render (entry : TraceEntry) : String :=
  Text.stripEnd
    (String.ofList (padDigits 5 (Nat.toDigits 10 entry.number)) ++ " " ++
      String.ofList (List.replicate (2 * entry.depth) ' ') ++ entry.event ++ " " ++
      entry.instruction ++ " " ++ entry.detail)

/-- The events of a run. -/
structure Trace where
  /-- The greatest number of events kept; all are kept if there is none. -/
  capacity : Option Nat := some 256
  /-- The number of the next event. -/
  next : Nat := 0
  /-- The events kept, newest first. -/
  newest : List TraceEntry := []
  deriving DecidableEq, Inhabited

namespace Trace

/-- The events that a capacity keeps, newest first. -/
def keep (capacity : Option Nat) (entries : List TraceEntry) : List TraceEntry :=
  match capacity with
  | none => entries
  | some limit => entries.take limit

/-- Adds an event. -/
def record (trace : Trace) (event : String) (depth : Nat) (instruction detail : String) : Trace :=
  { trace with
    next := trace.next + 1
    newest := keep trace.capacity
      (⟨trace.next, event, depth, instruction, detail⟩ :: trace.newest) }

/-- The events that are kept, oldest first. -/
def snapshot (trace : Trace) : List TraceEntry :=
  trace.newest.reverse

/-- Forgets all events and numbers from zero again. -/
def clear (trace : Trace) : Trace :=
  { trace with next := 0, newest := [] }

end Trace

end WireProgram
