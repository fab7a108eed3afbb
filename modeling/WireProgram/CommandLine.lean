/-
**The command line: decoding files with programs.**

A command reads files, writes to its two outputs and ends with a code: zero if all is well, one if
the input or the program is at fault or a program breaks the register discipline, two if a file
cannot be read. A misuse that no command handles ends it without a code. The main definitions:

* `Reply`, what a command writes and how it ends;
* `Command.run`, the effect of a command.
-/

import WireProgram.CommandLine.Arguments
import WireProgram.Program.Discipline
import WireProgram.Program.Printer
import WireProgram.Program.Reader
import WireProgram.Report
import WireProgram.Resolver.Files
import WireProgram.Run

namespace WireProgram.CommandLine

/-! ### Replies -/

/-- How a command ends. -/
inductive Ending where
  /-- With a code. -/
  | code (value : Nat)
  /-- With a failure that the command does not handle. -/
  | failure (failure : Failure)
  deriving Inhabited

/-- What a command writes and how it ends. -/
structure Reply where
  output : String := ""
  errors : String := ""
  ending : Ending := .code 0
  deriving Inhabited

/-- Each line with its end. -/
def asLines (lines : List String) : String :=
  String.join (lines.map (· ++ "\n"))

/-- The reply to a failure. Faults of input and programs are reported, all others pass. -/
def Reply.ofFailure (warnings : List String) (failure : Failure) : Reply :=
  match failure.fault with
  | .misuse _ => { errors := asLines warnings, ending := .failure failure }
  | _ => { errors := asLines (warnings ++ ["[ERROR] " ++ failure.message]), ending := .code 1 }

/-- The reply to a file that cannot be read. -/
def Reply.ofFile (path : String) (number : Nat) (reason : String) : Reply :=
  { errors := "[ERROR] [Errno " ++ toString number ++ "] " ++ reason ++ ": " ++
      Text.quoted (pathText path) ++ "\n"
    ending := .code 2 }

/-! ### Commands -/

/-- What a command works with. -/
structure Setting where
  /-- The files, by the paths of the command line. -/
  readFile : String → FileReply
  /-- The environment variables. -/
  environment : String → Option String

/-- Reads a file. -/
def Setting.load (setting : Setting) (path : String) : Except Reply Bytes :=
  match setting.readFile path with
  | .content bytes => .ok bytes
  | .failed number reason => .error (Reply.ofFile path number reason)
  | .notPath => .error (Reply.ofFailure [] ⟨.misuse .wrongValue, []⟩)

/-- Reads a program from a file, and makes its lists. -/
def loadProgram (setting : Setting) (path : String) : Except Reply (Program × Lists) := do
  match textOfFile (← setting.load path) with
  | none => throw (Reply.ofFailure [] ⟨.misuse .undecodableFile, []⟩)
  | some text =>
    match (Program.ofText (Prelude.withParent none) text).run {} with
    | .ok loaded => return loaded
    | .error fault => throw (Reply.ofFailure [] ⟨fault, []⟩)

/-- Reads the input of a run. Nothing can be read without a path. -/
def loadInput (setting : Setting) (execution : Execution) : Option String → Except Reply Bytes
  | some path => setting.load path
  | none =>
    let fault := match execution with
      | .blocking => .wrongType
      | .suspending => .noSuchOperation
    .error (Reply.ofFailure [] ⟨.misuse fault, []⟩)

/-- What a run leaves: its reply and the trace. -/
def replyToRun (result : Except Failure Value) (machine : Machine) (showTrace : Bool) : Reply :=
  let warnings := machine.warnings.reverse
  match result with
  | .error failure => Reply.ofFailure warnings failure
  | .ok value =>
    match value.report machine.lists with
    | .error fault => Reply.ofFailure warnings ⟨fault, []⟩
    | .ok document =>
      let trace := if showTrace then machine.trace.snapshot.map TraceEntry.render else []
      { output := document.render (.spaces 2) ++ "\n", errors := asLines (warnings ++ trace) }

/-- Decodes a byte string with a program. -/
def decodeBytes (program : Program) (lists : Lists) (execution : Execution) (config : Config)
    (trace : Trace) (bytes : Bytes) : Except Failure Value × Machine :=
  let opened := Streams.openSource { driver := execution } execution
    (Input.ofBytes config.chunkSize bytes)
  (decodeWith ⟨program, [], execution.name, config⟩ ⟨opened.1, true⟩ []).run
    { streams := opened.2, lists := lists, trace := trace }

/-- Checks a program before it runs in a mode; a mode without a name is not known. -/
def checkedExecution (program : Program) : Option Execution → Except Reply Execution
  | none => .error (Reply.ofFailure [] ⟨.program (.unknownMode (.array [])), []⟩)
  | some execution =>
    match compile program [] execution.name with
    | .error fault => .error (Reply.ofFailure [] ⟨fault, []⟩)
    | .ok execution => .ok execution

/-- Decodes a file with a program and reports the value. -/
def runDecode (setting : Setting) (trace : Trace) (program : String) (input : Option String)
    (mode : Option Execution) (showTrace : Bool) : Reply × Trace :=
  match loadProgram setting program with
  | .error reply => (reply, trace)
  | .ok (loaded, lists) =>
    let settings := Config.ofEnvironment setting.environment
    let config := if showTrace then { settings with trace := true } else settings
    let trace := if showTrace then trace.clear else trace
    let opened := do
      let execution ← checkedExecution loaded mode
      return (execution, ← loadInput setting execution input)
    match opened with
    | .error reply => (reply, trace)
    | .ok (execution, bytes) =>
      let result := decodeBytes loaded lists execution config trace bytes
      (replyToRun result.1 result.2 showTrace, result.2.trace)

/-- Checks the register discipline of a program. -/
def runValidate (setting : Setting) (program : String) : Reply :=
  match loadProgram setting program with
  | .error reply => reply
  | .ok (loaded, _) =>
    match loaded.validate with
    | .error fault => Reply.ofFailure [] ⟨fault, []⟩
    | .ok [] => { output := "[ OK ] " ++ pathText program ++ "\n" }
    | .ok findings =>
      { output := asLines (findings.map fun finding => "[FAIL] " ++ finding.text)
        ending := .code 1 }

/-- Shows a program. -/
def runSample (name : String) : Reply :=
  match Examples.programs.lookup name with
  | none => { ending := .code 2 }
  | some program =>
    match program.toText (.spaces 2) with
    | .ok text => { output := text ++ "\n" }
    | .error fault => Reply.ofFailure [] ⟨fault, []⟩

/-- The effect of a command on the trace, and its reply. -/
def Command.run (setting : Setting) (trace : Trace) : Command → Reply × Trace
  | .decode program input mode showTrace =>
    runDecode setting trace program input mode showTrace
  | .validate program => (runValidate setting program, trace)
  | .sample name => (runSample name, trace)

end WireProgram.CommandLine
