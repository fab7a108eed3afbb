/-
**The command line program.**

The files that a command names are read before it runs. What it writes is printed, and its code is
the code of the program.

* `FileReply.ofError` tells why a file cannot be read;
* `main` runs one command line.
-/

import WireProgram.CommandLine

namespace WireProgram.CommandLine

/-! ### Reading files -/

/-- The reply for a file that cannot be read. -/
def FileReply.ofError : IO.Error → FileReply
  | .noFileOrDirectory _ _ _ => .missing
  | .permissionDenied _ code _ => .failed code.toNat "Permission denied"
  | .inappropriateType _ code _ => if code = 20 then .notDirectory else .isDirectory
  | _ => .failed 5 "Input/output error"

/-- Reads a file. -/
def readFromDisk (path : String) : IO FileReply := do
  try
    let content ← IO.FS.readBinFile path
    return .content content.toList
  catch error =>
    return FileReply.ofError error

/-- The files that a command reads. -/
def Command.paths : Command → List String
  | .decode program input _ _ => program :: input.toList
  | .validate program => [program]
  | .sample _ => []

/-- The variables that set up a decoder. -/
def variableNames : List String :=
  ["PROTODEC_TRACE", "PROTODEC_CHUNK_SIZE", "PROTODEC_ALLOW_PARTIAL_TAIL"]

/-! ### Running a command -/

/-- Prints a reply and gives the code of the program. -/
def Reply.print (reply : Reply) : IO UInt32 := do
  IO.print reply.output
  IO.eprint reply.errors
  match reply.ending with
  | .code value => return UInt32.ofNat value
  | .failure failure =>
    IO.eprintln failure.message
    return 1

/-- Runs a command. -/
def Command.execute (command : Command) : IO UInt32 := do
  let files ← command.paths.mapM fun path => do return (path, ← readFromDisk path)
  let found ← variableNames.mapM fun name => do return (name, ← IO.getEnv name)
  let setting : Setting :=
    { readFile := fun path => (files.lookup path).getD .missing
      environment := fun name => (found.lookup name).join }
  (command.run setting {}).1.print

/-- The lines that show how the program is called. -/
def usage : String :=
  asLines
    ["usage: protodec decode [--mode blocking|suspending] [--trace] program input",
      "       protodec validate program", "       protodec example name"]

end WireProgram.CommandLine

/-- Runs one command line. -/
def main (arguments : List String) : IO UInt32 := do
  match WireProgram.CommandLine.Command.parse arguments with
  | .ok command => command.execute
  | .error .help =>
    IO.print WireProgram.CommandLine.usage
    return 0
  | .error .malformed =>
    IO.eprint WireProgram.CommandLine.usage
    return 2
