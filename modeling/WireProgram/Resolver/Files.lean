/-
**Imports as files below a root directory.**

The name of an import is a relative path; its last part gets a suffix unless it has it already. No
name leads out of the root. The main definitions:

* `fileSuffix` is the part of a file name from its last point on;
* `Files.normalize` is the canonical path of an import;
* `Files.resolver` reads imports from a tree of files.
-/

import WireProgram.FileTree
import WireProgram.Resolver
import WireProgram.Text.Blank

namespace WireProgram

/-- The part of a name from its last point on, unless that point is its first or last character. -/
def fileSuffix (name : String) : String :=
  let reversed := name.toList.reverse
  let after := reversed.takeWhile (· ≠ '.')
  let before := reversed.drop (after.length + 1)
  if after.isEmpty ∨ before.isEmpty then "" else String.ofList ('.' :: after.reverse)

/-- Every end of a line as a line feed. -/
def unifyNewlines : List Char → List Char
  | [] => []
  | '\r' :: '\n' :: rest => '\n' :: unifyNewlines rest
  | '\r' :: rest => '\n' :: unifyNewlines rest
  | c :: rest => c :: unifyNewlines rest

/-- The content of a text file. -/
def textOfFile (content : Bytes) : Option String :=
  match Utf8.decode content with
  | .ok chars => some (String.ofList (unifyNewlines chars))
  | .error _ => none

/-- A directory with imports. -/
structure Files where
  tree : FileTree
  suffix : String := ".pspec"
  deriving Inhabited

namespace Files

/-- Whether a text can be the last part of a path: it is one part, and no slash ends it. -/
def isFileName (text : String) : Bool :=
  text.toList.getLast? ≠ some '/' && (pathParts text).length = 1

/-- The canonical path of an import. The name of a file with its suffix must be a name again. -/
def normalize (files : Files) (name : String) : Except Fault (Option String) :=
  let path := Text.strip name
  let parts := pathParts path
  match parts.getLast? with
  | none => .ok none
  | some last =>
    if isAbsolute path ∨ parts.contains ".." then .ok none
    else if fileSuffix last = files.suffix then .ok (some (joinParts parts))
    else if isFileName (last ++ files.suffix) then
      .ok (some (joinParts (parts.dropLast ++ [last ++ files.suffix])))
    else .error (.misuse .wrongValue)

/-- The content of an import. A path that is too long for a file is a fault of the system. -/
def read (files : Files) (name : String) : Except Fault (Option String) := do
  match (← files.normalize name).map files.tree.read with
  | some (.content bytes) => return textOfFile bytes
  | some (.failed number _) => if number = 36 then throw (.misuse .systemFault) else return none
  | some .notPath | none => return none

/-- The resolver over a directory; it knows no capabilities. -/
def resolver (files : Files) : Resolver :=
  { Resolver.silent with normalizeImport := files.normalize, importText := files.read }

end Files

end WireProgram
