/-
**Files below a directory, and the paths that lead to them.**

A path is walked part by part: a part of two points goes up, any other part goes down and must be
there, and nothing lies below a file. The main definitions:

* `pathParts` splits a path into its parts, and `pathText` is a path as messages show it;
* `FileTree` is what lies below a directory;
* `FileTree.read` is what reading a path gives.
-/

import WireProgram.Bytes

namespace WireProgram

/-! ### Paths -/

/-- Splits a list of characters at every slash. -/
def splitSlashes : List Char → List (List Char)
  | [] => [[]]
  | '/' :: rest => [] :: splitSlashes rest
  | c :: rest =>
    match splitSlashes rest with
    | [] => [[c]]
    | part :: parts => (c :: part) :: parts

/-- The parts of a path; empty parts and single points vanish. -/
def pathParts (path : String) : List String :=
  ((splitSlashes path.toList).map String.ofList).filter fun part => part ≠ "" ∧ part ≠ "."

/-- Whether a path starts at the root of all files. -/
def isAbsolute (path : String) : Bool :=
  path.toList.head? = some '/'

/-- The path of a list of parts. -/
def joinParts (parts : List String) : String :=
  String.intercalate "/" parts

/--
A path without empty parts and single points; the path of nothing is a single point. Exactly two
slashes at the start stay two.
-/
def pathText (path : String) : String :=
  let body := joinParts (pathParts path)
  let root := match path.toList with
    | ['/', '/'] => "//"
    | '/' :: '/' :: c :: _ => if c = '/' then "/" else "//"
    | '/' :: _ => "/"
    | _ => ""
  if root.isEmpty && body.isEmpty then "." else root ++ body

/-! ### Trees -/

/-- What a path leads to. -/
inductive FileNode where
  | file (content : Bytes)
  | directory
  deriving DecidableEq, Inhabited

/-- What lies below a directory, by the parts of the paths. -/
abbrev FileTree := List (List String × FileNode)

/-- Whether a list of parts is a proper start of another one. -/
def isProperStart (start parts : List String) : Bool :=
  start.isPrefixOf parts && start.length < parts.length

/-- What is found under a list of parts. A directory is there if something lies below it. -/
def FileTree.node? (tree : FileTree) (parts : List String) : Option FileNode :=
  match tree.lookup parts with
  | some node => some node
  | none =>
    if tree.any fun entry => isProperStart parts entry.1 then some .directory else none

/-! ### Reading -/

/-- What reading a path gives. -/
inductive FileReply where
  | content (bytes : Bytes)
  /-- A failure, with its number and its description. -/
  | failed (number : Nat) (reason : String)
  /-- The path cannot stand for a file: it holds the character zero. -/
  | notPath
  deriving DecidableEq, Inhabited

/-- The reply for a directory. -/
def FileReply.isDirectory : FileReply := .failed 21 "Is a directory"

/-- The reply for a path below something that is no directory. -/
def FileReply.notDirectory : FileReply := .failed 20 "Not a directory"

/-- The reply for nothing at all. -/
def FileReply.missing : FileReply := .failed 2 "No such file or directory"

/-- The reply for a name or a path of too many bytes. -/
def FileReply.tooLong : FileReply := .failed 36 "File name too long"

/-- The number of bytes of the longest name of a file. -/
def longestName : Nat := 255

/-- The number of bytes of the longest path. -/
def longestPath : Nat := 4095

/-- What a path that left a tree by going up leads to: nothing is known there but directories. -/
def readAbove (parts : List String) : FileReply :=
  match parts.find? (· ≠ "..") with
  | none => .isDirectory
  | some part => if longestName < part.utf8ByteSize then .tooLong else .missing

/--
What a path leads to from a directory of a tree. Nothing lies above the directory of a rooted tree;
going up from there stays there.
-/
def FileTree.walk (tree : FileTree) (rooted : Bool) : (here : List String) → List String → FileReply
  | _, [] => .isDirectory
  | here, part :: rest =>
    if part = ".." then
      if here.isEmpty && !rooted then readAbove rest else walk tree rooted here.dropLast rest
    else if longestName < part.utf8ByteSize then .tooLong
    else
      match tree.node? (here ++ [part]) with
      | none => .missing
      | some .directory => walk tree rooted (here ++ [part]) rest
      | some (.file content) => if rest.isEmpty then .content content else .notDirectory

/-- The files that are known to be everywhere. -/
def commonFiles : FileTree :=
  [(["dev", "null"], .file []), (["tmp"], .directory)]

/-- What a path leads to if a tree is all that lies below the current directory. -/
def FileTree.read (tree : FileTree) (path : String) : FileReply :=
  if path.toList.contains (Char.ofNat 0) then .notPath
  else if longestPath < (pathText path).utf8ByteSize then .tooLong
  else if isAbsolute path then commonFiles.walk true [] (pathParts path)
  else tree.walk false [] (pathParts path)

end WireProgram
