/-
**The names of imports and the files they open.**

A name is stripped of its blanks, read as a path and given the suffix of the imports, in that order,
and what is checked is the path before it has the suffix. The main statements:

* `Files.normalize_confined`: a canonical path stays below the root, ends with the suffix, and the
  file it names is the only one that an import opens;
* `Files.normalize_canonical_iff`: a canonical path is its own canonical path exactly if no blank
  begins or ends it; `Files.normalize_uncovers_blank` is a name that has another one.
-/

import Mathlib.Data.List.TakeWhile
import Mathlib.Tactic.Common
import WireProgram.Resolver.Files

namespace WireProgram

/-! ### Paths and their parts -/

theorem splitSlashes_eq_splitOn (chars : List Char) : splitSlashes chars = chars.splitOn '/' := by
  induction chars using splitSlashes.induct with
  | case1 => rfl
  | case2 rest ih => rw [splitSlashes, ih, List.splitOn_cons_eq_if_modifyHead]; simp
  | case3 c rest other none ih =>
    rw [ih] at none
    exact absurd none (List.splitOn_ne_nil _ _)
  | case4 c rest other part parts found ih =>
    have slashless : (c == '/') = false := by simpa using other
    rw [splitSlashes, found, List.splitOn_cons_eq_if_modifyHead, if_neg (by simp [slashless]), ← ih,
      found]
    · rfl
    · exact other

/-- Characters before the first slash go to the first piece. -/
theorem splitOn_append_of_slashless {front : List Char} (slashless : '/' ∉ front)
    (rest : List Char) :
    (front ++ rest).splitOn '/' = (rest.splitOn '/').modifyHead (front ++ ·) := by
  induction front with
  | nil => exact (congrFun List.modifyHead_id _).symm
  | cons c front ih =>
    rw [List.mem_cons, not_or] at slashless
    rw [List.cons_append, List.splitOn_cons_eq_if_modifyHead,
      if_neg (by simpa using Ne.symm slashless.1), ih slashless.2, List.modifyHead_modifyHead]
    rfl

theorem slashless_of_mem_splitOn {piece chars : List Char} (member : piece ∈ chars.splitOn '/') :
    '/' ∉ piece := by
  induction chars generalizing piece with
  | nil => simp_all [List.splitOn_nil]
  | cons c chars ih =>
    rw [List.splitOn_cons_eq_if_modifyHead] at member
    split at member
    · rcases List.mem_cons.mp member with rfl | later
      · exact List.not_mem_nil
      · exact ih later
    case isFalse other =>
      cases pieces : chars.splitOn '/' with
      | nil => exact absurd pieces (List.splitOn_ne_nil _ _)
      | cons first more =>
        rw [pieces] at member ih
        rcases List.mem_cons.mp member with rfl | later
        · rw [List.mem_cons, not_or]
          exact ⟨Ne.symm (by simpa using other), ih List.mem_cons_self⟩
        · exact ih (List.mem_cons_of_mem _ later)

/-- A text that is one part of a path: it does not vanish, and no slash divides it. -/
structure IsPart (part : String) : Prop where
  nonempty : part ≠ ""
  notPoint : part ≠ "."
  slashless : '/' ∉ part.toList

theorem mem_pathParts {part path : String} :
    part ∈ pathParts path ↔
      part.toList ∈ path.toList.splitOn '/' ∧ part ≠ "" ∧ part ≠ "." := by
  simp only [pathParts, splitSlashes_eq_splitOn, List.mem_filter, List.mem_map, decide_eq_true_eq]
  refine and_congr_left fun _ => ⟨?_, fun member => ⟨_, member, String.ofList_toList⟩⟩
  rintro ⟨chars, member, rfl⟩
  rwa [String.toList_ofList]

theorem isPart_of_mem_pathParts {part path : String} (member : part ∈ pathParts path) :
    IsPart part :=
  let ⟨piece, nonempty, notPoint⟩ := mem_pathParts.mp member
  ⟨nonempty, notPoint, slashless_of_mem_splitOn piece⟩

theorem pathParts_empty : pathParts "" = [] := by
  simp [pathParts, splitSlashes]

theorem IsPart.pathParts {part : String} (is : IsPart part) :
    WireProgram.pathParts part = [part] := by
  simp [WireProgram.pathParts, splitSlashes_eq_splitOn, List.splitOn_eq_singleton is.slashless,
    is.nonempty, is.notPoint]

/-- A slash divides the parts of a path into those before it and those after it. -/
theorem pathParts_append_slash (front rest : String) :
    pathParts (front ++ "/" ++ rest) = pathParts front ++ pathParts rest := by
  have split : (front ++ "/" ++ rest).toList.splitOn '/' =
      front.toList.splitOn '/' ++ rest.toList.splitOn '/' := by
    simp [List.splitOn_append_cons_self]
  simp only [pathParts, splitSlashes_eq_splitOn, split, List.map_append, List.filter_append]

theorem pathParts_joinParts (texts : List String) :
    pathParts (joinParts texts) = texts.flatMap pathParts := by
  induction texts with
  | nil => exact pathParts_empty
  | cons text texts ih =>
    cases texts with
    | nil => simp [joinParts]
    | cons next texts =>
      rw [joinParts, String.intercalate_cons_cons, pathParts_append_slash, ← joinParts, ih]
      rfl

/-- What is behind the last part of a path is behind the path. -/
theorem joinParts_concat_append (front : List String) (last rest : String) :
    joinParts (front ++ [last ++ rest]) = joinParts (front ++ [last]) ++ rest := by
  induction front with
  | nil => simp [joinParts]
  | cons part front ih =>
    obtain ⟨next, more, shape⟩ := List.exists_cons_of_ne_nil (l := front ++ [last]) (by simp)
    obtain ⟨next', more', shape'⟩ :=
      List.exists_cons_of_ne_nil (l := front ++ [last ++ rest]) (by simp)
    rw [shape, shape'] at ih
    simp only [joinParts, List.cons_append, shape, shape', String.intercalate_cons_cons,
      String.append_assoc] at ih ⊢
    rw [ih]

/-- A path of real parts is read back part by part. -/
theorem flatMap_pathParts {parts : List String} (are : ∀ part ∈ parts, IsPart part) :
    parts.flatMap pathParts = parts := by
  induction parts with
  | nil => rfl
  | cons part parts ih =>
    obtain ⟨is, are⟩ := List.forall_mem_cons.mp are
    rw [List.flatMap_cons, is.pathParts, ih are]
    rfl

theorem isAbsolute_append {front : String} (nonempty : front ≠ "") (rest : String) :
    isAbsolute (front ++ rest) = isAbsolute front := by
  obtain ⟨c, chars, shape⟩ := List.exists_cons_of_ne_nil (mt String.toList_eq_nil_iff.mp nonempty)
  simp only [isAbsolute, String.toList_append, shape, List.cons_append, List.head?_cons]

theorem IsPart.isAbsolute_eq_false {part : String} (is : IsPart part) :
    isAbsolute part = false := by
  rw [isAbsolute, decide_eq_false_iff_not]
  exact fun slash => is.slashless (List.mem_of_mem_head? slash)

/-- A path is relative if its first part is a real one. -/
theorem isAbsolute_joinParts_append {part : String} (is : IsPart part) (more : List String)
    (rest : String) : isAbsolute (joinParts (part :: more) ++ rest) = false := by
  cases more with
  | nil => simpa [joinParts] using (isAbsolute_append is.nonempty rest).trans is.isAbsolute_eq_false
  | cons next more =>
    rw [joinParts, String.intercalate_cons_cons, String.append_assoc, String.append_assoc,
      isAbsolute_append is.nonempty]
    exact is.isAbsolute_eq_false

/-! ### Suffixes -/

/-- The suffix of a name is an end of it. -/
theorem fileSuffix_suffix (name : String) : (fileSuffix name).toList <:+ name.toList := by
  unfold fileSuffix
  extract_lets reversed after before
  have divided : after ++ reversed.dropWhile (· ≠ '.') = reversed :=
    List.takeWhile_append_dropWhile
  have rest : before = (reversed.dropWhile (· ≠ '.')).drop 1 := by
    rw [← @List.drop_length_add_append _ after, divided]
  split
  · exact List.nil_suffix
  case isFalse proper =>
    have inside : reversed.dropWhile (· ≠ '.') ≠ [] := by
      intro none
      rw [none] at rest
      exact proper (.inr (by simp [rest]))
    obtain ⟨point, name', left⟩ := List.exists_cons_of_ne_nil inside
    have isPoint : point = '.' := by
      have stopped := List.head?_dropWhile_not (fun c => decide (c ≠ '.')) reversed
      rw [left] at stopped
      simpa using stopped
    rw [left, isPoint] at divided
    refine List.reverse_prefix.mp ⟨name', ?_⟩
    rw [String.toList_ofList, List.reverse_cons, List.reverse_reverse, List.append_assoc]
    exact divided

/-- What a suffix of file names is like: a point and more, which has no point and no slash in it. -/
def IsSuffix (suffix : String) : Prop :=
  ∃ kind : List Char, suffix.toList = '.' :: kind ∧ kind ≠ [] ∧ '.' ∉ kind ∧ '/' ∉ kind

example : IsSuffix ".pspec" :=
  ⟨['p', 's', 'p', 'e', 'c'], by decide⟩

theorem IsSuffix.fileSuffix_append {name suffix : String} (proper : IsSuffix suffix)
    (nonempty : name ≠ "") : fileSuffix (name ++ suffix) = suffix := by
  obtain ⟨kind, shape, more, single, slashless⟩ := proper
  have reversed : (name ++ suffix).toList.reverse = kind.reverse ++ '.' :: name.toList.reverse := by
    simp [shape]
  have after : (kind.reverse ++ '.' :: name.toList.reverse).takeWhile (· ≠ '.') = kind.reverse := by
    rw [List.takeWhile_append_of_pos (by
      simp only [List.mem_reverse, ne_eq, decide_eq_true_eq]
      exact fun c member same => single (same ▸ member))]
    simp
  simp only [fileSuffix, reversed, after]
  rw [if_neg]
  · rw [List.reverse_reverse, ← shape, String.ofList_toList]
  · simp [more, nonempty]

/-! ### The file name of a canonical path -/

/-- The first piece of a part with something behind it is a part, and no way up. -/
theorem IsPart.append {part : String} (is : IsPart part) (up : part ≠ "..") {rest : List Char}
    (slashless : '/' ∉ rest) :
    IsPart (part ++ String.ofList rest) ∧ part ++ String.ofList rest ≠ ".." := by
  obtain ⟨c, chars, shape⟩ := List.exists_cons_of_ne_nil (mt String.toList_eq_nil_iff.mp is.nonempty)
  have whole : (part ++ String.ofList rest).toList = c :: (chars ++ rest) := by simp [shape]
  have notPoint : c :: chars ≠ ['.'] := fun same =>
    is.notPoint (String.toList_inj.mp (shape.trans same))
  have notUp : c :: chars ≠ ['.', '.'] := fun same =>
    up (String.toList_inj.mp (shape.trans same))
  refine ⟨⟨?_, ?_, ?_⟩, ?_⟩
  · rw [ne_eq, ← String.toList_inj, whole]
    simp
  · rw [ne_eq, ← String.toList_inj, whole]
    intro same
    simp_all
  · simp [is.slashless, slashless]
  · rw [ne_eq, ← String.toList_inj, whole]
    intro same
    rcases chars with _ | ⟨d, chars⟩ <;> simp_all

namespace Files

/-- A part with a suffix that can name a file is one part of a path, and no way up. -/
theorem pathParts_of_isFileName {part suffix : String} (is : IsPart part) (up : part ≠ "..")
    (named : isFileName (part ++ suffix) = true) :
    ∃ last, pathParts (part ++ suffix) = [last] ∧ last ≠ ".." ∧
      ('/' ∉ suffix.toList → last = part ++ suffix) := by
  obtain ⟨first, more, pieces⟩ := List.exists_cons_of_ne_nil
    (List.splitOn_ne_nil '/' suffix.toList)
  have slashless : '/' ∉ first := slashless_of_mem_splitOn (pieces ▸ List.mem_cons_self)
  obtain ⟨isFirst, notUp⟩ := is.append up slashless
  have member : part ++ String.ofList first ∈ pathParts (part ++ suffix) := by
    rw [mem_pathParts, String.toList_append, splitOn_append_of_slashless is.slashless, pieces]
    exact ⟨by simp, isFirst.nonempty, isFirst.notPoint⟩
  obtain ⟨last, one⟩ : ∃ last, pathParts (part ++ suffix) = [last] := by
    simp only [isFileName, Bool.and_eq_true, decide_eq_true_eq] at named
    exact List.length_eq_one_iff.mp named.2
  rw [one, List.mem_singleton] at member
  refine ⟨last, one, member ▸ notUp, fun free => ?_⟩
  rw [List.splitOn_eq_singleton free, List.cons.injEq] at pieces
  rw [← member, ← pieces.1, String.ofList_toList]

/-! ### Canonical paths -/

/-- The name of the file that the last part of an import stands for. -/
def fileName (files : Files) (last : String) : String :=
  if fileSuffix last = files.suffix then last else last ++ files.suffix

/-- The name of a file ends with the suffix of the imports. -/
theorem suffix_fileName (files : Files) (last : String) :
    files.suffix.toList <:+ (files.fileName last).toList := by
  unfold fileName
  split
  case isTrue suffixed => exact suffixed ▸ fileSuffix_suffix last
  case isFalse => simp

theorem exists_fileName (files : Files) (last : String) :
    ∃ rest, files.fileName last = last ++ rest := by
  unfold fileName
  split
  · exact ⟨"", String.append_empty.symm⟩
  · exact ⟨files.suffix, rfl⟩

/-- What a name must be like for a canonical path: its parts, the last of which names a file. -/
structure Names (files : Files) (name : String) (front : List String) (last : String) : Prop where
  parts : pathParts (Text.strip name) = front ++ [last]
  relative : isAbsolute (Text.strip name) = false
  below : ".." ∉ front ++ [last]
  named : fileSuffix last = files.suffix ∨ isFileName (last ++ files.suffix) = true

theorem Names.normalize_eq {files : Files} {name last : String} {front : List String}
    (names : files.Names name front last) :
    files.normalize name = .ok (some (joinParts (front ++ [files.fileName last]))) := by
  have inside : ¬(isAbsolute (Text.strip name) = true ∨
      (front ++ [last]).contains ".." = true) := by
    simpa [names.relative] using names.below
  rw [normalize, names.parts, List.getLast?_concat]
  simp only [if_neg inside, fileName, List.dropLast_concat]
  split
  · rfl
  case isFalse bare => rw [if_pos (names.named.resolve_left bare)]

theorem names_of_normalize {files : Files} {name path : String}
    (found : files.normalize name = .ok (some path)) :
    ∃ front last, files.Names name front last ∧
      path = joinParts (front ++ [files.fileName last]) := by
  unfold normalize at found
  extract_lets stripped parts at found
  cases isLast : parts.getLast? with
  | none => simp [isLast] at found
  | some last =>
    obtain ⟨front, shape⟩ := List.getLast?_eq_some_iff.mp isLast
    simp only [isLast] at found
    split at found
    · simp at found
    case isFalse inside =>
      have names (named : fileSuffix last = files.suffix ∨ isFileName (last ++ files.suffix) = true) :
          files.Names name front last :=
        ⟨shape, by simpa using mt Or.inl inside, by simpa [shape] using mt Or.inr inside, named⟩
      refine ⟨front, last, ?_⟩
      split at found
      case isTrue suffixed =>
        simp_all [fileName]
      case isFalse bare =>
        split at found
        case isTrue named => simp_all [fileName]
        case isFalse => simp at found

namespace Names

variable {files : Files} {name last : String} {front : List String}

theorem isPart (names : files.Names name front last) {part : String}
    (member : part ∈ front ++ [last]) : IsPart part :=
  isPart_of_mem_pathParts (names.parts ▸ member)

/-- The parts of a canonical path: those of the name, and the name of the file. -/
theorem pathParts_canonical (names : files.Names name front last) :
    ∃ final, pathParts (joinParts (front ++ [files.fileName last])) = front ++ [final] ∧
      final ≠ ".." ∧ ('/' ∉ files.suffix.toList → final = files.fileName last) := by
  have isLast : IsPart last := names.isPart (by simp)
  have up : last ≠ ".." := fun same => names.below (by simp [same])
  have parts : pathParts (joinParts (front ++ [files.fileName last])) =
      front ++ pathParts (files.fileName last) := by
    rw [pathParts_joinParts, List.flatMap_append,
      flatMap_pathParts fun part member => names.isPart (List.mem_append_left _ member)]
    simp
  rw [parts]
  by_cases suffixed : fileSuffix last = files.suffix
  · rw [fileName, if_pos suffixed, isLast.pathParts]
    exact ⟨last, rfl, up, fun _ => rfl⟩
  · obtain ⟨final, one, notUp, whole⟩ :=
      pathParts_of_isFileName isLast up (names.named.resolve_left suffixed)
    rw [fileName, if_neg suffixed, one]
    exact ⟨final, rfl, notUp, whole⟩

theorem isAbsolute_canonical (names : files.Names name front last) :
    isAbsolute (joinParts (front ++ [files.fileName last])) = false := by
  obtain ⟨rest, shape⟩ := files.exists_fileName last
  obtain ⟨first, more, parts⟩ := List.exists_cons_of_ne_nil (l := front ++ [last]) (by simp)
  rw [shape, joinParts_concat_append, parts]
  exact isAbsolute_joinParts_append (names.isPart (parts ▸ List.mem_cons_self)) more rest

end Names

/-- A path that leads below the root and ends with the suffix of the imports. -/
structure Confined (files : Files) (path : String) : Prop where
  relative : isAbsolute path = false
  nonempty : path ≠ ""
  descends : ".." ∉ pathParts path
  suffixed : files.suffix.toList <:+ path.toList
  /-- A suffix with a slash in it need not be in one part. -/
  named : ∃ front last, pathParts path = front ++ [last] ∧
    ('/' ∉ files.suffix.toList → files.suffix.toList <:+ last.toList)

/-- The canonical path of an import is below the root, and ends with the suffix. -/
theorem confined_of_normalize {files : Files} {name path : String}
    (found : files.normalize name = .ok (some path)) : files.Confined path := by
  obtain ⟨front, last, names, rfl⟩ := names_of_normalize found
  obtain ⟨final, parts, notUp, whole⟩ := names.pathParts_canonical
  refine ⟨names.isAbsolute_canonical, ?_, ?_, ?_, front, final, parts, ?_⟩
  · intro empty
    rw [empty, pathParts_empty] at parts
    simp at parts
  · rw [parts]
    simpa [Ne.symm notUp] using fun member => names.below (List.mem_append_left _ member)
  · have ends := joinParts_concat_append front "" (files.fileName last)
    rw [String.empty_append] at ends
    rw [ends, String.toList_append]
    exact (files.suffix_fileName last).trans (List.suffix_append ..)
  · intro slashless
    rw [whole slashless]
    exact files.suffix_fileName last

end Files

/-! ### What an import opens -/

/-- Whether a node is a directory. -/
def FileNode.isDirectory : FileNode → Bool
  | .file _ => false
  | .directory => true

/-- Two trees in which the same directories lead along a list of parts, to the same node. -/
structure FileTree.SameAlong (tree other : FileTree) (parts : List String) : Prop where
  through : ∀ front, front <+: parts → front ≠ parts →
    (tree.node? front).map FileNode.isDirectory = (other.node? front).map FileNode.isDirectory
  node : tree.node? parts = other.node? parts

/-- A walk that never goes up asks a tree for directories on its way and for the node at its end. -/
theorem FileTree.walk_same {tree other : FileTree} {rooted : Bool} (here parts : List String)
    (same : tree.SameAlong other (here ++ parts)) (below : ".." ∉ parts) :
    tree.walk rooted here parts = other.walk rooted here parts := by
  induction parts generalizing here with
  | nil => rfl
  | cons part rest ih =>
    rw [List.mem_cons, not_or] at below
    rw [List.append_cons] at same
    have later := ih _ same below.2
    simp only [walk, if_neg (Ne.symm below.1)]
    split
    · rfl
    cases rest with
    | nil =>
      have node := same.node
      rw [List.append_nil] at node
      rw [node, later]
    | cons next rest =>
      have way := same.through (here ++ [part]) (List.prefix_append ..) (by simp)
      rcases found : tree.node? (here ++ [part]) with _ | (_ | _) <;>
        rcases found' : other.node? (here ++ [part]) with _ | (_ | _) <;>
        simp [found, found', FileNode.isDirectory] at way
      case none.none => rfl
      case some.file.some.file => rfl
      case some.directory.some.directory => exact later

/-- A walk that never goes up ends at the file whose content it gives. -/
theorem FileTree.node_of_walk {tree : FileTree} {rooted : Bool} {bytes : Bytes}
    (here parts : List String) (below : ".." ∉ parts)
    (found : tree.walk rooted here parts = .content bytes) :
    tree.node? (here ++ parts) = some (.file bytes) := by
  induction parts generalizing here with
  | nil => simp [walk, FileReply.isDirectory] at found
  | cons part rest ih =>
    rw [List.mem_cons, not_or] at below
    simp only [walk, if_neg (Ne.symm below.1)] at found
    split at found
    · simp [FileReply.tooLong] at found
    split at found
    · simp [FileReply.missing] at found
    · rw [List.append_cons]
      exact ih _ below.2 found
    case h_3 content node =>
      split at found
      case isTrue final =>
        obtain rfl : content = bytes := by simpa using found
        rw [List.isEmpty_iff.mp final, node]
      case isFalse => simp [FileReply.notDirectory] at found

namespace Files

/-- An import opens nothing but the file of its canonical path: the content that is read is that of
the file, and nothing but the directories on the way and that file matters. -/
structure Opens (files : Files) (name path : String) : Prop where
  content : ∀ text, files.read name = .ok (some text) →
    ∃ bytes, files.tree.node? (pathParts path) = some (.file bytes) ∧ textOfFile bytes = some text
  only : ∀ tree, files.tree.SameAlong tree (pathParts path) →
    ({ files with tree } : Files).read name = files.read name

/-- The canonical path of a name does not depend on the files that are there. -/
theorem normalize_withTree (files : Files) (tree : FileTree) (name : String) :
    ({ files with tree } : Files).normalize name = files.normalize name := by
  simp only [normalize]

/-- An import reads its canonical path in the tree. -/
theorem read_of_normalize {files : Files} {name path : String}
    (found : files.normalize name = .ok (some path)) :
    files.read name = match files.tree.read path with
      | .content bytes => .ok (textOfFile bytes)
      | .failed number _ => if number = 36 then .error (.misuse .systemFault) else .ok none
      | .notPath => .ok none := by
  rw [read, found]
  cases reply : files.tree.read path with
  | content bytes => simp [bind, Except.bind, pure, Except.pure, reply]
  | failed number reason =>
    simp only [bind, Except.bind, Option.map_some, reply]
    split <;> rfl
  | notPath => simp [bind, Except.bind, pure, Except.pure, reply]

theorem opens_of_normalize {files : Files} {name path : String}
    (found : files.normalize name = .ok (some path)) : files.Opens name path := by
  obtain ⟨relative, -, below, -, -⟩ := confined_of_normalize found
  constructor
  · intro text read
    rw [read_of_normalize found] at read
    split at read
    case h_1 bytes reply =>
      refine ⟨bytes, ?_, Except.ok.inj read⟩
      simp only [FileTree.read, relative, Bool.false_eq_true, if_false] at reply
      split_ifs at reply
      · simp [FileReply.tooLong] at reply
      exact FileTree.node_of_walk [] (pathParts path) below reply
    case h_2 => split at read <;> simp at read
    case h_3 => simp at read
  · intro tree same
    have reply : tree.read path = files.tree.read path := by
      simp only [FileTree.read, relative, Bool.false_eq_true, if_false,
        FileTree.walk_same [] (pathParts path) same below]
    rw [read_of_normalize found, read_of_normalize ((files.normalize_withTree tree name).trans found),
      reply]

/-- **No import leads out of the root.** A canonical path is relative, goes nowhere up, and has a
last part with the suffix; and the file below the root that it names is all that an import of that
name opens. -/
theorem normalize_confined {files : Files} {name path : String}
    (found : files.normalize name = .ok (some path)) :
    files.Confined path ∧ files.Opens name path :=
  ⟨confined_of_normalize found, opens_of_normalize found⟩

/-- A name with blanks, empty parts and a slash at its end opens one file. -/
theorem normalize_confined_of_blanks :
    ∃ files : Files, files.suffix = ".pspec" ∧
      files.normalize " net//./ipv4/ " = .ok (some "net/ipv4.pspec") ∧
      files.Confined "net/ipv4.pspec" ∧ files.Opens " net//./ipv4/ " "net/ipv4.pspec" := by
  have names : ({ tree := [(["net", "ipv4.pspec"], .file [0x31])] } : Files).Names
      " net//./ipv4/ " ["net"] "ipv4" :=
    ⟨by decide, by decide, by decide, .inr (by decide)⟩
  have found : ({ tree := [(["net", "ipv4.pspec"], .file [0x31])] } : Files).normalize
      " net//./ipv4/ " = .ok (some "net/ipv4.pspec") := by
    simpa [joinParts, fileName, show fileSuffix "ipv4" ≠ ".pspec" by decide] using
      names.normalize_eq
  exact ⟨_, rfl, found, normalize_confined found⟩

end Files

/-! ### Canonical paths of canonical paths -/

/-- Removing blanks keeps the number of every other character. -/
theorem count_dropWhile {c : Char} (solid : Text.isBlank c = false) (chars : List Char) :
    (chars.dropWhile Text.isBlank).count c = chars.count c := by
  have blanks : (chars.takeWhile Text.isBlank).count c = 0 := by
    rw [List.count_eq_zero]
    exact fun member => by simpa [solid] using List.mem_takeWhile_imp member
  conv_rhs => rw [← List.takeWhile_append_dropWhile (p := Text.isBlank) (l := chars)]
  rw [List.count_append, blanks, Nat.zero_add]

theorem count_strip {c : Char} (solid : Text.isBlank c = false) (text : String) :
    (Text.strip text).toList.count c = text.toList.count c := by
  simp only [Text.strip, Text.stripChars, Text.stripEndChars, String.toList_ofList,
    List.count_reverse, count_dropWhile solid]

theorem length_splitOn (chars : List Char) :
    (chars.splitOn '/').length = chars.count '/' + 1 := by
  induction chars with
  | nil => simp [List.splitOn_nil]
  | cons c chars ih =>
    rw [List.splitOn_cons_eq_if_modifyHead, List.count_cons]
    split <;> simp [ih]

theorem count_joinParts {parts : List String} (are : ∀ part ∈ parts, '/' ∉ part.toList)
    (inhabited : parts ≠ []) : (joinParts parts).toList.count '/' + 1 = parts.length := by
  have pieces : (joinParts parts).toList.splitOn '/' = parts.map String.toList := by
    rw [joinParts, String.toList_intercalate]
    exact List.splitOn_intercalate '/' (by simpa using are) (by simpa using inhabited)
  rw [← length_splitOn, pieces, List.length_map]

/-- A path from which nothing vanishes is the path of its parts. -/
theorem joinParts_pathParts {path : String}
    (all : (pathParts path).length = path.toList.count '/' + 1) :
    joinParts (pathParts path) = path := by
  rw [← length_splitOn] at all
  have kept : pathParts path = (path.toList.splitOn '/').map String.ofList := by
    rw [pathParts, splitSlashes_eq_splitOn] at all ⊢
    exact List.filter_eq_self.mpr (List.length_filter_eq_length_iff.mp (by simpa using all))
  rw [← String.toList_inj, kept, joinParts, String.toList_intercalate, List.map_map]
  simp [Function.comp_def, List.intercalate_splitOn]

namespace Files

variable {files : Files} {name path : String}

/-- With a suffix of file names, the name of a file is the name of a file, and the same one. -/
theorem fileSuffix_fileName (proper : IsSuffix files.suffix) {last : String} (is : IsPart last) :
    fileSuffix (files.fileName last) = files.suffix := by
  unfold fileName
  split
  case isTrue suffixed => exact suffixed
  case isFalse => exact proper.fileSuffix_append is.nonempty

theorem slashless_of_isSuffix (proper : IsSuffix files.suffix) : '/' ∉ files.suffix.toList := by
  obtain ⟨kind, shape, -, -, slashless⟩ := proper
  simp [shape, slashless]

theorem Names.pathParts_eq (proper : IsSuffix files.suffix) {front : List String} {last : String}
    (names : files.Names name front last) :
    pathParts (joinParts (front ++ [files.fileName last])) = front ++ [files.fileName last] := by
  obtain ⟨final, parts, -, whole⟩ := names.pathParts_canonical
  rw [parts, whole (slashless_of_isSuffix proper)]

/-- A canonical path that keeps its blanks is named by itself. -/
theorem Names.again (proper : IsSuffix files.suffix) {front : List String} {last : String}
    (names : files.Names name front last)
    (kept : Text.strip (joinParts (front ++ [files.fileName last])) =
      joinParts (front ++ [files.fileName last])) :
    files.Names (joinParts (front ++ [files.fileName last])) front (files.fileName last) where
  parts := by rw [kept, names.pathParts_eq proper]
  relative := by rw [kept, names.isAbsolute_canonical]
  below := names.pathParts_eq proper ▸ (confined_of_normalize names.normalize_eq).descends
  named := .inl (fileSuffix_fileName proper (names.isPart (by simp)))

/-- **Canonical paths of canonical paths.** Blanks are removed before a name is read as a path: a
canonical path may begin or end with a blank that a vanished part had covered. It is its own
canonical path exactly if it does not. -/
theorem normalize_canonical_iff (proper : IsSuffix files.suffix)
    (found : files.normalize name = .ok (some path)) :
    files.normalize path = .ok (some path) ↔ Text.strip path = path := by
  constructor
  · intro again
    obtain ⟨front, last, names, shape⟩ := names_of_normalize again
    -- Nothing vanishes in the second reading, which gives as many slashes as it finds.
    have whole : joinParts (front ++ [last]) = Text.strip path := by
      have slashes : (joinParts (front ++ [files.fileName last])).toList.count '/' + 1 = _ :=
        count_joinParts (fun part member =>
          (isPart_of_mem_pathParts (names.pathParts_eq proper ▸ member)).slashless) (by simp)
      rw [← shape] at slashes
      rw [← names.parts]
      refine joinParts_pathParts ?_
      rw [names.parts, count_strip (by decide), slashes]
      simp
    by_cases suffixed : fileSuffix last = files.suffix
    · rw [← whole, shape, fileName, if_pos suffixed]
    · -- Otherwise the path has the point of the suffix more than it has without its blanks.
      rw [fileName, if_neg suffixed, joinParts_concat_append, whole] at shape
      obtain ⟨kind, isPoint, -, -, -⟩ := proper
      have points := congrArg (fun text : String => text.toList.count '.') shape
      simp [count_strip (c := '.') (by decide), isPoint] at points
  · intro kept
    obtain ⟨front, last, names, rfl⟩ := names_of_normalize found
    have again := (names.again proper kept).normalize_eq
    rwa [show files.fileName (files.fileName last) = files.fileName last from
      if_pos (fileSuffix_fileName proper (names.isPart (by simp)))] at again

/-- A canonical path that keeps its blanks opens what its name opens. -/
theorem read_canonical (proper : IsSuffix files.suffix)
    (found : files.normalize name = .ok (some path)) (kept : Text.strip path = path) :
    files.read path = files.read name := by
  rw [read_of_normalize found,
    read_of_normalize ((normalize_canonical_iff proper found).mpr kept)]

/-- A point before a blank covers it: the canonical path of this name begins with the blank, and
has a canonical path without it. -/
theorem normalize_uncovers_blank :
    ({ tree := [] } : Files).normalize "./ a" = .ok (some " a.pspec") ∧
      ({ tree := [] } : Files).normalize " a.pspec" = .ok (some "a.pspec") := by
  have first : ({ tree := [] } : Files).Names "./ a" [] " a" :=
    ⟨by decide, by decide, by decide, .inr (by decide)⟩
  have second : ({ tree := [] } : Files).Names " a.pspec" [] "a.pspec" :=
    ⟨by decide, by decide, by decide, .inl (by decide)⟩
  constructor
  · simpa [joinParts, fileName, show fileSuffix " a" ≠ ".pspec" by decide] using first.normalize_eq
  · simpa [joinParts, fileName, show fileSuffix "a.pspec" = ".pspec" by decide] using
      second.normalize_eq

end Files

end WireProgram
