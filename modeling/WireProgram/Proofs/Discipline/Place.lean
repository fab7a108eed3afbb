/-
**Where the checker reports a breach.**

A place leads from the program, block by block, to an instruction. What the checker reports for an
instruction is at its place or beyond it, so that a finding belongs to one instruction only. The main
definitions and statements:

* `Place.path`, the way to a place, and `Lays`, the places of the instructions of a block;
* `CheckPoint`, where the checker stands, with `CheckPoint.past` and `CheckPoint.into`;
* `Instruction.Blamed` and `mem_checkInstruction`, what a finding says of an instruction;
* `CheckPoint.Finds`, a point at which all findings of what comes next are made, and
  `CheckPoint.Finds.blamed`, **a finding at the place of an instruction is about this instruction**.
-/

import WireProgram.Program.Discipline

namespace WireProgram

/-! ### Places -/

/-- The way to a place: an instruction of every block, by the block, its index and its kind. -/
def Place.path : Place → List (String × Nat × String)
  | .instruction index kind => [("", index, kind)]
  | .inside outer block index kind => outer.path ++ [(block, index, kind)]
  | _ => []

/-- The places of the instructions of a block: one way to all of them, and then their own step. -/
def Lays (front : List (String × Nat × String)) (block : String) (placeOf : Nat → String → Place) :
    Prop :=
  ∀ index kind, (placeOf index kind).path = front ++ [(block, index, kind)]

namespace Lays

variable {front : List (String × Nat × String)} {block : String} {placeOf : Nat → String → Place}

theorem program : Lays [] "" .instruction :=
  fun _ _ => rfl

theorem inside (outer : Place) (block : String) : Lays outer.path block (.inside outer block) :=
  fun _ _ => rfl

/-- A place is beyond one instruction of a block only. -/
theorem unique (lays : Lays front block placeOf) {path : List (String × Nat × String)}
    {first second : Nat} {kind other : String} (leads : (placeOf first kind).path <+: path)
    (leads' : (placeOf second other).path <+: path) : first = second := by
  rw [lays] at leads leads'
  have alike : (front ++ [(block, first, kind)]).length =
      (front ++ [(block, second, other)]).length := by
    rw [List.length_append, List.length_append]
    rfl
  have same := (List.prefix_of_prefix_length_le leads leads' (Nat.le_of_eq alike)).eq_of_length alike
  have last := List.append_cancel_left same
  simp only [List.cons.injEq, Prod.mk.injEq] at last
  exact last.1.2.1

end Lays

/-! ### Where the checker stands -/

/-- Where the checker stands in a block: the registers that it knows of, and the places of the
instructions. -/
structure CheckPoint where
  scope : CheckScope
  placeOf : Nat → String → Place

/-- The block of an instruction, which has at most one. -/
def Instruction.body : Instruction → List Instruction
  | .conditionalWrapStream _ prelude _ _ _ _ => prelude
  | .loop _ _ _ _ body => body
  | .conditional _ _ _ body => body
  | _ => []

/-- The registers that an instruction reads in the scope of its block. -/
def Instruction.lateReads : Instruction → List Register
  | .conditionalWrapStream _ _ _ _ _ arguments => arguments
  | _ => []

namespace CheckPoint

/-- The start of a program, behind its arguments. -/
def start (extent : Extent) (program : Program) : CheckPoint :=
  ⟨(checkArguments extent {} program.arguments).2, .instruction⟩

/-- The place of an instruction. -/
def place (point : CheckPoint) (index : Nat) (instruction : Instruction) : Place :=
  point.placeOf index instruction.kind

/-- Behind an instruction. -/
def past (point : CheckPoint) (extent : Extent) (index : Nat) (instruction : Instruction) :
    CheckPoint :=
  { point with
    scope := (checkInstruction extent point.scope (point.place index instruction) instruction).2 }

/-- At the start of the block of an instruction. -/
def into (scope : CheckScope) (extent : Extent) (place : Place) :
    Instruction → CheckPoint
  | .conditionalWrapStream .. => ⟨scope.child none, .inside place "prelude"⟩
  | .loop _ _ _ output _ =>
    ⟨(checkWrite extent scope place output).2.child (some output), .inside place "body"⟩
  | _ => ⟨scope.child none, .inside place "body"⟩

end CheckPoint

/-- What the checker finds in the block of an instruction, and the scope at its end. -/
def checkBody (extent : Extent) (scope : CheckScope) (place : Place) (instruction : Instruction) :
    List Finding × CheckScope :=
  let point := CheckPoint.into scope extent place instruction
  checkInstructions extent point.scope point.placeOf 0 instruction.body

/-! ### What a finding says -/

/-- Whether an instruction writes its register: all do, but those that add to a list. -/
def Instruction.isWriter : Instruction → Bool
  | .loopOutput .. => false
  | _ => true

/-- What a finding at the place of an instruction says of it: a register in range that it reads, or that
it reads in the scope of its block, is not written there, or its own register is written already. -/
def Instruction.Blamed (extent : Extent) (scope : CheckScope) (place : Place)
    (instruction : Instruction) : Problem → Prop
  | .readBeforeWritten register => inCount extent.count register = true ∧
      (register ∈ instruction.reads ∧ scope.isWritten register = false ∨
        register ∈ instruction.lateReads ∧
          (checkBody extent scope place instruction).2.isWritten register = false)
  | .writtenTwice register => instruction.isWriter = true ∧ register = instruction.labelRegister ∧
      inCount extent.count register = true ∧ scope.isWritten register = true
  | _ => True

section Findings

variable {extent : Extent} {scope : CheckScope} {place : Place} {finding : Finding}
  {register : Register} {instruction : Instruction}

theorem eq_of_mem_checkRange (member : finding ∈ checkRange extent place register) :
    finding = ⟨place, .outside register extent.last⟩ := by
  unfold checkRange at member
  split at member
  · cases member
  · exact List.mem_singleton.mp member

/-- What a finding of a read says. -/
theorem eq_of_mem_checkRead (member : finding ∈ checkRead extent scope place register) :
    finding = ⟨place, .outside register extent.last⟩ ∨
      finding = ⟨place, .readBeforeWritten register⟩ ∧ inCount extent.count register = true ∧
        scope.isWritten register = false := by
  unfold checkRead at member
  cases range : inCount extent.count register with
  | false =>
    rw [range] at member
    exact .inl (eq_of_mem_checkRange member)
  | true =>
    cases written : scope.isWritten register with
    | true =>
      rw [range, written] at member
      cases member
    | false =>
      rw [range, written] at member
      exact .inr ⟨List.mem_singleton.mp member, rfl, rfl⟩

/-- What a finding of a write says. -/
theorem eq_of_mem_checkWrite (member : finding ∈ (checkWrite extent scope place register).1) :
    finding = ⟨place, .outside register extent.last⟩ ∨
      finding = ⟨place, .writtenTwice register⟩ ∧ inCount extent.count register = true ∧
        scope.isWritten register = true := by
  unfold checkWrite at member
  cases range : inCount extent.count register with
  | false =>
    rw [range] at member
    exact .inl (eq_of_mem_checkRange member)
  | true =>
    cases written : scope.isWritten register with
    | false =>
      rw [range, written] at member
      cases member
    | true =>
      rw [range, written] at member
      exact .inr ⟨List.mem_singleton.mp member, rfl, rfl⟩

/-- What is said of an instruction at its place. -/
abbrev Finding.Says (finding : Finding) (extent : Extent) (scope : CheckScope) (place : Place)
    (instruction : Instruction) : Prop :=
  finding.place = place ∧ instruction.Blamed extent scope place finding.problem

theorem says_of_reads
    (member : finding ∈ instruction.reads.flatMap (checkRead extent scope place)) :
    finding.Says extent scope place instruction := by
  obtain ⟨register, listed, member⟩ := List.mem_flatMap.mp member
  rcases eq_of_mem_checkRead member with rfl | ⟨rfl, within, unwritten⟩
  · exact ⟨rfl, trivial⟩
  · exact ⟨rfl, within, .inl ⟨listed, unwritten⟩⟩

theorem says_of_lateReads
    (member : finding ∈ instruction.lateReads.flatMap
      (checkRead extent (checkBody extent scope place instruction).2 place)) :
    finding.Says extent scope place instruction := by
  obtain ⟨register, listed, member⟩ := List.mem_flatMap.mp member
  rcases eq_of_mem_checkRead member with rfl | ⟨rfl, within, unwritten⟩
  · exact ⟨rfl, trivial⟩
  · exact ⟨rfl, within, .inr ⟨listed, unwritten⟩⟩

theorem says_of_write (writer : instruction.isWriter = true)
    (member : finding ∈ (checkWrite extent scope place instruction.labelRegister).1) :
    finding.Says extent scope place instruction := by
  rcases eq_of_mem_checkWrite member with rfl | ⟨rfl, within, written⟩
  · exact ⟨rfl, trivial⟩
  · exact ⟨rfl, writer, rfl, within, written⟩

/-- **What the checker finds in an instruction** is found in its block, or is said of it. -/
theorem mem_checkInstruction
    (member : finding ∈ (checkInstruction extent scope place instruction).1) :
    finding ∈ (checkBody extent scope place instruction).1 ∨
      finding.Says extent scope place instruction := by
  cases instruction with
  | conditionalWrapStream condition prelude stream newStream transform arguments =>
    simp only [checkInstruction, List.mem_append] at member
    rcases member with ((reads | inner) | late) | write
    · exact .inr (says_of_reads reads)
    · exact .inl inner
    · exact .inr (says_of_lateReads late)
    · exact .inr (says_of_write rfl write)
  | loop target stop terminator output body =>
    simp only [checkInstruction, List.mem_append] at member
    rcases member with ((reads | rules) | write) | inner
    · exact .inr (says_of_reads reads)
    · split at rules
      · obtain rfl := List.mem_singleton.mp rules
        exact .inr ⟨rfl, trivial⟩
      · cases rules
    · exact .inr (says_of_write rfl write)
    · exact .inl inner
  | loopOutput output item =>
    simp only [checkInstruction, List.mem_append] at member
    rcases member with reads | membership
    · exact .inr (says_of_reads reads)
    · split at membership
      · cases membership
      · obtain rfl := List.mem_singleton.mp membership
        exact .inr ⟨rfl, trivial⟩
  | conditional target interior condition body =>
    simp only [checkInstruction, List.mem_append] at member
    rcases member with ((reads | inner) | kept) | write
    · exact .inr (says_of_reads reads)
    · exact .inl inner
    · split at kept
      · cases kept
      · obtain rfl := List.mem_singleton.mp kept
        exact .inr ⟨rfl, trivial⟩
    · exact .inr (says_of_write rfl write)
  | _ =>
    simp only [checkInstruction, List.mem_append] at member
    rcases member with reads | write
    · exact .inr (says_of_reads reads)
    · exact .inr (says_of_write rfl write)

/-! ### Findings and their places -/

/-- A place in the block of an instruction is beyond the place of the instruction. -/
theorem CheckPoint.path_into (scope : CheckScope) (extent : Extent) (place : Place)
    (instruction : Instruction) (index : Nat) (kind : String) : ∃ step : String × Nat × String,
      ((CheckPoint.into scope extent place instruction).placeOf index kind).path =
        place.path ++ [step] := by
  cases instruction <;> exact ⟨_, rfl⟩

theorem CheckPoint.prefix_of_into {index : Nat} {kind : String} {path : List (String × Nat × String)}
    (leads : ((CheckPoint.into scope extent place instruction).placeOf index kind).path <+: path) :
    place.path <+: path := by
  obtain ⟨step, same⟩ := CheckPoint.path_into scope extent place instruction index kind
  rw [same] at leads
  exact (List.prefix_append _ _).trans leads

theorem CheckPoint.not_prefix_into {index : Nat} {kind : String} :
    ¬((CheckPoint.into scope extent place instruction).placeOf index kind).path <+: place.path := by
  obtain ⟨step, same⟩ := CheckPoint.path_into scope extent place instruction index kind
  rw [same]
  intro leads
  have longer := leads.length_le
  rw [List.length_append] at longer
  exact Nat.not_succ_le_self _ longer

/-- A finding in an instruction is beyond its place, if those in its block are. -/
theorem prefix_of_mem {scope : CheckScope} {place : Place} {instruction : Instruction}
    (member : finding ∈ (checkInstruction extent scope place instruction).1)
    (inner : finding ∈ (checkBody extent scope place instruction).1 → ∃ index kind, 0 ≤ index ∧
      ((CheckPoint.into scope extent place instruction).placeOf index kind).path <+:
        finding.place.path) :
    place.path <+: finding.place.path := by
  rcases mem_checkInstruction member with body | tells
  · obtain ⟨index, kind, -, leads⟩ := inner body
    exact CheckPoint.prefix_of_into leads
  · exact tells.1 ▸ List.prefix_rfl

mutual

/-- What the checker finds in an instruction is at its place or beyond. -/
theorem prefix_of_mem_checkInstruction : ∀ (instruction : Instruction) (scope : CheckScope)
    (place : Place), finding ∈ (checkInstruction extent scope place instruction).1 →
      place.path <+: finding.place.path
  | .conditionalWrapStream _ prelude _ _ _ _, _, _, member =>
    prefix_of_mem member (prefix_of_mem_checkInstructions prelude _ _ 0)
  | .loop _ _ _ _ body, _, _, member =>
    prefix_of_mem member (prefix_of_mem_checkInstructions body _ _ 0)
  | .conditional _ _ _ body, _, _, member =>
    prefix_of_mem member (prefix_of_mem_checkInstructions body _ _ 0)
  | .eval .., _, _, member | .construct .., _, _, member | .constrict .., _, _, member
  | .wrapStream .., _, _, member | .decodeForeign .., _, _, member
  | .decodeReference .., _, _, member | .decodeEnumeration .., _, _, member
  | .decodePrimitive .., _, _, member | .decodeArray .., _, _, member
  | .loopOutput .., _, _, member => prefix_of_mem member fun nothing => absurd nothing List.not_mem_nil

/-- What the checker finds in a block is at the places of its instructions or beyond. -/
theorem prefix_of_mem_checkInstructions : ∀ (block : List Instruction) (scope : CheckScope)
    (placeOf : Nat → String → Place) (index : Nat),
      finding ∈ (checkInstructions extent scope placeOf index block).1 →
        ∃ other kind, index ≤ other ∧ (placeOf other kind).path <+: finding.place.path
  | [], _, _, _, member => absurd member List.not_mem_nil
  | instruction :: rest, scope, placeOf, index, member => by
    rcases List.mem_append.mp member with here | later
    · exact ⟨index, _, Nat.le_refl _, prefix_of_mem_checkInstruction instruction _ _ here⟩
    · obtain ⟨other, kind, after, leads⟩ :=
        prefix_of_mem_checkInstructions rest _ placeOf (index + 1) later
      exact ⟨other, kind, Nat.le_of_succ_le after, leads⟩

end

end Findings

/-! ### Points at which all findings are made -/

/-- A point at which all findings of what comes next are made: those at the places of the instructions
that are left, or beyond. -/
structure CheckPoint.Finds (extent : Extent) (all : List Finding) (point : CheckPoint) (index : Nat)
    (block : List Instruction) : Prop where
  lays : ∃ front name, Lays front name point.placeOf
  found : ∀ finding ∈ all, ∀ other kind, index ≤ other →
    (point.placeOf other kind).path <+: finding.place.path →
      finding ∈ (checkInstructions extent point.scope point.placeOf index block).1

namespace CheckPoint.Finds

variable {extent : Extent} {all : List Finding} {point : CheckPoint} {index : Nat}
  {instruction : Instruction} {rest : List Instruction} {finding : Finding}

/-- A finding that leads to the next instruction is made in it. -/
theorem here (finds : point.Finds extent all index (instruction :: rest)) (member : finding ∈ all)
    (leads : (point.place index instruction).path <+: finding.place.path) :
    finding ∈
      (checkInstruction extent point.scope (point.place index instruction) instruction).1 := by
  obtain ⟨front, name, lays⟩ := finds.lays
  rcases List.mem_append.mp (finds.found finding member _ _ (Nat.le_refl _) leads) with here | later
  · exact here
  · obtain ⟨other, kind, after, leads'⟩ := prefix_of_mem_checkInstructions rest _ _ _ later
    exact absurd (lays.unique leads leads') (Nat.ne_of_lt after)

/-- **Past an instruction** all findings of the others are made. -/
theorem past (finds : point.Finds extent all index (instruction :: rest)) :
    (point.past extent index instruction).Finds extent all (index + 1) rest := by
  refine ⟨finds.lays, fun finding member other kind after leads => ?_⟩
  obtain ⟨front, name, lays⟩ := finds.lays
  rcases List.mem_append.mp (finds.found finding member other kind (Nat.le_of_succ_le after) leads)
    with here | later
  · have leads' := prefix_of_mem_checkInstruction instruction _ _ here
    exact absurd (lays.unique leads' leads) (Nat.ne_of_lt after)
  · exact later

/-- **In the block** of an instruction all findings are made. -/
theorem into (finds : point.Finds extent all index (instruction :: rest)) :
    (CheckPoint.into point.scope extent (point.place index instruction) instruction).Finds extent all
      0 instruction.body := by
  refine ⟨?_, fun finding member other kind _ leads => ?_⟩
  · cases instruction <;> exact ⟨_, _, Lays.inside _ _⟩
  · rcases mem_checkInstruction (finds.here member (CheckPoint.prefix_of_into leads)) with body | tells
    · exact body
    · rw [tells.1] at leads
      exact absurd leads CheckPoint.not_prefix_into

/-- **A finding at the place of an instruction** is about this instruction. -/
theorem blamed (finds : point.Finds extent all index (instruction :: rest)) (member : finding ∈ all)
    (placed : finding.place = point.place index instruction) :
    instruction.Blamed extent point.scope (point.place index instruction) finding.problem := by
  have leads : (point.place index instruction).path <+: finding.place.path :=
    placed ▸ List.prefix_rfl
  rcases mem_checkInstruction (finds.here member leads) with body | tells
  · obtain ⟨other, kind, -, leads'⟩ := prefix_of_mem_checkInstructions _ _ _ _ body
    rw [placed] at leads'
    exact absurd leads' CheckPoint.not_prefix_into
  · exact tells.2

end CheckPoint.Finds

theorem place_of_mem_checkArguments {extent : Extent} {finding : Finding} :
    ∀ {registers : List Register} {scope : CheckScope},
      finding ∈ (checkArguments extent scope registers).1 → finding.place = .arguments
  | [], _, member => absurd member List.not_mem_nil
  | register :: registers, scope, member => by
    rcases List.mem_append.mp member with here | later
    · rcases eq_of_mem_checkWrite here with rfl | ⟨rfl, -⟩ <;> rfl
    · exact place_of_mem_checkArguments later

/-- **At the start of a program** all findings are made but those on its arguments, its fields and its
output, which are at no instruction. -/
theorem CheckPoint.Finds.start (extent : Extent) (program : Program) :
    (CheckPoint.start extent program).Finds extent (program.findings extent) 0
      program.instructions := by
  refine ⟨⟨_, _, Lays.program⟩, fun finding member other kind _ leads => ?_⟩
  have placed : finding.place.path ≠ [] := fun none => by
    rw [none] at leads
    exact absurd (List.prefix_nil.mp leads) (List.cons_ne_nil _ _)
  rcases List.mem_append.mp member with front | output
  · rcases List.mem_append.mp front with outside | body
    · rcases List.mem_append.mp outside with argument | field
      · rw [place_of_mem_checkArguments argument] at placed
        exact absurd rfl placed
      · obtain ⟨named, -, member⟩ := List.mem_flatMap.mp field
        rw [eq_of_mem_checkRange member] at placed
        exact absurd rfl placed
    · exact body
  · split at output
    · cases output
    · rw [List.mem_singleton.mp output] at placed
      exact absurd rfl placed

end WireProgram
