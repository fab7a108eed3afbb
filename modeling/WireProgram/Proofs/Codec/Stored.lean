/-
**Compressed members with stored blocks.**

A member is a header, a body of blocks and a trailer. The header may have an extra field, a file name, a
comment and a check of its own; a stored block holds its bytes as they are. The reader of members takes
such a member byte by byte and stops right after it, with the bytes of its blocks as output. So a view
that decodes the member gives those bytes, and its parent still has what follows the member; and if the
parent ends inside the member, the view fails. The main definitions and statements:

* `Gzip.Header`, `Gzip.Block` and `Gzip.StoredMember`, what such a member is written from;
* `Gzip.Member.Takes`, a reader that takes certain bytes whatever follows them;
* `Gzip.Header.takes`, `Gzip.Block.takes` and `Gzip.StoredMember.takes`, the parts and the whole;
* `Codec.readToEnd_stored`, a view that decodes such a member.
-/

import WireProgram.Proofs.Digits
import WireProgram.Proofs.Stream.Decoded

namespace WireProgram

namespace Gzip

/-! ### What a member is written from -/

/-- A header: its flags announce which of the optional parts it has. -/
structure Header where
  /-- A hint that the content is text. -/
  text : Bool
  /-- The time of the content, hints about its compression, and the system that it comes from. -/
  marks : Bytes
  extra : Option Bytes
  name : Option Bytes
  comment : Option Bytes
  /-- Whether there is a check of the header. -/
  check : Bool
  sixMarks : marks.length = 6
  extraShort : ∀ field ∈ extra, field.length ≤ 0xFFFF
  nameEnds : ∀ text ∈ name, 0 ∉ text
  commentEnds : ∀ text ∈ comment, 0 ∉ text

namespace Header

def flags (header : Header) : Flags :=
  ⟨header.extra.isSome, header.name.isSome, header.comment.isSome, header.check⟩

/-- The byte of the flags. -/
def flagByte (header : Header) : UInt8 :=
  UInt8.ofNat (header.text.toNat + 2 * header.check.toNat + 4 * header.extra.isSome.toNat +
    8 * header.name.isSome.toNat + 16 * header.comment.isSome.toNat)

/-- The bytes before the optional parts. -/
def fixed (header : Header) : Bytes :=
  [0x1F, 0x8B, 8, header.flagByte] ++ header.marks

/-- The extra field after its length. -/
def extraPart (header : Header) : Bytes :=
  header.extra.elim [] fun field => Bytes.ofLittleEndian 2 field.length ++ field

/-- A text that a zero ends. -/
def ended (text : Option Bytes) : Bytes :=
  text.elim [] fun text => text ++ [0]

/-- The bytes before the check. -/
def front (header : Header) : Bytes :=
  header.fixed ++ header.extraPart ++ ended header.name ++ ended header.comment

/-- The check has half the bits of a checksum. -/
def checkPart (header : Header) : Bytes :=
  if header.check then Bytes.ofLittleEndian 2 (checksum header.front) else []

def bytes (header : Header) : Bytes :=
  header.front ++ header.checkPart

end Header

/-- A stored block. -/
structure Block where
  /-- The bits between the head of the block and the next byte. -/
  filler : Fin 32
  content : Bytes
  short : content.length ≤ 0xFFFF

/-- The bytes of a stored block: its head, its length, the complement of that, and its content. -/
def Block.bytes (last : Bool) (block : Block) : Bytes :=
  [UInt8.ofNat (block.filler * 8 + last.toNat)] ++ Bytes.ofLittleEndian 2 block.content.length ++
    Bytes.ofLittleEndian 2 (0xFFFF - block.content.length) ++ block.content

/-- A member whose body is made of stored blocks; the last one is told by its head. -/
structure StoredMember where
  header : Header
  blocks : List Block
  final : Block

namespace StoredMember

/-- The bytes that are stored. -/
def payload (member : StoredMember) : Bytes :=
  member.blocks.flatMap Block.content ++ member.final.content

def body (member : StoredMember) : Bytes :=
  member.blocks.flatMap (Block.bytes false) ++ member.final.bytes true

/-- The check and the length of the content. -/
def trailer (member : StoredMember) : Bytes :=
  Bytes.ofLittleEndian 4 (checksum member.payload) ++ Bytes.ofLittleEndian 4 member.payload.length

def bytes (member : StoredMember) : Bytes :=
  member.header.bytes ++ member.body ++ member.trailer

end StoredMember

/-! ### Readers -/

namespace Member

variable {before middle after : Member} {first second : Bytes} {byte : UInt8}

/-- A reader takes certain bytes, whatever follows them. -/
def Takes (before : Member) (bytes : Bytes) (after : Member) : Prop :=
  ∀ rest, before.takeAll (bytes ++ rest) = after.takeAll rest

theorem Takes.nil (member : Member) : member.Takes [] member := fun _ => rfl

theorem Takes.append (one : before.Takes first middle) (two : middle.Takes second after) :
    before.Takes (first ++ second) after := by
  intro rest
  rw [List.append_assoc, one, two]

theorem Takes.of_byte (incomplete : before.isComplete = false)
    (taken : before.takeByte byte = .ok after) : before.Takes [byte] after := by
  intro rest
  rw [List.singleton_append, takeAll, incomplete, if_neg Bool.false_ne_true, taken]

theorem Takes.cons (incomplete : before.isComplete = false)
    (taken : before.takeByte byte = .ok middle) (rest : middle.Takes second after) :
    before.Takes (byte :: second) after :=
  (Takes.of_byte incomplete taken).append rest

/-! ### The header -/

/-- A reader that has read certain bytes of a header. -/
def inFront (read : Bytes) (stage : Stage) : Member where
  stage := stage
  headerCheck := read.foldl checkByte checkStart

theorem inHeader_inFront (read : Bytes) (here next : Stage) (byte : UInt8) :
    (inFront read here).inHeader byte next = inFront (read ++ [byte]) next := by
  unfold inFront inHeader
  rw [List.foldl_append, List.foldl_cons, List.foldl_nil]

/-- Whatever a byte of the header leads to, it is read. -/
theorem Takes.read {read : Bytes} {here next : Stage} {after : Member} (incomplete : here ≠ .complete)
    (taken : (inFront read here).takeByte byte = .ok ((inFront read here).inHeader byte next))
    (rest : (inFront (read ++ [byte]) next).Takes second after) :
    (inFront read here).Takes (byte :: second) after := by
  refine .cons ?_ (taken.trans (congrArg Except.ok (inHeader_inFront read here next byte))) rest
  cases here <;> first | rfl | exact absurd rfl incomplete

/-- The bytes of an extra field. -/
theorem takes_extra (flags : Flags) (byte : UInt8) (others read : Bytes) :
    (inFront read (.extra flags (others.length + 1))).Takes (byte :: others)
      (inFront (read ++ byte :: others) (.afterExtra flags)) := by
  induction others generalizing byte read with
  | nil => exact .read nofun rfl (.nil _)
  | cons next rest hypothesis =>
    have more : ¬rest.length + 1 + 1 ≤ 1 := by omega
    have taken : (inFront read (.extra flags (rest.length + 1 + 1))).takeByte byte =
        .ok ((inFront read (.extra flags (rest.length + 1 + 1))).inHeader byte
          (.extra flags (rest.length + 1))) :=
      congrArg (fun stage => Except.ok (Member.inHeader _ byte stage)) (if_neg more)
    have later := hypothesis next (read ++ [byte])
    rw [List.append_assoc] at later
    exact .read nofun taken later

/-- An extra field after its length, also an empty one. -/
theorem takes_field (flags : Flags) (field read : Bytes) :
    (inFront read (if field.length = 0 then .afterExtra flags else .extra flags field.length)).Takes
      field (inFront (read ++ field) (.afterExtra flags)) := by
  cases field with
  | nil =>
    rw [List.append_nil]
    exact .nil _
  | cons byte others =>
    rw [List.length_cons, if_neg (Nat.succ_ne_zero _)]
    exact takes_extra flags byte others read

/-- A text that a zero ends, in a stage that waits for the zero. -/
theorem takes_ended {here next : Stage} (incomplete : here ≠ .complete)
    (waits : ∀ read byte, (inFront read here).takeByte byte =
      .ok ((inFront read here).inHeader byte (if byte = 0 then next else here)))
    (text read : Bytes) (ends : 0 ∉ text) :
    (inFront read here).Takes (text ++ [0]) (inFront (read ++ (text ++ [0])) next) := by
  induction text generalizing read with
  | nil => exact .read incomplete (waits read 0) (.nil _)
  | cons byte others hypothesis =>
    obtain ⟨other, ends⟩ := not_or.mp (mt List.mem_cons.mpr ends)
    have taken := waits read byte
    rw [if_neg (Ne.symm other)] at taken
    have later := hypothesis (read ++ [byte]) ends
    rw [List.append_assoc] at later
    exact .read incomplete taken later

/-- A byte of the fixed part. -/
theorem takes_fixedByte {read : Bytes} {stage : Stage} (next : Stage.ofFixed (read ++ [byte]) = .ok stage)
    (rest : (inFront (read ++ [byte]) stage).Takes second after) :
    (inFront read (.fixed read)).Takes (byte :: second) after := by
  refine .read nofun ?_ rest
  unfold Member.takeByte inFront
  dsimp only
  rw [next]

/-- The two bytes with the length of an extra field. -/
theorem takes_extraLength (flags : Flags) (read : Bytes) (length : Nat) (short : length ≤ 0xFFFF) :
    (inFront read (.extraLength flags [])).Takes (Bytes.ofLittleEndian 2 length)
      (inFront (read ++ Bytes.ofLittleEndian 2 length)
        (if length = 0 then .afterExtra flags else .extra flags length)) := by
  obtain ⟨low, high, two⟩ : ∃ low high, Bytes.ofLittleEndian 2 length = [low, high] := ⟨_, _, rfl⟩
  have spelled : Bytes.littleEndian [low, high] = length := by
    rw [← two, Bytes.littleEndian_ofLittleEndian_two short]
  have first : (inFront read (.extraLength flags [])).takeByte low =
      .ok ((inFront read (.extraLength flags [])).inHeader low (.extraLength flags [low])) := rfl
  rw [two, ← spelled]
  refine .read nofun first (.read nofun rfl ?_)
  rw [List.append_assoc]
  exact .nil _

/-- The check of the header. -/
theorem takes_headerSum (read : Bytes) :
    (inFront read (.headerSum [])).Takes (Bytes.ofLittleEndian 2 (checksum read))
      (inFront read .body) := by
  obtain ⟨low, high, two⟩ : ∃ low high, Bytes.ofLittleEndian 2 (checksum read) = [low, high] :=
    ⟨_, _, rfl⟩
  have spelled : Bytes.littleEndian [low, high] = checksum read % Nat.pow 2 16 :=
    (congrArg Bytes.littleEndian two.symm).trans (Bytes.littleEndian_ofLittleEndian 2 _)
  rw [two]
  have taken : (inFront read (.headerSum [low])).takeByte high = .ok (inFront read .body) := by
    show (if Bytes.littleEndian [low, high] ≠ checksum read % Nat.pow 2 16 then
      Except.error Fault.headerSum else .ok (inFront read .body)) = _
    rw [if_neg (not_not_intro spelled)]
  have first : (inFront read (.headerSum [])).takeByte low = .ok (inFront read (.headerSum [low])) := rfl
  exact .cons rfl first (.cons rfl taken (.nil _))

end Member

namespace Header

variable (header : Header)

theorem flagByte_toNat : header.flagByte.toNat = header.text.toNat + 2 * header.check.toNat +
    4 * header.extra.isSome.toNat + 8 * header.name.isSome.toNat + 16 * header.comment.isSome.toNat := by
  unfold flagByte
  cases header.text <;> cases header.check <;> cases header.extra.isSome <;>
    cases header.name.isSome <;> cases header.comment.isSome <;> rfl

theorem ofByte_flagByte : Flags.ofByte header.flagByte = header.flags := by
  unfold Flags.ofByte flags
  rw [flagByte_toNat]
  cases header.text <;> cases header.check <;> cases header.extra.isSome <;>
    cases header.name.isSome <;> cases header.comment.isSome <;> rfl

theorem takes_fixed :
    ({} : Member).Takes header.fixed (Member.inFront header.fixed (.afterFixed header.flags)) := by
  have small : ¬32 ≤ header.flagByte.toNat := by
    rw [flagByte_toNat]
    cases header.text <;> cases header.check <;> cases header.extra.isSome <;>
      cases header.name.isSome <;> cases header.comment.isSome <;> decide
  obtain ⟨a, b, c, d, e, f, six⟩ : ∃ a b c d e f, header.marks = [a, b, c, d, e, f] := by
    match header.marks, header.sixMarks with
    | [a, b, c, d, e, f], _ => exact ⟨a, b, c, d, e, f, rfl⟩
  have known : Stage.ofFixed [0x1F, 0x8B, 8, header.flagByte] =
      .ok (.fixed [0x1F, 0x8B, 8, header.flagByte]) := by
    have four : ¬(([0x1F, 0x8B, 8, header.flagByte] : Bytes).length = 4 ∧
      32 ≤ (([0x1F, 0x8B, 8, header.flagByte] : Bytes).getD 3 0).toNat) := fun both => small both.2
    unfold Stage.ofFixed
    rw [if_neg four]
    rfl
  unfold fixed
  rw [six, ← ofByte_flagByte]
  exact Member.takes_fixedByte rfl <| Member.takes_fixedByte rfl <| Member.takes_fixedByte rfl <|
    Member.takes_fixedByte known <| Member.takes_fixedByte rfl <| Member.takes_fixedByte rfl <|
    Member.takes_fixedByte rfl <| Member.takes_fixedByte rfl <| Member.takes_fixedByte rfl <|
    Member.takes_fixedByte rfl <| .nil _

theorem takes_extraPart (read : Bytes) :
    (Member.inFront read (.afterFixed header.flags)).Takes header.extraPart
      (Member.inFront (read ++ header.extraPart) (.afterExtra header.flags)) := by
  unfold extraPart
  cases found : header.extra with
  | none =>
    have stage : Stage.afterFixed header.flags = .afterExtra header.flags := by
      unfold Stage.afterFixed flags
      rw [found]
      rfl
    rw [stage, Option.elim_none, List.append_nil]
    exact .nil _
  | some field =>
    have stage : Stage.afterFixed header.flags = .extraLength header.flags [] := by
      unfold Stage.afterFixed flags
      rw [found]
      rfl
    have length := Member.takes_extraLength header.flags read field.length
      (header.extraShort field found)
    rw [stage, Option.elim_some, ← List.append_assoc]
    exact length.append (Member.takes_field header.flags field _)

/-- A text of a header, if the flags announce it. -/
theorem takes_ended {text : Option Bytes} (here next : Stage) (incomplete : here ≠ .complete)
    (waits : ∀ read byte, (Member.inFront read here).takeByte byte =
      .ok ((Member.inFront read here).inHeader byte (if byte = 0 then next else here)))
    (ends : ∀ bytes ∈ text, 0 ∉ bytes) (read : Bytes) :
    (Member.inFront read (if text.isSome then here else next)).Takes (ended text)
      (Member.inFront (read ++ ended text) next) := by
  cases text with
  | none =>
    show (Member.inFront read next).Takes [] (Member.inFront (read ++ []) next)
    rw [List.append_nil]
    exact .nil _
  | some text => exact Member.takes_ended incomplete waits text read (ends text rfl)

theorem takes_checkPart :
    (Member.inFront header.front (.afterComment header.flags)).Takes header.checkPart
      (Member.inFront header.front .body) := by
  unfold checkPart Stage.afterComment flags
  cases header.check with
  | false => exact .nil _
  | true => exact Member.takes_headerSum header.front

/-- **A header** is taken up to the body. -/
theorem takes : ({} : Member).Takes header.bytes (Member.inFront header.front .body) := by
  have names := takes_ended (.name header.flags) (.afterName header.flags) nofun (fun _ _ => rfl)
    header.nameEnds (header.fixed ++ header.extraPart)
  have comments := takes_ended (.comment header.flags) (.afterComment header.flags) nofun
    (fun _ _ => rfl) header.commentEnds (header.fixed ++ header.extraPart ++ ended header.name)
  exact (((header.takes_fixed.append (header.takes_extraPart header.fixed)).append names).append
    comments).append header.takes_checkPart

end Header

/-! ### The body -/

namespace Member

variable {check : UInt32} {state next : Deflate.State} {byte : UInt8} {second : Bytes} {after : Member}

/-- A reader in the body of a member, or after it. -/
def inBody (check : UInt32) (state : Deflate.State) : Member where
  stage := if state.isDone then .trailer [] else .body
  headerCheck := check
  body := state

theorem takes_bodyByte (undone : state.isDone = false) (taken : state.takeByte byte = .ok next)
    (rest : (inBody check next).Takes second after) :
    (inBody check state).Takes (byte :: second) after := by
  have stage : inBody check state = ⟨.body, check, state⟩ := by
    unfold inBody
    rw [undone]
    rfl
  have goes : (inBody check state).takeByte byte = .ok (inBody check next) := by
    rw [stage]
    show takeBodyByte _ byte = _
    unfold takeBodyByte
    dsimp only
    rw [taken]
    rfl
  refine .cons ?_ goes rest
  rw [stage]
  rfl

end Member

namespace Block

/-- The head of a stored block. -/
theorem takeBits_head {value : Nat} (last : Bool) (output : Array UInt8) (first : value % 2 = last.toNat)
    (second : value / 2 % 2 = 0) (third : value / 2 / 2 % 2 = 0) :
    Deflate.State.takeBits ⟨.blockHeader {}, false, output⟩ 8 value =
      .ok ⟨.storedLengths [], last, output⟩ := by
  cases last <;> simp [Deflate.State.takeBits, Deflate.State.takeBit, Deflate.Phase.takesBytes,
    Deflate.Collected.push, Deflate.State.openBlock, first, second, third]

/-- Where a body stands before a block, after the last one, or inside: it has put out certain bytes. -/
def standing (phase : Deflate.Phase) (last : Bool) (output : Bytes) : Deflate.State :=
  ⟨phase, last, output.toArray⟩

/-- The bytes of a stored block. -/
theorem takes_content (check : UInt32) (last : Bool) (byte : UInt8) (others output : Bytes) :
    (Member.inBody check (standing (.stored (others.length + 1)) last output)).Takes (byte :: others)
      (Member.inBody check (standing (if last then .done else .blockHeader {}) last
        (output ++ byte :: others))) := by
  induction others generalizing byte output with
  | nil =>
    have taken : (standing (.stored 1) last output).takeByte byte =
        .ok (standing (if last then .done else .blockHeader {}) last (output ++ [byte])) := by
      show Except.ok (Deflate.State.endBlock ⟨_, _, output.toArray.push byte⟩) = _
      rw [List.push_toArray]
      rfl
    exact Member.takes_bodyByte rfl taken (.nil _)
  | cons next rest hypothesis =>
    have more : ¬rest.length + 1 + 1 ≤ 1 := by omega
    have taken : (standing (.stored (rest.length + 1 + 1)) last output).takeByte byte =
        .ok (standing (.stored (rest.length + 1)) last (output ++ [byte])) := by
      have pushed : output.toArray.push byte = (output ++ [byte]).toArray := List.push_toArray ..
      unfold standing Deflate.State.takeByte
      dsimp only
      rw [if_neg more, pushed]
      rfl
    have later := hypothesis next (output ++ [byte])
    rw [List.append_assoc] at later
    exact Member.takes_bodyByte rfl taken later

/-- The four bytes with the length of a stored block and the complement of it. -/
theorem takes_lengths (check : UInt32) (last : Bool) (output : Bytes) (block : Block) :
    (Member.inBody check (standing (.storedLengths []) last output)).Takes
      (Bytes.ofLittleEndian 2 block.content.length ++
        Bytes.ofLittleEndian 2 (0xFFFF - block.content.length))
      (Member.inBody check (standing (if block.content.length = 0 then
          (if last then .done else .blockHeader {}) else .stored block.content.length) last output)) := by
  have short := block.short
  obtain ⟨a, b, length⟩ : ∃ a b, Bytes.ofLittleEndian 2 block.content.length = [a, b] := ⟨_, _, rfl⟩
  obtain ⟨c, d, complement⟩ : ∃ c d,
      Bytes.ofLittleEndian 2 (0xFFFF - block.content.length) = [c, d] := ⟨_, _, rfl⟩
  have spelled : Bytes.littleEndian [a, b] = block.content.length := by
    rw [← length, Bytes.littleEndian_ofLittleEndian_two short]
  have spelled' : Bytes.littleEndian [c, d] = 0xFFFF - block.content.length := by
    rw [← complement, Bytes.littleEndian_ofLittleEndian_two (by omega)]
  have opened : (standing (.storedLengths [a, b, c]) last output).takeByte d =
      .ok (standing (if block.content.length = 0 then (if last then .done else .blockHeader {})
        else .stored block.content.length) last output) := by
    show (if Bytes.littleEndian [a, b] + Bytes.littleEndian [c, d] ≠ 0xFFFF then _
      else if Bytes.littleEndian [a, b] = 0 then Except.ok (Deflate.State.endBlock _)
      else .ok (standing (.stored (Bytes.littleEndian [a, b])) last output)) = _
    rw [spelled, spelled', if_neg (not_not_intro (by omega))]
    by_cases empty : block.content.length = 0
    · rw [if_pos empty, if_pos empty]
      rfl
    · rw [if_neg empty, if_neg empty]
  have early : ∀ (read : Bytes) (byte : UInt8), (read ++ [byte]).length < 4 →
      (standing (.storedLengths read) last output).takeByte byte =
        .ok (standing (.storedLengths (read ++ [byte])) last output) :=
    fun read byte fewer => if_pos fewer
  rw [length, complement]
  exact Member.takes_bodyByte rfl (early [] a (by simp)) <|
    Member.takes_bodyByte rfl (early [a] b (by simp)) <|
    Member.takes_bodyByte rfl (early [a, b] c (by simp)) <|
    Member.takes_bodyByte rfl opened (.nil _)

/-- **A stored block** puts out its content. -/
theorem takes (check : UInt32) (last : Bool) (output : Bytes) (block : Block) :
    (Member.inBody check (standing (.blockHeader {}) false output)).Takes (block.bytes last)
      (Member.inBody check (standing (if last then .done else .blockHeader {}) last
        (output ++ block.content))) := by
  have bit := last.toNat_lt
  have filler := block.filler.isLt
  have value : (UInt8.ofNat (block.filler * 8 + last.toNat)).toNat = block.filler * 8 + last.toNat :=
    UInt8.toNat_ofNat_of_lt' (show _ < 256 by omega)
  have opened : (standing (.blockHeader {}) false output).takeByte
      (UInt8.ofNat (block.filler * 8 + last.toNat)) = .ok (standing (.storedLengths []) last output) := by
    show Deflate.State.takeBits _ 8 (UInt8.ofNat _).toNat = _
    rw [value]
    exact takeBits_head last _ (by omega) (by omega) (by omega)
  have content : (Member.inBody check (standing (if block.content.length = 0 then
        (if last then .done else .blockHeader {}) else .stored block.content.length) last output)).Takes
      block.content (Member.inBody check (standing (if last then .done else .blockHeader {}) last
        (output ++ block.content))) := by
    cases block.content with
    | nil =>
      rw [List.append_nil]
      exact .nil _
    | cons byte others =>
      rw [List.length_cons, if_neg (Nat.succ_ne_zero _)]
      exact takes_content check last byte others output
  unfold bytes
  rw [List.append_assoc, List.append_assoc, ← List.append_assoc (Bytes.ofLittleEndian 2 _)]
  exact Member.takes_bodyByte rfl opened ((takes_lengths check last output block).append content)

end Block

namespace StoredMember

variable (member : StoredMember)

/-- The blocks before the last one. -/
theorem takes_blocks (check : UInt32) (blocks : List Block) (output : Bytes) :
    (Member.inBody check (Block.standing (.blockHeader {}) false output)).Takes
      (blocks.flatMap (Block.bytes false))
      (Member.inBody check (Block.standing (.blockHeader {}) false
        (output ++ blocks.flatMap Block.content))) := by
  induction blocks generalizing output with
  | nil =>
    rw [List.flatMap_nil, List.flatMap_nil, List.append_nil]
    exact .nil _
  | cons block blocks hypothesis =>
    rw [List.flatMap_cons, List.flatMap_cons, ← List.append_assoc]
    exact (Block.takes check false output block).append (hypothesis _)

theorem takes_body (check : UInt32) :
    (Member.inBody check {}).Takes member.body
      (Member.inBody check (Block.standing .done true member.payload)) :=
  (takes_blocks check member.blocks []).append (Block.takes check true _ member.final)

/-- A reader of the trailer. -/
def inTrailer (check : UInt32) (output read : Bytes) : Member :=
  ⟨.trailer read, check, Block.standing .done true output⟩

/-- The reader at the end. -/
def complete (check : UInt32) (output : Bytes) : Member :=
  ⟨.complete, check, Block.standing .done true output⟩

theorem takes_trailerByte {check : UInt32} {output read second : Bytes} {byte : UInt8} {stage : Stage}
    {after : Member} (next : Stage.ofTrailer output.toArray (read ++ [byte]) = .ok stage)
    (rest : (⟨stage, check, Block.standing .done true output⟩ : Member).Takes second after) :
    (inTrailer check output read).Takes (byte :: second) after := by
  refine .cons rfl ?_ rest
  unfold Member.takeByte inTrailer Block.standing
  dsimp only
  rw [next]

theorem takes_trailer (check : UInt32) :
    (inTrailer check member.payload []).Takes member.trailer (complete check member.payload) := by
  obtain ⟨a, b, c, d, sum⟩ : ∃ a b c d,
      Bytes.ofLittleEndian 4 (checksum member.payload) = [a, b, c, d] := ⟨_, _, _, _, rfl⟩
  obtain ⟨e, f, g, h, length⟩ : ∃ e f g h,
      Bytes.ofLittleEndian 4 member.payload.length = [e, f, g, h] := ⟨_, _, _, _, rfl⟩
  have spelled : Bytes.littleEndian [a, b, c, d] = checksum member.payload := by
    rw [← sum, Bytes.littleEndian_ofLittleEndian]
    exact Nat.mod_eq_of_lt (UInt32.toNat_lt _)
  have spelled' : Bytes.littleEndian [e, f, g, h] = member.payload.length % Nat.pow 2 32 :=
    (congrArg Bytes.littleEndian length.symm).trans (Bytes.littleEndian_ofLittleEndian 4 _)
  have checked : Stage.ofTrailer member.payload.toArray [a, b, c, d] = .ok (.trailer [a, b, c, d]) := by
    have right : ¬(([a, b, c, d] : Bytes).length = 4 ∧
      Bytes.littleEndian [a, b, c, d] ≠ checksum member.payload) := fun wrong => wrong.2 spelled
    exact (if_neg right).trans rfl
  have counted : Stage.ofTrailer member.payload.toArray [a, b, c, d, e, f, g, h] = .ok .complete := by
    show (if Bytes.littleEndian [e, f, g, h] ≠ member.payload.length % Nat.pow 2 32 then
      Except.error Fault.contentLength else .ok Stage.complete) = _
    rw [if_neg (not_not_intro spelled')]
  unfold trailer
  rw [sum, length]
  exact takes_trailerByte rfl <| takes_trailerByte rfl <| takes_trailerByte rfl <|
    takes_trailerByte checked <| takes_trailerByte rfl <| takes_trailerByte rfl <|
    takes_trailerByte rfl <| takes_trailerByte counted <| .nil _

/-- **A whole member** is taken, and its content is put out. -/
theorem takes : ({} : Member).Takes member.bytes
    (complete (member.header.front.foldl checkByte checkStart) member.payload) :=
  (member.header.takes.append (member.takes_body _)).append (member.takes_trailer _)

/-- What follows the member is left. -/
theorem takeAll_bytes (rest : Bytes) : ({} : Member).takeAll (member.bytes ++ rest) =
    .ok (complete (member.header.front.foldl checkByte checkStart) member.payload, rest) := by
  rw [member.takes rest]
  cases rest <;> rfl

/-- **Inside the member** the reader is not complete. -/
theorem takeAll_front {front : Bytes} (inside : front <+: member.bytes) (proper : front ≠ member.bytes) :
    ∃ next, ({} : Member).takeAll front = .ok (next, []) ∧ next.isComplete = false := by
  obtain ⟨others, same⟩ := inside
  have whole := member.takeAll_bytes []
  rw [List.append_nil, ← same, Member.takeAll_append] at whole
  rcases taken : ({} : Member).takeAll front with fault | ⟨next, rest⟩
  · rw [taken] at whole
    cases whole
  · rw [taken] at whole
    cases complete : next.isComplete with
    | true =>
      -- Bytes after a complete member are left, but of the whole member nothing is.
      dsimp only at whole
      rw [complete, if_pos rfl] at whole
      have none := (List.append_eq_nil_iff.mp (Prod.mk.inj (Except.ok.inj whole)).2).2
      rw [none, List.append_nil] at same
      exact absurd same proper
    | false =>
      obtain rfl := Member.takeAll_rest taken complete
      exact ⟨next, rfl, complete⟩

end StoredMember

end Gzip

/-! ### Views -/

namespace Codec

open ChunkCodec

variable {streams : Streams Codec} {parent : View}

/-- What the codec makes of a member and what follows it. -/
theorem denote_stored (member : Gzip.StoredMember) (rest : Bytes) :
    denote (Codec.gzip {} none) (member.bytes ++ rest) =
      .ok (member.payload, (member.bytes.length : Int)) := by
  have filled : (member.bytes ++ rest).isEmpty = false := rfl
  have used : ((member.bytes ++ rest).length : Int) - (rest.length : Int) = member.bytes.length := by
    rw [List.length_append]
    omega
  have output : (member.payload.toArray.extract 0 member.payload.toArray.size).toList =
      member.payload := by
    rw [Array.extract_size]
  unfold denote
  rw [filled, if_neg Bool.false_ne_true, feed_gzip, member.takeAll_bytes]
  dsimp only
  rw [used]
  exact (if_pos rfl).trans (congrArg (fun bytes => Except.ok (bytes, _)) output)

/-- What the codec makes of the bytes before the end of a member. -/
theorem denote_stored_front (member : Gzip.StoredMember) {front : Bytes}
    (inside : front <+: member.bytes) (proper : front ≠ member.bytes) :
    denote (Codec.gzip {} none) front = .error (.decode .truncatedMember) := by
  obtain ⟨next, taken, incomplete⟩ := member.takeAll_front inside proper
  have waits : (ChunkCodec.finish (Codec.gzip next none)).1 = .error (.decode .truncatedMember) := by
    show (if next.isComplete then Except.ok [] else Except.error _) = _
    rw [incomplete, if_neg Bool.false_ne_true]
  cases front with
  | nil => rfl
  | cons byte others =>
    have goesOn : ChunkCodec.finished (Codec.gzip next none) = false := incomplete
    unfold denote
    rw [List.isEmpty_cons, if_neg Bool.false_ne_true, feed_gzip, taken]
    dsimp only
    rw [goesOn, if_neg Bool.false_ne_true, waits]
    rfl

/-- **A view that decodes a member** gives the stored bytes, and its parent still has what follows the
member. If the parent ends inside the member, the view fails. The parent may come in any pieces and
through any region. -/
theorem readToEnd_stored (ready : parent.Ready streams)
    (fresh : streams.transforms.size ∉ parent.stages) (member : Gzip.StoredMember) :
    let opened := streams.openTransformed parent (.gzip {} none)
    (∀ rest, (parent.readToEnd.run streams).1 = .ok (member.bytes ++ rest) →
      ∃ after, opened.1.readToEnd.run opened.2 = (.ok member.payload, after) ∧
        (parent.readToEnd.run after).1 = .ok rest) ∧
    ∀ front, front <+: member.bytes → front ≠ member.bytes →
      (parent.readToEnd.run streams).1 = .ok front →
        ∃ cause : DecodeFault, (opened.1.readToEnd.run opened.2).1 = .error (.decode cause) ∧
          cause.family = .io ∧ cause.message = "gzip: compressed stream is truncated" := by
  intro opened
  have meets : Meets (Codec.gzip {} none) := divisible_meets trivial
  refine ⟨fun rest gives => ?_, fun front inside proper gives => ?_⟩
  · have decoded := View.readToEnd_denote ready fresh gives meets
    rw [denote_stored] at decoded
    dsimp only at decoded
    rwa [Int.toNat_natCast, List.drop_left] at decoded
  · have decoded := View.readToEnd_denote ready fresh gives meets
    rw [denote_stored_front member inside proper] at decoded
    exact ⟨.truncatedMember, decoded, rfl, rfl⟩

/-- A member with all optional parts and an empty block before its last one: it comes three bytes at a
time, in a region with two bytes after it, and once more without its last bytes. -/
theorem readToEnd_stored_of_allParts :
    let header : Gzip.Header := ⟨true, [0, 0, 0, 0, 0, 3], some [88, 89], some [97], some [], true,
      rfl, by rintro _ ⟨⟩; decide, by rintro _ ⟨⟩; decide, by rintro _ ⟨⟩; decide⟩
    let member : Gzip.StoredMember := ⟨header, [⟨5, [], by decide⟩], ⟨0, [65, 66], by decide⟩⟩
    let root := ({} : Streams Codec).openSource .blocking (Input.ofBytes 3 (member.bytes ++ [7, 8, 9]))
    let parent := root.2.openTake root.1 (member.bytes ++ [7, 8]).length
    let opened := parent.2.openTransformed parent.1 (.gzip {} none)
    let front := member.bytes.take 30
    let short := ({} : Streams Codec).openSource .blocking (Input.ofBytes 3 front)
    let broken := short.2.openTransformed short.1 (.gzip {} none)
    ((parent.1.readToEnd.run parent.2).1 = .ok (member.bytes ++ [7, 8]) ∧
      ∃ after, opened.1.readToEnd.run opened.2 = (.ok [65, 66], after) ∧
        (parent.1.readToEnd.run after).1 = .ok [7, 8]) ∧
    (front <+: member.bytes ∧ front ≠ member.bytes ∧
      (short.1.readToEnd.run short.2).1 = .ok front ∧
      ∃ cause : DecodeFault, (broken.1.readToEnd.run broken.2).1 = .error (.decode cause) ∧
        cause.family = .io ∧ cause.message = "gzip: compressed stream is truncated") := by
  intro header member root parent opened front short broken
  have ready : parent.1.Ready parent.2 := ⟨List.not_mem_nil, trivial⟩
  have readyShort : short.1.Ready short.2 := trivial
  have delivers := Input.ofBytes_delivers 3 (member.bytes ++ [7, 8, 9]) (by decide)
  have deliversShort := Input.ofBytes_delivers 3 front (by decide)
  have gives : (parent.1.readToEnd.run parent.2).1 = .ok (member.bytes ++ [7, 8]) :=
    View.readToEnd_yield ready ⟨rfl, (Source.opened_fair delivers).1⟩
      (eq_ok_of_toOption (by decide +kernel))
  have givesShort : (short.1.readToEnd.run short.2).1 = .ok front :=
    View.readToEnd_yield readyShort ⟨rfl, (Source.opened_fair deliversShort).1⟩
      (eq_ok_of_toOption (by decide +kernel))
  have inside : front <+: member.bytes := List.take_prefix ..
  have proper : front ≠ member.bytes := by decide +kernel
  exact ⟨⟨gives, (readToEnd_stored ready List.not_mem_nil member).1 [7, 8] gives⟩, inside, proper,
    givesShort, (readToEnd_stored readyShort List.not_mem_nil member).2 front inside proper givesShort⟩

end Codec

end WireProgram
