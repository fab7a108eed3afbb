/-
**Codecs that make the same of a byte string however it is cut.**

A compressed member, a block and the exclusive or with a key go through their bytes one by one, so two
feeds do what one feed of both does. The main definitions and statements:

* `Gzip.Member.takeAll_append`, a member that takes two byte strings one after the other;
* `Codec.Divisible`, the states of those codecs, and `Codec.divisible_meets`: they keep the contract.
-/

import WireProgram.Proofs.Codec.Denotation
import WireProgram.Proofs.Codec.Growth

namespace WireProgram

/-! ### Members -/

namespace Gzip.Member

variable {member next : Member} {bytes rest : Bytes}

/-- Two byte strings one after the other: the second one is taken only if the member is not complete
after the first one. -/
theorem takeAll_append (member : Member) (first second : Bytes) :
    member.takeAll (first ++ second) =
      match member.takeAll first with
      | .error fault => .error fault
      | .ok (next, rest) =>
        if next.isComplete then .ok (next, rest ++ second) else next.takeAll second := by
  induction first generalizing member with
  | nil =>
    rw [List.nil_append]
    by_cases complete : member.isComplete = true
    · cases second with
      | nil => simp [takeAll, complete]
      | cons byte others => simp [takeAll, complete]
    · simp [takeAll, complete]
  | cons byte others hypothesis =>
    rw [List.cons_append, takeAll, takeAll]
    by_cases complete : member.isComplete = true
    · rw [if_pos complete, if_pos complete]
      simp only [complete, if_true, List.cons_append]
    · rw [if_neg complete, if_neg complete]
      cases member.takeByte byte with
      | error fault => rfl
      | ok next => exact hypothesis next

/-- A member that is not complete has taken all bytes. -/
theorem takeAll_rest (taken : member.takeAll bytes = .ok (next, rest))
    (incomplete : next.isComplete = false) : rest = [] := by
  induction bytes generalizing member with
  | nil =>
    cases taken
    rfl
  | cons byte others hypothesis =>
    rw [takeAll] at taken
    by_cases complete : member.isComplete = true
    · rw [if_pos complete] at taken
      cases taken
      rw [complete] at incomplete
      cases incomplete
    · rw [if_neg complete] at taken
      cases one : member.takeByte byte with
      | error fault =>
        rw [one] at taken
        cases taken
      | ok first =>
        rw [one] at taken
        exact hypothesis taken

end Gzip.Member

/-- What was added at the end of an array. -/
theorem toList_extract_added {front whole : Array UInt8} {added : Bytes}
    (same : whole.toList = front.toList ++ added) :
    (whole.extract front.size whole.size).toList = added := by
  have size : whole.size = front.size + added.length := by
    rw [← Array.length_toList, same, List.length_append, Array.length_toList]
  rw [Array.toList_extract, List.extract_eq_take_drop, same, size, ← Array.length_toList,
    List.drop_left, Nat.add_sub_cancel_left, List.take_length]

/-- What is added in two steps is added in one. -/
theorem extract_append {before middle after : Array UInt8} (first : before.toList <+: middle.toList)
    (second : middle.toList <+: after.toList) :
    (after.extract before.size after.size).toList =
      (middle.extract before.size middle.size).toList ++
        (after.extract middle.size after.size).toList := by
  obtain ⟨more, one⟩ := first
  obtain ⟨others, two⟩ := second
  have all : after.toList = before.toList ++ (more ++ others) := by
    rw [← two, ← one, List.append_assoc]
  rw [toList_extract_added all, toList_extract_added one.symm, toList_extract_added two.symm]

namespace Codec

open ChunkCodec

variable {codec next : Codec}

/-- The states of the codecs that take their bytes one by one. A block has a natural length. -/
def Divisible : Codec → Prop
  | .base64 _ => False
  | .gzip member _ => member.body.phase.Sane
  | .xor _ => True
  | .block left => 0 ≤ left

theorem feed_gzip (member : Gzip.Member) (given : Bytes) :
    ChunkCodec.feed (Codec.gzip member none) given =
      match member.takeAll given with
      | .error fault => (.error (.decode (.malformedGzip fault)), .gzip {} (some fault))
      | .ok (next, rest) =>
        (.ok ((next.body.output.extract member.body.output.size next.body.output.size).toList,
          (given.length : Int) - (rest.length : Int)), .gzip next none) := rfl

theorem gzip_uses {member : Gzip.Member} (sane : member.body.phase.Sane)
    (refused : Option Gzip.Fault) : Uses (Codec.gzip member refused) := by
  intro given out used next _ gave
  cases refused with
  | some fault => cases gave
  | none =>
    rw [feed_gzip] at gave
    cases taken : member.takeAll given with
    | error fault =>
      rw [taken] at gave
      cases gave
    | ok result =>
      obtain ⟨after, rest⟩ := result
      obtain ⟨count, total, -⟩ := (Gzip.Member.takeAll_grows sane given).ok taken
      rw [taken] at gave
      cases gave
      dsimp only at total
      refine ⟨by omega, fun wants => ?_⟩
      rw [Gzip.Member.takeAll_rest taken wants, List.length_nil]
      omega

theorem gzip_divides {member : Gzip.Member} (sane : member.body.phase.Sane)
    (refused : Option Gzip.Fault) : Divides (Codec.gzip member refused) := by
  intro first second _ _
  cases refused with
  | some fault => exact ⟨rfl, fun wrong => by cases wrong⟩
  | none =>
    unfold feedTwice
    rw [feed_gzip, feed_gzip, Gzip.Member.takeAll_append]
    cases taken : member.takeAll first with
    | error fault => exact ⟨rfl, fun wrong => by cases wrong⟩
    | ok result =>
      obtain ⟨middle, rest⟩ := result
      obtain ⟨_, _, grown⟩ := (Gzip.Member.takeAll_grows sane first).ok taken
      dsimp only
      cases complete : middle.isComplete with
      | true =>
        have done : ChunkCodec.finished (Codec.gzip middle none) = true := complete
        simp only [done, if_true]
        refine ⟨?_, fun _ => ⟨rfl, fun _ => rfl⟩⟩
        have used : ((first ++ second).length : Int) - ((rest ++ second).length : Int) =
            (first.length : Int) - (rest.length : Int) := by
          rw [List.length_append, List.length_append]
          omega
        rw [used]
      | false =>
        have wants : ChunkCodec.finished (Codec.gzip middle none) = false := complete
        have all := Gzip.Member.takeAll_rest taken complete
        simp only [wants, Bool.false_eq_true, if_false]
        rw [feed_gzip]
        cases again : middle.takeAll second with
        | error fault => exact ⟨rfl, fun wrong => by cases wrong⟩
        | ok result =>
          obtain ⟨last, others⟩ := result
          obtain ⟨_, _, more⟩ := (Gzip.Member.takeAll_grows grown.sane second).ok again
          refine ⟨?_, fun _ => ⟨rfl, fun _ => rfl⟩⟩
          have used : ((first ++ second).length : Int) - (others.length : Int) =
              (first.length : Int) - (rest.length : Int) +
                ((second.length : Int) - (others.length : Int)) := by
            rw [List.length_append, all, List.length_nil]
            omega
          dsimp only
          rw [used, extract_append grown.front more.front]
          rfl

theorem feed_xor (key : Int) (given : Bytes) :
    ChunkCodec.feed (Codec.xor key) given =
      match given.mapM (xorByte key) with
      | some bytes => (.ok (bytes, (given.length : Int)), .xor key)
      | none => (.error (.misuse .wrongValue), .xor key) := rfl

theorem xor_divides (key : Int) : Uses (Codec.xor key) ∧ Divides (Codec.xor key) := by
  refine ⟨?_, ?_⟩
  · intro given out used next _ gave
    rw [feed_xor] at gave
    cases mapped : given.mapM (xorByte key) with
    | none =>
      rw [mapped] at gave
      cases gave
    | some bytes =>
      rw [mapped] at gave
      cases gave
      exact ⟨⟨Int.natCast_nonneg _, Int.le_refl _⟩, fun _ => rfl⟩
  · intro first second _ _
    unfold feedTwice
    rw [feed_xor, feed_xor, List.mapM_append]
    cases first.mapM (xorByte key) with
    | none => exact ⟨rfl, fun wrong => by cases wrong⟩
    | some bytes =>
      show Agrees _ (let again := ChunkCodec.feed (Codec.xor key) second
        (again.1.map fun result => (bytes ++ result.1, (first.length : Int) + result.2), again.2))
      rw [feed_xor]
      cases second.mapM (xorByte key) with
      | none => exact ⟨rfl, fun wrong => by cases wrong⟩
      | some more =>
        refine ⟨?_, fun _ => ⟨rfl, fun _ => rfl⟩⟩
        show Except.ok (bytes ++ more, ((first ++ second).length : Int)) = _
        rw [List.length_append, Int.natCast_add]
        rfl

theorem feed_block (size : Nat) (given : Bytes) :
    ChunkCodec.feed (Codec.block size) given =
      (.ok (given.take size, ((min size given.length : Nat) : Int)),
        .block ((size - min size given.length : Nat) : Int)) := by
  show feedBlock _ _ = _
  unfold feedBlock
  have used : min (size : Int) (given.length : Int) = ((min size given.length : Nat) : Int) := by
    omega
  have left : (size : Int) - ((min size given.length : Nat) : Int) =
      ((size - min size given.length : Nat) : Int) := by omega
  dsimp only
  rw [used, left, if_neg (by omega), Int.toNat_natCast, ← List.take_eq_take_min]

theorem block_divides {left : Int} (natural : 0 ≤ left) :
    Uses (Codec.block left) ∧ Divides (Codec.block left) := by
  obtain ⟨size, rfl⟩ := Int.eq_ofNat_of_zero_le natural
  refine ⟨?_, ?_⟩
  · intro given out used next _ gave
    rw [feed_block] at gave
    cases gave
    refine ⟨by omega, fun wants => ?_⟩
    have more : ¬((size - min size given.length : Nat) : Int) = 0 := of_decide_eq_false wants
    omega
  · intro first second _ _
    unfold feedTwice
    rw [feed_block, feed_block]
    by_cases full : size ≤ first.length
    · have done : ((size - min size first.length : Nat) : Int) = 0 := by omega
      have same : min size (first ++ second).length = min size first.length := by
        rw [List.length_append]
        omega
      rw [same, List.take_append_of_le_length full]
      dsimp only
      rw [if_pos (show ChunkCodec.finished (Codec.block _) = true from decide_eq_true done)]
      exact ⟨rfl, fun _ => ⟨rfl, fun _ => rfl⟩⟩
    · have wants : ¬((size - min size first.length : Nat) : Int) = 0 := by omega
      have left : size - min size first.length = size - first.length := by omega
      have total : min size (first ++ second).length =
          min size first.length + min (size - first.length) second.length := by
        rw [List.length_append]
        omega
      dsimp only
      rw [if_neg (show ¬ChunkCodec.finished (Codec.block _) = true by
        exact fun wrong => wants (of_decide_eq_true wrong)), left, feed_block, total,
        List.take_append, Int.natCast_add, Nat.sub_add_eq, left]
      exact ⟨rfl, fun _ => ⟨rfl, fun _ => rfl⟩⟩

/-- A codec stays divisible while it is fed. -/
theorem Divisible.goes (divisible : codec.Divisible) (goes : Goes codec next) : next.Divisible := by
  obtain ⟨given, out, used, nonempty, gave, wants⟩ := goes
  cases codec with
  | base64 pending => exact divisible.elim
  | gzip member refused =>
    cases refused with
    | some fault => cases gave
    | none =>
      rw [feed_gzip] at gave
      cases taken : member.takeAll given with
      | error fault =>
        rw [taken] at gave
        cases gave
      | ok result =>
        obtain ⟨_, _, grown⟩ := (Gzip.Member.takeAll_grows divisible given).ok taken
        rw [taken] at gave
        cases gave
        exact grown.sane
  | xor key =>
    unfold ChunkCodec.feed instChunkCodec feed at gave
    dsimp only at gave
    split at gave <;> cases gave
    trivial
  | block left =>
    obtain ⟨size, rfl⟩ := Int.eq_ofNat_of_zero_le divisible
    rw [feed_block] at gave
    cases gave
    exact Int.natCast_nonneg _

/-- **The codecs that take their bytes one by one keep the contract.** -/
theorem divisible_meets (divisible : codec.Divisible) : Meets codec := by
  intro state comes
  have still : state.Divisible := by
    induction comes with
    | refl => exact divisible
    | tail _ goes hypothesis => exact hypothesis.goes goes
  cases state with
  | base64 pending => exact still.elim
  | gzip member refused => exact ⟨gzip_uses still refused, gzip_divides still refused⟩
  | xor key => exact xor_divides key
  | block left => exact block_divides still

end Codec

end WireProgram
