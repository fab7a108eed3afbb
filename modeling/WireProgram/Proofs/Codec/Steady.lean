/-
**Every codec pays for what it gives.**

Also the codecs that take an argument give no more than what they use and what they have in reserve, and
a codec that goes back in its input does not come to give anything. The main definitions and statements:

* `Codec.Steady`, what keeps the copies of a member within their bound, whatever the codec;
* `Codec.feed_paid` and `Codec.finish_paid`, what a codec gives and what is left in its reserve.
-/

import WireProgram.Proofs.Codec.Growth

namespace WireProgram.Codec

variable {codec : Codec} {given : Bytes}

/-- A codec whose next copy is within the limit. -/
def Steady : Codec → Prop
  | .gzip member _ => member.body.phase.Sane
  | _ => True

theorem Steady.of_sane (sane : codec.Sane) : codec.Steady := by
  cases codec with
  | gzip member refused => exact sane
  | _ => trivial

/-- No codec uses more bytes than it may give. -/
theorem le_gain (used : Nat) : used ≤ ChunkCodec.gain Codec * used :=
  Nat.le_mul_of_pos_left used (by decide)

theorem length_of_xorByte {key : Int} {bytes : Bytes}
    (same : given.mapM (xorByte key) = some bytes) : bytes.length = given.length := by
  induction given generalizing bytes with
  | nil =>
    cases same
    rfl
  | cons byte rest hypothesis =>
    rw [List.mapM_cons] at same
    obtain ⟨first, -, same⟩ := Option.bind_eq_some_iff.mp same
    obtain ⟨others, found, same⟩ := Option.bind_eq_some_iff.mp same
    cases same
    exact congrArg (· + 1) (hypothesis found)

/-- **A feed:** unless it goes back in the input, what comes out and what is then in reserve is paid for by
what was in reserve and by the bytes that it used. -/
theorem feed_paid (steady : codec.Steady) (nonempty : given ≠ []) :
    Ends (codec.feed given).1
      (fun result => (codec.feed given).2.Steady ∧ (0 ≤ result.2 →
        result.1.length + (codec.feed given).2.reserve ≤
          codec.reserve + ChunkCodec.gain Codec * result.2.toNat)) fun _ => True := by
  cases codec with
  | base64 pending =>
    have sane : (base64 pending).Sane := trivial
    refine (feed_bounded sane rfl nonempty).mono ?_ fun _ _ => trivial
    rintro result ⟨sane, used, same, -, -, paid⟩
    refine ⟨.of_sane sane, fun _ => ?_⟩
    rw [same, Int.toNat_natCast]
    exact paid
  | gzip member refused =>
    unfold feed feedGzip
    cases refused with
    | some fault => trivial
    | none =>
      dsimp only
      cases taken : member.takeAll given with
      | error fault => trivial
      | ok result =>
        obtain ⟨next, rest⟩ := result
        obtain ⟨used, total, more⟩ := (Gzip.Member.takeAll_grows steady given).ok taken
        dsimp only at total more
        refine ⟨more.sane, fun _ => ?_⟩
        have within := more.within
        have size : (next.body.output.extract member.body.output.size
            next.body.output.size).toList.length =
              next.body.output.size - member.body.output.size := by
          rw [Array.length_toList, Array.size_extract, Nat.min_self]
        have counted : ((given.length : Int) - (rest.length : Int)).toNat = used := by omega
        show List.length _ + 0 ≤ 0 + 8 * Deflate.copyLimit * Int.toNat _
        rw [size, counted]
        omega
  | xor key =>
    unfold feed
    dsimp only
    cases mapped : given.mapM (xorByte key) with
    | none => trivial
    | some bytes =>
      refine ⟨trivial, fun _ => ?_⟩
      show bytes.length + 0 ≤ 0 + ChunkCodec.gain Codec * Int.toNat given.length
      rw [length_of_xorByte mapped, Int.toNat_natCast, Nat.add_zero, Nat.zero_add]
      exact le_gain _
  | block left =>
    refine ⟨trivial, fun (forward : 0 ≤ min left given.length) => ?_⟩
    have taken : (given.take (if min left (given.length : Int) < 0 then
        given.length - (-min left (given.length : Int)).toNat
          else (min left (given.length : Int)).toNat)).length ≤
            (min left (given.length : Int)).toNat := by
      rw [if_neg (Int.not_lt.mpr forward)]
      exact List.length_take_le _ _
    show List.length _ + 1 ≤ 1 + ChunkCodec.gain Codec * Int.toNat _
    rw [Nat.add_comm]
    exact Nat.add_le_add_left (Nat.le_trans taken (le_gain _)) 1

/-- **The end** of the input of a codec. -/
theorem finish_paid (steady : codec.Steady) :
    Ends codec.finish.1 (fun bytes => codec.finish.2.Steady ∧ bytes.length ≤ codec.reserve)
      fun _ => True := by
  cases codec with
  | base64 pending =>
    have sane : (base64 pending).Sane := trivial
    exact (finish_bounded sane).mono (fun bytes within => ⟨trivial, within.1⟩) fun _ _ => trivial
  | gzip member refused =>
    have sane : (gzip member refused).Sane := steady
    exact (finish_bounded sane).mono (fun bytes within => ⟨within.2 ▸ steady, within.1⟩)
      fun _ _ => trivial
  | xor key => exact ⟨trivial, Nat.le_refl _⟩
  | block left => exact ⟨trivial, Nat.le_refl _⟩

end WireProgram.Codec
