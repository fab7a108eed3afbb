/-
**How much a codec gives for what it takes.**

Every bit of a compressed body completes at most one copy, and a copy has at most 258 bytes; every
character of a text completes at most one byte. So a codec that is not finished uses up some of the
bytes that it is fed, and what it gives is bounded by what it used. The main definitions and
statements:

* `Deflate.Phase.Sane`, what keeps the length of a copy below its bound;
* `Deflate.State.takeByte_grows` and `Gzip.Member.takeAll_grows`, a compressed body and a member;
* `Base64.decode_length`, a text;
* `Codec.feed_bounded` and `Codec.finish_bounded`, the codecs of the built-in transforms.
-/

import WireProgram.Codec
import WireProgram.Proofs.Outcome

namespace WireProgram

/-! ### Compressed bodies -/

namespace Deflate

/-- The greatest length of a copy. -/
def copyLimit : Nat := 258

/-- What is known of the length of the next copy: it is within the limit, whatever the bits to come
add to it. -/
def Phase.Sane : Phase → Prop
  | .lengthExtra _ base extra bits =>
    base + Nat.pow 2 extra ≤ copyLimit + 1 ∧ bits.count < extra ∧
      bits.value < Nat.pow 2 bits.count
  | .distance _ length _ => length ≤ copyLimit
  | .distanceExtra _ length _ _ _ => length ≤ copyLimit
  | _ => True

/-- A transition that adds at most so many bytes to the output, and takes none back. -/
structure State.Grows (bound : Nat) (before after : State) : Prop where
  sane : after.phase.Sane
  front : before.output.toList <+: after.output.toList
  within : after.output.size ≤ before.output.size + bound

namespace State

variable {state before middle after : State} {bound more : Nat} {codes : Codes}

theorem Grows.of_same (sane : after.phase.Sane) (same : after.output = before.output) :
    Grows bound before after := by
  exact ⟨sane, same ▸ List.prefix_rfl, same ▸ Nat.le_add_right _ _⟩

theorem Grows.trans (first : Grows bound before middle) (second : Grows more middle after) :
    Grows (bound + more) before after := by
  have one := first.within
  have two := second.within
  exact ⟨second.sane, first.front.trans second.front, by omega⟩

theorem Grows.mono (grows : Grows bound before after) (within : bound ≤ more) :
    Grows more before after :=
  ⟨grows.sane, grows.front, Nat.le_trans grows.within (Nat.add_le_add_left within _)⟩

theorem endBlock_sane (state : State) : state.endBlock.phase.Sane := by
  unfold endBlock
  dsimp only
  split <;> trivial

theorem size_copyBack (distance length : Nat) (output : Array UInt8) :
    (copyBack distance length output).size = output.size + length := by
  induction length generalizing output with
  | zero => rfl
  | succ length hypothesis =>
    rw [copyBack, hypothesis, Array.size_push]
    omega

theorem copyBack_front (distance length : Nat) (output : Array UInt8) :
    output.toList <+: (copyBack distance length output).toList := by
  induction length generalizing output with
  | zero => exact List.prefix_rfl
  | succ length hypothesis =>
    refine List.IsPrefix.trans ?_ (hypothesis _)
    rw [Array.toList_push]
    exact List.prefix_append _ _

theorem copy_grows {length : Nat} (within : length ≤ copyLimit) (distance : Nat) :
    Ends (state.copy codes length distance) (Grows copyLimit state) fun _ => True := by
  unfold copy
  split
  · trivial
  · have size := size_copyBack distance length state.output
    refine ⟨trivial, copyBack_front distance length state.output, ?_⟩
    · show (copyBack distance length state.output).size ≤ _
      omega

theorem openBlock_grows (value : Nat) :
    Ends (state.openBlock value) (Grows bound state) fun _ => True := by
  unfold openBlock
  generalize fixedCodes = codes
  split
  · exact .of_same trivial rfl
  · exact .of_same trivial rfl
  · exact .of_same trivial rfl
  · trivial

theorem openTables_grows (value : Nat) :
    Ends (state.openTables value) (Grows bound state) fun _ => True := by
  unfold openTables
  dsimp only
  split
  · trivial
  · exact .of_same trivial rfl

theorem openLengths_grows {sizes : TableSizes} {found : List Nat}
    (opened : state.openLengths sizes found = .ok after) : Grows bound state after := by
  unfold openLengths at opened
  generalize PrefixCode.ofLengths (orderedLengths found) = code at opened
  dsimp only at opened
  split at opened
  · cases opened
    exact .of_same trivial rfl
  · cases opened

theorem moreLengths_grows (sizes : TableSizes) (code : PrefixCode) (found : List Nat) :
    Ends (state.moreLengths sizes code found) (Grows bound state) fun _ => True := by
  unfold moreLengths
  split
  · exact .of_same trivial rfl
  · unfold openCodes
    dsimp only
    split
    · trivial
    · split
      · trivial
      · split
        · trivial
        · exact .of_same trivial rfl

theorem repeatLength_grows (sizes : TableSizes) (code : PrefixCode) (found : List Nat)
    (symbol extra : Nat) :
    Ends (state.repeatLength sizes code found symbol extra) (Grows bound state)
      fun _ => True := by
  unfold repeatLength
  dsimp only
  split
  · trivial
  · split
    · trivial
    · exact moreLengths_grows _ _ _

theorem lengthSymbol_grows (sizes : TableSizes) (code : PrefixCode) (found : List Nat)
    (symbol : Nat) :
    Ends (state.lengthSymbol sizes code found symbol) (Grows bound state) fun _ => True := by
  unfold lengthSymbol
  split
  · exact moreLengths_grows _ _ _
  · exact .of_same trivial rfl

/-- No entry of the table of lengths comes to more than the limit. -/
theorem lengthTable_within :
    ∀ entry ∈ lengthTable, entry.1 + Nat.pow 2 entry.2 ≤ copyLimit + 1 := by
  decide

theorem blockSymbol_grows (symbol : Nat) :
    Ends (state.blockSymbol codes symbol) (Grows copyLimit state) fun _ => True := by
  unfold blockSymbol
  split
  · have size : (state.output.push (UInt8.ofNat symbol)).size = state.output.size + 1 :=
      Array.size_push _
    refine ⟨trivial, ?_, ?_⟩
    · show _ <+: (state.output.push (UInt8.ofNat symbol)).toList
      rw [Array.toList_push]
      exact List.prefix_append _ _
    · show (state.output.push (UInt8.ofNat symbol)).size ≤ _
      rw [size]
      exact Nat.add_le_add_left (by decide) _
  · split
    · exact .of_same state.endBlock_sane rfl
    · split
      · trivial
      · rename_i base found
        have within := lengthTable_within _ (Array.mem_of_getElem? found)
        exact .of_same (Nat.le_of_succ_le_succ within) rfl
      · rename_i base extra positive found
        have within := lengthTable_within _ (Array.mem_of_getElem? found)
        refine .of_same ⟨within, ?_, Nat.one_pos⟩ rfl
        exact Nat.pos_of_ne_zero fun none => positive none

theorem distanceSymbol_grows {length : Nat} (within : length ≤ copyLimit) (symbol : Nat) :
    Ends (state.distanceSymbol codes length symbol) (Grows copyLimit state) fun _ => True := by
  unfold distanceSymbol
  split
  · trivial
  · exact copy_grows within _
  · exact .of_same within rfl

theorem push_value_lt {bits : Collected} {bit : Nat} (small : bit < 2)
    (below : bits.value < Nat.pow 2 bits.count) :
    (bits.push bit).value < Nat.pow 2 (bits.push bit).count := by
  have scaled : bit * Nat.pow 2 bits.count ≤ 1 * Nat.pow 2 bits.count :=
    Nat.mul_le_mul_right _ (Nat.le_of_lt_succ small)
  have doubled : Nat.pow 2 (bits.count + 1) = Nat.pow 2 bits.count * 2 := rfl
  show bits.value + bit * Nat.pow 2 bits.count < Nat.pow 2 (bits.count + 1)
  omega

/-- **One bit** completes at most one copy. -/
theorem takeBit_grows (sane : state.phase.Sane) {bit : Nat} (small : bit < 2) :
    Ends (state.takeBit bit) (Grows copyLimit state) fun _ => True := by
  unfold takeBit
  cases phase : state.phase with
  | blockHeader bits =>
    dsimp only
    split
    · exact .of_same trivial rfl
    · exact openBlock_grows _
  | tableSizes bits =>
    dsimp only
    split
    · exact .of_same trivial rfl
    · exact openTables_grows _
  | codeLengths sizes found bits =>
    dsimp only
    split
    · exact .of_same trivial rfl
    · split
      · exact .of_same trivial rfl
      · cases opened : state.openLengths sizes ((bits.push bit).value :: found) with
        | ok after => exact openLengths_grows opened
        | error fault => trivial
  | lengths sizes code found walk =>
    dsimp only
    split
    · exact lengthSymbol_grows _ _ _ _
    · split
      · exact lengthSymbol_grows _ _ _ _
      · exact .of_same trivial rfl
      · trivial
  | repetition sizes code found symbol bits =>
    dsimp only
    split
    · exact .of_same trivial rfl
    · exact repeatLength_grows _ _ _ _ _
  | symbol codes walk =>
    dsimp only
    split
    · exact blockSymbol_grows _
    · exact .of_same trivial rfl
    · trivial
  | lengthExtra codes base extra bits =>
    rw [phase] at sane
    obtain ⟨within, collecting, below⟩ := sane
    have pushed := push_value_lt small below
    dsimp only
    split
    · rename_i more
      exact .of_same ⟨within, more, pushed⟩ rfl
    · rename_i full
      have last : (bits.push bit).count = extra := by
        have count : (bits.push bit).count = bits.count + 1 := rfl
        omega
      rw [last] at pushed
      refine .of_same ?_ rfl
      show base + (bits.push bit).value ≤ copyLimit
      omega
  | distance codes length walk =>
    rw [phase] at sane
    dsimp only
    split
    · exact distanceSymbol_grows sane _
    · exact .of_same sane rfl
    · trivial
  | distanceExtra codes length base extra bits =>
    rw [phase] at sane
    dsimp only
    split
    · exact .of_same sane rfl
    · exact copy_grows sane _
  | storedLengths read =>
    refine .of_same ?_ rfl
    rw [phase]
    trivial
  | stored left =>
    refine .of_same ?_ rfl
    rw [phase]
    trivial
  | done =>
    refine .of_same ?_ rfl
    rw [phase]
    trivial

theorem takeBits_grows (sane : state.phase.Sane) (count value : Nat) :
    Ends (state.takeBits count value) (Grows (copyLimit * count) state) fun _ => True := by
  induction count generalizing state value with
  | zero => exact .of_same sane rfl
  | succ count hypothesis =>
    unfold takeBits
    split
    · exact .of_same sane rfl
    · have one := takeBit_grows sane (Nat.mod_lt value Nat.two_pos)
      split
      · rename_i next same
        have grows := one.ok same
        refine (hypothesis grows.sane (value / 2)).mono (fun after more => ?_) fun _ _ => trivial
        exact (grows.trans more).mono (by rw [Nat.mul_succ]; omega)
      · trivial

/-- **One byte** completes at most eight copies. -/
theorem takeByte_grows (sane : state.phase.Sane) (byte : UInt8) :
    Ends (state.takeByte byte) (Grows (8 * copyLimit) state) fun _ => True := by
  have pushed : ∀ after : State, after.phase.Sane → after.output = state.output.push byte →
      Grows (8 * copyLimit) state after := by
    intro after sane same
    have size : after.output.size = state.output.size + 1 := by rw [same, Array.size_push]
    refine ⟨sane, ?_, ?_⟩
    · rw [same, Array.toList_push]
      exact List.prefix_append _ _
    · rw [size]
      exact Nat.add_le_add_left (by decide) _
  have eight := takeBits_grows sane 8 byte.toNat
  rw [Nat.mul_comm] at eight
  unfold takeByte
  split
  · rename_i read _
    dsimp only
    split
    · exact .of_same trivial rfl
    · unfold openStored
      dsimp only
      split
      · trivial
      · split
        · exact .of_same state.endBlock_sane rfl
        · exact .of_same trivial rfl
  · dsimp only
    split
    · exact pushed _ (endBlock_sane _) rfl
    · exact pushed _ trivial rfl
  · exact .of_same sane rfl
  · exact eight

end State

end Deflate

/-! ### Members -/

namespace Gzip.Member

open Deflate

variable {member : Member}

/-- **One byte** of a member adds to the content what it adds as a byte of the body. -/
theorem takeByte_grows (sane : member.body.phase.Sane) (byte : UInt8) :
    Ends (member.takeByte byte)
      (fun next => State.Grows (8 * copyLimit) member.body next.body) fun _ => True := by
  have same : State.Grows (8 * copyLimit) member.body member.body := .of_same sane rfl
  unfold takeByte
  split
  · split
    · exact same
    · trivial
  · dsimp only
    split
    · exact same
    · exact same
  · exact same
  · exact same
  · exact same
  · dsimp only
    split
    · exact same
    · split
      · trivial
      · exact same
  · unfold takeBodyByte
    have grows := State.takeByte_grows sane byte
    dsimp only
    split
    · trivial
    · rename_i next taken
      exact grows.ok taken
  · split
    · exact same
    · trivial
  · exact same

/-- **So many bytes** of a member add at most as much as each of them. -/
theorem takeAll_grows (sane : member.body.phase.Sane) (bytes : Bytes) :
    Ends (member.takeAll bytes)
      (fun result => ∃ used, used + result.2.length = bytes.length ∧
        State.Grows (8 * copyLimit * used) member.body result.1.body) fun _ => True := by
  induction bytes generalizing member with
  | nil => exact ⟨0, rfl, .of_same sane rfl⟩
  | cons byte rest hypothesis =>
    unfold takeAll
    split
    · exact ⟨0, Nat.zero_add _, .of_same sane rfl⟩
    · have one := takeByte_grows sane byte
      split
      · rename_i next taken
        have grows := one.ok taken
        refine (hypothesis grows.sane).mono ?_ fun _ _ => trivial
        rintro result ⟨used, same, more⟩
        refine ⟨used + 1, ?_, (grows.trans more).mono ?_⟩
        · rw [List.length_cons, ← same]
          omega
        · rw [Nat.mul_succ]
          omega
      · trivial

/-- A member that is not complete takes the first byte that it is given. -/
theorem takeAll_takes {next : Member} {bytes rest : Bytes} (sane : member.body.phase.Sane)
    (incomplete : member.isComplete = false) (nonempty : bytes ≠ [])
    (taken : member.takeAll bytes = .ok (next, rest)) : rest.length < bytes.length := by
  cases bytes with
  | nil => exact absurd rfl nonempty
  | cons byte others =>
    unfold takeAll at taken
    rw [incomplete, if_neg Bool.false_ne_true] at taken
    split at taken
    · rename_i first same
      have grows := (takeByte_grows sane byte).ok same
      obtain ⟨used, total, -⟩ := (takeAll_grows grows.sane others).ok taken
      dsimp only at total
      rw [List.length_cons]
      omega
    · cases taken

end Gzip.Member

/-! ### Text -/

namespace Base64

theorem length_join (place carry digit : Nat) : (join place carry digit).1.length ≤ 1 := by
  unfold join
  split
  · exact Nat.zero_le _
  · split
    · exact Nat.le_refl _
    · split
      · exact Nat.le_refl _
      · exact Nat.le_refl _

theorem length_read {progress : Progress} {text bytes : Bytes}
    (same : read progress text = .ok bytes) : bytes.length ≤ text.length := by
  induction text generalizing progress bytes with
  | nil =>
    unfold read at same
    split at same
    · cases same
      exact Nat.le_refl _
    · split at same <;> cases same
  | cons next rest hypothesis =>
    unfold read at same
    split at same
    · split at same
      · split at same
        · split at same
          · cases same
            exact Nat.zero_le _
          · cases same
        · exact Nat.le_succ_of_le (hypothesis same)
      · exact Nat.le_succ_of_le (hypothesis same)
    · split at same
      · cases same
      · split at same
        · cases same
        · rename_i digit _ _
          dsimp only at same
          split at same
          · rename_i others found
            cases same
            have one := length_join progress.place progress.carry digit
            have more := hypothesis found
            rw [List.length_append, List.length_cons]
            omega
          · cases same

/-- A text gives no more bytes than it has characters. -/
theorem length_decode {text bytes : Bytes} (same : decode text = .ok bytes) :
    bytes.length ≤ text.length := by
  unfold decode at same
  split at same
  · cases same
  · exact length_read same

end Base64

/-! ### The codecs -/

namespace Codec

/-- The states of the codecs that take no argument. -/
def Sane : Codec → Prop
  | .base64 _ => True
  | .gzip member _ => member.body.phase.Sane
  | _ => False

theorem decodeText_bounded (text : Bytes) :
    Ends (decodeText text) (fun bytes => bytes.length ≤ text.length)
      fun fault => fault.isDecode = true := by
  unfold decodeText
  cases same : Base64.decode text with
  | ok bytes => exact Base64.length_decode same
  | error fault => rfl

/-- **A feed** of a codec that is not finished: it uses some of the bytes, and what comes out is paid
for by those. It can only fail for its input. -/
theorem feed_bounded {codec : Codec} (sane : codec.Sane) (unfinished : codec.finished = false)
    {given : Bytes} (nonempty : given ≠ []) :
    Ends (codec.feed given).1
      (fun result => (codec.feed given).2.Sane ∧ ∃ used : Nat, result.2 = used ∧ 0 < used ∧
        used ≤ given.length ∧ result.1.length + (codec.feed given).2.reserve ≤
          codec.reserve + ChunkCodec.gain Codec * used) fun fault => fault.isDecode = true := by
  have positive : 0 < given.length := List.length_pos_iff.mpr nonempty
  have gain : ChunkCodec.gain Codec = 8 * Deflate.copyLimit := rfl
  rw [gain]
  cases codec with
  | base64 pending =>
    unfold feed feedBase64
    dsimp only
    have filtered : (given.filter fun byte => !isBlankByte byte).length ≤ given.length :=
      List.length_filter_le _ _
    have joined : (pending ++ given.filter fun byte => !isBlankByte byte).length ≤
        pending.length + given.length := by
      rw [List.length_append]
      omega
    generalize pending ++ given.filter (fun byte => !isBlankByte byte) = text at joined ⊢
    generalize text.length - text.length % 4 = whole
    refine (decodeText_bounded (text.take whole)).map fun bytes within => ?_
    refine ⟨trivial, given.length, rfl, positive, Nat.le_refl _, ?_⟩
    rw [List.length_take] at within
    show bytes.length + (text.drop whole).length ≤ pending.length + 8 * 258 * given.length
    rw [List.length_drop]
    omega
  | gzip member refused =>
    unfold feed feedGzip
    cases refused with
    | some fault => exact rfl
    | none =>
      dsimp only
      have grows := Gzip.Member.takeAll_grows sane given
      cases taken : member.takeAll given with
      | error fault => exact rfl
      | ok result =>
        obtain ⟨next, rest⟩ := result
        obtain ⟨used, total, more⟩ := grows.ok taken
        have less := Gzip.Member.takeAll_takes sane unfinished nonempty taken
        dsimp only at total more
        refine ⟨more.sane, used, ?_, ?_, ?_, ?_⟩
        · show (given.length : Int) - (rest.length : Int) = used
          omega
        · omega
        · omega
        · have within := more.within
          have size : (next.body.output.extract member.body.output.size
              next.body.output.size).toList.length =
                next.body.output.size - member.body.output.size := by
            rw [Array.length_toList, Array.size_extract, Nat.min_self]
          show List.length _ + 0 ≤ 0 + _
          rw [size]
          omega
  | xor key => exact sane.elim
  | block left => exact sane.elim

/-- **The end** of the input of a codec. -/
theorem finish_bounded {codec : Codec} (sane : codec.Sane) :
    Ends codec.finish.1 (fun bytes => bytes.length ≤ codec.reserve ∧ codec.finish.2 = codec)
      fun fault => fault.isDecode = true := by
  cases codec with
  | base64 pending =>
    unfold finish
    dsimp only
    split
    · exact ⟨Nat.zero_le _, rfl⟩
    · exact (decodeText_bounded pending).mono (fun bytes within => ⟨within, rfl⟩)
        fun _ decode => decode
  | gzip member refused =>
    unfold finish
    dsimp only
    split
    · exact ⟨Nat.zero_le _, rfl⟩
    · exact rfl
  | xor key => exact sane.elim
  | block left => exact sane.elim

end Codec

end WireProgram
