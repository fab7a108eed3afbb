/-
**Regions that are cut short.**

A bound is an upper one: a region ends where its parent ends, whether or not as many bytes came as the
bound allows for. So an instruction that reads all of its target goes on with the bytes that there are, as
after a region of just so many. That there are too few shows where a number of bytes is asked for: in
place of such an instruction, or after it. The main definitions and statements:

* `View.Truncated`, a region whose parent has fewer bytes than its bound allows for, with
  `View.Truncated.readToEnd`, such a region read to its end;
* `Instruction.ReadsAll`, the instructions that read all of their target;
* `Instruction.run_truncated`, such an instruction on such a region.
-/

import WireProgram.Examples
import WireProgram.Proofs.Collect
import WireProgram.Proofs.Text.Decoded

namespace WireProgram

namespace View

variable {κ : Type} [ChunkCodec κ] {streams middle after : Streams κ} {parent view : View}
  {cell fuel : Nat} {bytes content : Bytes}

/-! ### Reading through a bound -/

/-- What taking bytes through a bound does to the bound and to its parent. -/
structure Drew (cell : Nat) (parent : View) (count : Nat) (before after : Streams κ) : Prop where
  ready : (View.take cell parent).Ready after
  bytes : (parent.course after).bytes = (parent.course before).bytes.drop count
  fault : (parent.course after).fault = (parent.course before).fault
  bound : after.bounds.get cell = (before.bounds.get cell).spend count

theorem Drew.refl (ready : (View.take cell parent).Ready streams) :
    Drew cell parent 0 streams streams :=
  ⟨ready, rfl, rfl, (Bound.spend_zero _).symm⟩

theorem Drew.trans {first second : Nat} (one : Drew cell parent first streams middle)
    (two : Drew cell parent second middle after) : Drew cell parent (first + second) streams after where
  ready := two.ready
  bytes := by rw [two.bytes, one.bytes, List.drop_drop]
  fault := two.fault.trans one.fault
  bound := by rw [two.bound, one.bound, Bound.spend_spend]

/-- Peeking through a bound takes nothing from its parent. -/
theorem drew_of_fillBuf {want : Nat} (ready : (View.take cell parent).Ready streams)
    (ran : ((View.take cell parent).fillBuf want).run streams = (.ok bytes, after)) :
    Drew cell parent 0 streams after := by
  rw [run_fillBuf_take] at ran
  split at ran
  · cases ran
    exact .refl ready
  · obtain ⟨result, middle, filled, fills⟩ := fillBuf_gave ready.2
      (min (max want 1) (streams.bounds.get cell).left.toNat)
    rw [filled] at ran
    cases result with
    | error fault => cases ran
    | ok available =>
      cases ran
      obtain ⟨-, gave, -⟩ := fills
      exact ⟨⟨ready.1, gave.ready⟩, gave.bytes, gave.fault,
        (gave.within.bounds cell ready.1).trans (Bound.spend_zero _).symm⟩

/-- Dropping through a bound drops as much from its parent. -/
theorem drew_of_consume {count : Nat} (ready : (View.take cell parent).Ready streams)
    (nonempty : (View.take cell parent).held streams ≠ [])
    (enough : count ≤ ((View.take cell parent).held streams).length)
    (ran : ((View.take cell parent).consume count).run streams = (.ok (), after)) :
    Drew cell parent count streams after := by
  have same := untouched_setBound ready.1 streams (streams.bounds.get cell)
  have filled : parent.held streams ≠ [] := by
    intro empty
    refine nonempty ?_
    show (parent.held streams).take _ = []
    rw [empty, List.take_nil]
  have within : count ≤ (parent.held streams).length :=
    Nat.le_trans enough (List.length_take_le' _ _)
  rw [run_consume_take] at ran
  split at ran
  · cases ran
  · obtain ⟨middle, drops, gave⟩ := consume_gave (same.ready ready.2) (same.held.symm ▸ filled)
      (same.held.symm ▸ within)
    rw [drops] at ran
    cases ran
    have still := untouched_setBound ready.1 middle ((middle.bounds.get cell).spend count)
    refine ⟨⟨ready.1, still.ready gave.ready⟩, ?_, ?_, ?_⟩
    · rw [← same.course, ← gave.bytes]
      exact congrArg Course.bytes still.course
    · rw [← same.course, ← gave.fault]
      exact congrArg Course.fault still.course
    · show Table.get (Table.set middle.bounds cell _) cell = _
      rw [Table.get_set_self, gave.within.bounds cell ready.1, Table.get_set_self]
      rfl

/-- Draining a region drains as much from its parent. -/
theorem drew_of_drain (ready : (View.take cell parent).Ready streams)
    (ran : ((View.take cell parent).drain fuel).run streams = (.ok bytes, after)) :
    Drew cell parent bytes.length streams after := by
  induction fuel generalizing streams bytes with
  | zero => cases ran
  | succ fuel hypothesis =>
    obtain ⟨result, middle, filled, fills⟩ := fillBuf_gave ready 1
    rw [drain] at ran
    obtain ⟨available, peeked, same, ran⟩ := run_bind_eq_ok ran
    obtain ⟨rfl, rfl⟩ := Prod.mk.inj (filled.symm.trans same)
    obtain ⟨rfl, -, -⟩ := fills
    have looked := drew_of_fillBuf ready filled
    by_cases nothing : ((View.take cell parent).held middle).isEmpty = true
    · rw [if_pos nothing] at ran
      cases ran
      exact looked
    · have nonempty : (View.take cell parent).held middle ≠ [] := mt List.isEmpty_iff.mpr nothing
      rw [if_neg nothing] at ran
      obtain ⟨_, dropped, drops, ran⟩ := run_bind_eq_ok ran
      obtain ⟨others, last, drained, ran⟩ := run_bind_eq_ok ran
      cases ran
      have drew := looked.trans (drew_of_consume looked.ready nonempty (Nat.le_refl _) drops)
      have both := drew.trans (hypothesis drew.ready drained)
      rwa [Nat.zero_add, ← List.length_append] at both

/-! ### Truncated regions -/

/-- A region whose parent has these bytes, which are fewer than the bound allows for. -/
structure Truncated (cell : Nat) (parent : View) (content : Bytes) (streams : Streams κ) : Prop where
  ready : (View.take cell parent).Ready streams
  gives : (parent.readToEnd.run streams).1 = .ok content
  short : (content.length : Int) < (streams.bounds.get cell).left

/-- A view at its end gives nothing, and any number of bytes is too many. -/
structure Exhausted (view : View) (streams : Streams κ) : Prop where
  gives : (view.readToEnd.run streams).1 = .ok []
  refuses : ∀ count : Nat, 0 < count →
    ((view.readExact count).run streams).1 = .error (.decode (.shortRead count 0))

theorem Offers.exhausted (offers : view.Offers [] streams) : view.Exhausted streams := by
  refine ⟨offers.gives, fun count positive => ?_⟩
  obtain ⟨after, ran, -⟩ := offers.readExact count
  rw [ran]
  exact if_neg (Nat.not_le_of_lt positive)

/-- A region of no fewer bytes than its parent offers, offers the same. -/
theorem Offers.take (offers : parent.Offers content streams) (fresh : cell ∉ parent.cells)
    (short : (content.length : Int) < (streams.bounds.get cell).left) :
    (View.take cell parent).Offers content streams := by
  refine ⟨⟨fresh, offers.ready⟩, ?_, ?_⟩
  · rw [course_take, Course.bytes_cut, offers.bytes, List.take_of_length_le (by omega)]
  · rw [course_take, Course.fault_cut, offers.sound, ite_self]

namespace Truncated

/-- A truncated region offers what its parent has. -/
theorem offers (truncated : Truncated cell parent content streams) :
    (View.take cell parent).Offers content streams :=
  (offers_of_gives truncated.ready.2 truncated.gives).take truncated.ready.1 truncated.short

/-- **A truncated region read to its end** gives what its parent has, and both are exhausted then. -/
theorem readToEnd (truncated : Truncated cell parent content streams) :
    ∃ after, (View.take cell parent).readToEnd.run streams = (.ok content, after) ∧
      (View.take cell parent).Exhausted after ∧ parent.Exhausted after := by
  have inner := offers_of_gives truncated.ready.2 truncated.gives
  obtain ⟨after, ran, -⟩ := truncated.offers.readToEnd
  have drew := drew_of_drain truncated.ready ran
  have left : parent.Offers [] after := by
    refine ⟨drew.ready.2, ?_, drew.fault.trans inner.sound⟩
    rw [drew.bytes, inner.bytes, List.drop_length]
  have room : (([] : Bytes).length : Int) < (after.bounds.get cell).left := by
    have short := truncated.short
    rw [drew.bound]
    show (0 : Int) < (streams.bounds.get cell).left - content.length
    omega
  exact ⟨after, ran, (left.take truncated.ready.1 room).exhausted, left.exhausted⟩

/-- A number of bytes that a truncated region does not have is too many, be it within its bound or not. -/
theorem readExact (truncated : Truncated cell parent content streams) {count : Nat}
    (beyond : content.length < count) :
    (((View.take cell parent).readExact count).run streams).1 =
      .error (.decode (.shortRead count content.length)) := by
  obtain ⟨after, ran, -⟩ := truncated.offers.readExact count
  rw [ran]
  exact if_neg (Nat.not_le_of_lt beyond)

end Truncated

end View

/-! ### Instructions that read all of their target -/

/-- The array of all bytes of a view. A partial element at the end may be dropped. -/
def arrayOfAll (primitive : Primitive) (allowPartialTail : Bool) (content : Bytes) : Step Value := do
  let tail := content.length % primitive.width
  if tail ≠ 0 ∧ allowPartialTail then
    Step.warn (partialTailWarning tail (content.length / primitive.width) primitive)
    Step.ofExcept (arrayOfBytes primitive (content.take (content.length - tail)))
  else Step.ofExcept (arrayOfBytes primitive content)

/-- The rounds of a loop over all bytes of a view, which are read ahead. -/
def loopOverAll (environment : Environment) (refer : Referral) (frame : Frame) (target : Target)
    (output : Register) (body : List Instruction) (content : Bytes) : Step Frame := do
  let cursor ← Step.onStreams (openedBy fun streams => streams.openCursor content)
  let list ← newList
  let frame ← Step.ofExcept (frame.set output list)
  throughCursor cursor
    (discard (runBlock environment refer body 0 (cursorFrame frame target cursor)))
    (content.length + 1)
  return frame

/-- The instructions that read all bytes of a target, with what they make of them. -/
inductive Instruction.ReadsAll (environment : Environment) (refer : Referral) (frame : Frame)
    (target : Target) : Instruction → (Bytes → Step Frame) → Prop
  /-- A text without a length. -/
  | text (encoding : TextEncoding) (name : String) (data : Register) :
    ReadsAll environment refer frame target
      (.decodeForeign target data ⟨name, encoding.action⟩ []) fun content => do
        let value ← Step.ofExcept (encoding.textOf content)
        Step.ofExcept (frame.set data value)
  /-- An array without a length. -/
  | array (primitive : Primitive) (data : Register) :
    ReadsAll environment refer frame target
      (.decodeArray target data primitive.name none) fun content => do
        let value ← arrayOfAll primitive environment.config.allowPartialTail content
        Step.ofExcept (frame.set data value)
  /-- A loop with neither a count nor a terminator. -/
  | loop (output : Register) (body : List Instruction) :
    ReadsAll environment refer frame target (.loop target none none output body)
      (loopOverAll environment refer frame target output body)

section Instructions

variable {environment : Environment} {refer : Referral} {frame : Frame} {target : Target}
  {instruction : Instruction} {next : Bytes → Step Frame} {view parent : View} {content : Bytes}
  {machine : Machine} {streams : Streams Codec} {cell : Nat}

/-- An array without a length is read by reading its target to the end. -/
theorem run_readArray_arrayOfAll (primitive : Primitive) (allowPartialTail : Bool)
    {before after : Machine} (read : (Step.onStreams view.readToEnd).run before = (.ok content, after)) :
    (readArray view primitive.name none allowPartialTail).run before =
      (arrayOfAll primitive allowPartialTail content).run after := by
  unfold readArray
  rw [run_bind_ok (Step.run_ofExcept_ok (requirePrimitive_name primitive) before)]
  dsimp only
  rw [run_bind_ok read]
  rfl

/-- Such an instruction runs by reading its target to the end. -/
theorem Instruction.ReadsAll.run (reads : instruction.ReadsAll environment refer frame target next)
    (found : frame.target target = .ok view)
    (ran : view.readToEnd.run machine.streams = (.ok content, streams)) :
    (instruction.run environment refer frame).run machine =
      (next content).run { machine with streams := streams } := by
  have read : (Step.onStreams view.readToEnd).run machine =
      (.ok content, { machine with streams := streams }) := by
    rw [Step.run_onStreams, ran]
    rfl
  have reached := Step.run_ofExcept_ok found machine
  cases reads with
  | text encoding name data =>
    have decoded : (ForeignType.decode ⟨name, encoding.action⟩ view [] environment.mode).run
        machine.streams = (encoding.textOf content, streams) :=
      run_decode_text encoding (textLength?_nil name) ran
    have nothing : frame.getMany [] = .ok [] := rfl
    unfold Instruction.run
    rw [run_bind_ok reached, run_bind_ok (Step.run_ofExcept_ok nothing machine), run_bind,
      Step.run_onStreams, decoded, run_bind]
    rfl
  | array primitive data =>
    unfold Instruction.run
    rw [run_bind_ok reached, run_bind, run_readArray_arrayOfAll primitive _ read, run_bind]
  | loop output body =>
    unfold Instruction.run
    rw [run_bind_ok reached, run_bind_ok read]
    rfl

/-- **An unbounded read of a truncated region** is no failure: the instruction goes on with the bytes that
there are. After it neither the region nor its parent has any byte for an instruction that asks for some,
and in its place an instruction that asks for more than there are fails as well. -/
theorem Instruction.run_truncated (found : frame.target target = .ok (.take cell parent))
    (truncated : View.Truncated cell parent content machine.streams)
    (reads : instruction.ReadsAll environment refer frame target next) :
    (∃ after, (instruction.run environment refer frame).run machine =
        (next content).run { machine with streams := after } ∧
      (View.take cell parent).Exhausted after ∧ parent.Exhausted after) ∧
    ∀ count : Nat, content.length < count →
      (((View.take cell parent).readExact count).run machine.streams).1 =
        .error (.decode (.shortRead count content.length)) := by
  obtain ⟨after, ran, region, rest⟩ := truncated.readToEnd
  exact ⟨⟨after, reads.run found ran, region, rest⟩, fun _ beyond => truncated.readExact beyond⟩

/-- A region of five bytes over a source of two, which come one by one: a text, an array and a loop that
collects bytes. -/
theorem Instruction.run_truncated_of_twoBytes :
    let root := ({} : Streams Codec).openSource .blocking (Input.ofBytes 1 [97, 98])
    let region := root.2.openTake root.1 5
    let machine : Machine := { streams := region.2 }
    let frame := ({} : Frame).bindReader region.1
    let goesOn (instruction : Instruction) (next : Bytes → Step Frame) :=
      (∃ after, (instruction.run default default frame).run machine =
          (next [97, 98]).run { machine with streams := after } ∧
        region.1.Exhausted after ∧ root.1.Exhausted after) ∧
      ∀ count : Nat, 2 < count → ((region.1.readExact count).run machine.streams).1 =
        .error (.decode (.shortRead count 2))
    (frame.target .direct = .ok region.1 ∧
      View.Truncated 0 root.1 [97, 98] machine.streams) ∧
    goesOn (.decodeForeign .direct (Examples.register 0) Examples.utf8 []) (fun content => do
      let value ← Step.ofExcept (TextEncoding.utf8.textOf content)
      Step.ofExcept (frame.set (Examples.register 0) value)) ∧
    goesOn (.decodeArray .direct (Examples.register 0) "u16" none) (fun content => do
      let value ← arrayOfAll .u16 false content
      Step.ofExcept (frame.set (Examples.register 0) value)) ∧
    goesOn (.loop .direct none none (Examples.register 2) Examples.collectByte)
      (loopOverAll default default frame .direct (Examples.register 2) Examples.collectByte) := by
  intro root region machine frame goesOn
  have ready : region.1.Ready region.2 := ⟨List.not_mem_nil, trivial⟩
  have delivers := Input.ofBytes_delivers 1 [97, 98] (by decide)
  have gives : (root.1.readToEnd.run region.2).1 = .ok [97, 98] :=
    View.readToEnd_yield trivial ⟨rfl, (Source.opened_fair delivers).1⟩ rfl
  have truncated : View.Truncated 0 root.1 [97, 98] machine.streams := ⟨ready, gives, by decide⟩
  have found : frame.target .direct = .ok region.1 := rfl
  exact ⟨⟨found, truncated⟩,
    run_truncated found truncated (.text .utf8 "utf8" (Examples.register 0)),
    run_truncated found truncated (.array .u16 (Examples.register 0)),
    run_truncated found truncated (.loop (Examples.register 2) Examples.collectByte)⟩

end Instructions

/-! ### A text that is cut short -/

/-- A text without a length, over a region of five bytes. -/
def textOfFive : Program :=
  Examples.programOf 3
    [.eval (Examples.register 0) (.constant (.int 5)),
      .constrict .direct (Examples.register 1) (Examples.register 0),
      .decodeForeign (.stream (Examples.register 1)) (Examples.register 2) Examples.utf8 []]

/-- The text that a run gives, which can be decided. -/
def textGiven? : Except Failure Value → Option String
  | .ok (.text text) => some text
  | _ => none

theorem eq_ok_text {result : Except Failure Value} {text : String}
    (given : textGiven? result = some text) : result = .ok (.text text) := by
  unfold textGiven? at given
  split at given
  · rw [Option.some.inj given]
  · cases given

/-- The text of a region of five bytes is read from an input of two. -/
theorem textOfFive_accepts :
    ([97, 98] : Bytes).length < 5 ∧
    (decodeInput ⟨textOfFive, [], "blocking", {}⟩ .blocking (Input.ofBytes 65536 [97, 98]) [] {}).1 =
      .ok (.text "ab") :=
  ⟨by decide, eq_ok_text (by decide +kernel)⟩

end WireProgram
