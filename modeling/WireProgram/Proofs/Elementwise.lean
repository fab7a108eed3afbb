/-
**Arrays and loops over scalars.**

An array is read at once; a loop reads scalars one by one and adds them to its list. Over equal bytes, in
whatever pieces these come, the two agree. With a count, both give the same elements and consume the same
bytes, or both fall short. Without one, both consume all bytes and give the same elements if these are a
whole number of scalars; if they are not, the array does not convert, unless the partial element at the
end may be dropped, and the last round of the loop falls short. The main definitions and statements:

* `run_readArray_counted` and `run_readArray_all`, arrays;
* `Step.Collects.repeat_adds` and `Step.Collects.through_adds`, rounds that find enough bytes, and
  `Step.Collects.repeat_short` and `Step.Collects.through_short`, rounds that do not;
* `Gives` and `FailsIn`, what becomes of an instruction;
* `Instruction.run_elementwise`, the two together.
-/

import WireProgram.Examples
import WireProgram.Proofs.Collect
import WireProgram.Proofs.InPlace.Streams

namespace WireProgram

/-! ### Arrays -/

section Arrays

variable {view : View} {content : Bytes} {machine : Machine}

/-- **An array of a count,** by the bytes that a view offers. -/
theorem run_readArray_counted (offers : view.Offers content machine.streams) (primitive : Primitive)
    (count : Nat) (allowPartialTail : Bool) :
    ∃ streams, (readArray view primitive.name (some count) allowPartialTail).run machine =
        (if count * primitive.width ≤ content.length then
            .ok (.array primitive (primitive.decodeAll (content.take (count * primitive.width))))
          else .error ⟨.decode (.shortRead (count * primitive.width) content.length), []⟩,
          { machine with streams := streams }) ∧
      view.Gave (View.spentBy (count * primitive.width) content) machine.streams streams := by
  obtain ⟨streams, ran, gave⟩ := offers.readExact (count * primitive.width)
  refine ⟨streams, ?_, gave⟩
  unfold readArray
  rw [run_bind_ok (Step.run_ofExcept_ok (requirePrimitive_name primitive) machine)]
  dsimp only
  rw [run_bind, Step.run_onStreams, ran]
  unfold View.exactly
  by_cases within : count * primitive.width ≤ content.length
  · rw [if_pos within, if_pos within]
    have whole : (content.take (count * primitive.width)).length % primitive.width = 0 := by
      rw [List.length_take_of_le within, Nat.mul_mod_left]
    exact Step.run_ofExcept_ok (if_pos whole) _
  · rw [if_neg within, if_neg within]
    rfl

/-- **An array of all bytes** that a view offers. A partial element at the end may be dropped. -/
theorem run_readArray_all (offers : view.Offers content machine.streams) (primitive : Primitive)
    (allowPartialTail : Bool) :
    ∃ after, (readArray view primitive.name none allowPartialTail).run machine =
        (if primitive.width ∣ content.length ∨ allowPartialTail = true then
            .ok (.array primitive (primitive.decodeAll
              (content.take (content.length / primitive.width * primitive.width))))
          else .error ⟨.decode (.partialElement content.length primitive), []⟩, after) ∧
      view.Gave content.length machine.streams after.streams := by
  obtain ⟨streams, ran, gave⟩ := offers.readToEnd
  have read : (Step.onStreams view.readToEnd).run machine =
      (.ok content, { machine with streams := streams }) := by
    rw [Step.run_onStreams, ran]
    rfl
  have front : content.length - content.length % primitive.width =
      content.length / primitive.width * primitive.width := by
    have parts := Nat.div_add_mod' content.length primitive.width
    omega
  unfold readArray
  rw [run_bind_ok (Step.run_ofExcept_ok (requirePrimitive_name primitive) machine)]
  dsimp only
  rw [run_bind_ok read, front]
  by_cases whole : primitive.width ∣ content.length
  · have rest : content.length % primitive.width = 0 := Nat.mod_eq_zero_of_dvd whole
    refine ⟨{ machine with streams := streams }, ?_, gave⟩
    rw [if_neg fun tail => tail.1 rest, if_pos (Or.inl whole), Nat.div_mul_cancel whole,
      List.take_length]
    exact Step.run_ofExcept_ok (if_pos rest) _
  · have rest : content.length % primitive.width ≠ 0 := fun none =>
      whole (Nat.dvd_of_mod_eq_zero none)
    cases allowPartialTail with
    | false =>
      refine ⟨{ machine with streams := streams }, ?_, gave⟩
      rw [if_neg (not_or.mpr ⟨whole, Bool.false_ne_true⟩), if_neg (mt And.right Bool.false_ne_true),
        Step.run_ofExcept, arrayOfBytes, if_neg rest]
      rfl
    | true =>
      have shorter : (content.take (content.length / primitive.width * primitive.width)).length %
          primitive.width = 0 := by
        rw [List.length_take_of_le (Nat.div_mul_le_self _ _), Nat.mul_mod_left]
      obtain ⟨warnings, warned⟩ : ∃ warnings, (Step.warn (partialTailWarning
          (content.length % primitive.width) (content.length / primitive.width) primitive)).run
            { machine with streams := streams } =
          (.ok (), { machine with streams := streams, warnings := warnings }) := ⟨_, rfl⟩
      refine ⟨{ machine with streams := streams, warnings := warnings }, ?_, gave⟩
      rw [if_pos ⟨rest, rfl⟩, if_pos (Or.inr rfl), run_bind_ok warned]
      exact Step.run_ofExcept_ok (if_pos shorter) _

end Arrays

/-! ### Rounds -/

namespace Step.Collects

variable {round : Step Unit} {view : View} {primitive : Primitive} {lists : Lists} {cell own : Nat}
  {place : List Site} {content : Bytes} {machine : Machine} {items : List Value} {fuel : Nat}

/-- **So many rounds** that find enough bytes. -/
theorem repeat_adds (collects : round.Collects view primitive lists.size place) (count : Nat)
    (machine : Machine) (offers : view.Offers content machine.streams)
    (listed : machine.lists = lists.push items) (within : count * primitive.width ≤ content.length) :
    ∃ after, (repeatBody round count).run machine = (.ok (), after) ∧
      after.lists = lists.push (items ++
        (primitive.decodeAll (content.take (count * primitive.width))).map Scalar.toValue) ∧
      view.Gave (count * primitive.width) machine.streams after.streams := by
  induction count generalizing content machine items with
  | zero =>
    rw [Nat.zero_mul, List.take_zero, Primitive.decodeAll_nil, List.map_nil, List.append_nil]
    exact ⟨machine, rfl, listed, .refl offers.ready⟩
  | succ count hypothesis =>
    have front : (count + 1) * primitive.width = primitive.width + count * primitive.width := by
      rw [Nat.succ_mul, Nat.add_comm]
    rw [front] at within ⊢
    obtain ⟨middle, ran, added, gave, -⟩ := collects.adds machine content offers (by omega)
    rw [listed, Table.modify_push] at added
    obtain ⟨after, ran', listed', gave'⟩ := hypothesis middle (gave.offers offers) added
      (by rw [List.length_drop]; omega)
    refine ⟨after, (run_bind_ok ran).trans ran', ?_, gave.trans gave'⟩
    rw [listed', Primitive.decodeAll_take_add within, List.map_cons, List.append_assoc]
    rfl

/-- **So many rounds** that find too few bytes: one of them falls short. -/
theorem repeat_short (collects : round.Collects view primitive cell place) (count : Nat)
    (machine : Machine) (offers : view.Offers content machine.streams)
    (short : content.length < count * primitive.width) :
    ∃ after, (repeatBody round count).run machine =
      (.error ⟨.decode (.shortRead primitive.width (content.length % primitive.width)), place⟩,
        after) := by
  induction count generalizing content machine with
  | zero =>
    rw [Nat.zero_mul] at short
    cases short
  | succ count hypothesis =>
    by_cases within : primitive.width ≤ content.length
    · rw [Nat.succ_mul] at short
      obtain ⟨middle, ran, -, gave, -⟩ := collects.adds machine content offers within
      obtain ⟨after, ran'⟩ := hypothesis middle (gave.offers offers)
        (by rw [List.length_drop]; omega)
      rw [List.length_drop, ← Nat.mod_eq_sub_mod within] at ran'
      exact ⟨after, (run_bind_ok ran).trans ran'⟩
    · have fewer := Nat.lt_of_not_le within
      obtain ⟨after, ran⟩ := collects.short machine content offers fewer
      rw [Nat.mod_eq_of_lt fewer]
      exact ⟨after, run_bind_error ran⟩

/-- A cursor is at its end if it offers no bytes. -/
theorem atEnd_of_offers (offers : (View.cursor own).Offers content machine.streams) :
    (View.cursor own).atEnd machine.streams = content.isEmpty := by
  have bytes : (machine.streams.cursors.get own).buffer.content = content := by
    rw [← offers.bytes]
    exact ((Course.bytes_push _ _).trans (List.append_nil _)).symm
  have ended : (machine.streams.cursors.get own).buffer.ended = true := offers.ready
  show ((machine.streams.cursors.get own).buffer.ended &&
    (machine.streams.cursors.get own).buffer.content.isEmpty) = _
  rw [ended, bytes, Bool.true_and]

/-- A loop over a cursor with bytes left runs a round. -/
theorem run_throughCursor_succ (offers : (View.cursor own).Offers content machine.streams)
    (more : content ≠ []) (round : Step Unit) (fuel : Nat) :
    (throughCursor (.cursor own) round (fuel + 1)).run machine =
      (withProgress (.cursor own) round >>= fun _ => throughCursor (.cursor own) round fuel).run
        machine := by
  have unended : (View.cursor own).atEnd machine.streams = false :=
    (atEnd_of_offers offers).trans (List.isEmpty_eq_false_iff.mpr more)
  rw [throughCursor, run_bind_ok (Step.run_look _ _), unended]
  rfl

/-- A round over a cursor that finds enough bytes, and the others. -/
theorem through_succ (collects : round.Collects (.cursor own) primitive cell place)
    (offers : (View.cursor own).Offers content machine.streams)
    (within : primitive.width ≤ content.length) (fuel : Nat) :
    ∃ after, (throughCursor (.cursor own) round (fuel + 1)).run machine =
        (throughCursor (.cursor own) round fuel).run after ∧
      after.lists = machine.lists.modify cell (· ++
        [(primitive.decode (content.take primitive.width)).toValue]) ∧
      (View.cursor own).Offers (content.drop primitive.width) after.streams ∧
      Streams.Kept [.cursor own] machine.streams after.streams := by
  have positive := primitive.width_pos
  have more : content ≠ [] := List.ne_nil_of_length_pos (Nat.lt_of_lt_of_le positive within)
  obtain ⟨after, ran, added, gave, kept⟩ := collects.adds machine content offers within
  have moved : (View.cursor own).position after.streams ≠
      (View.cursor own).position machine.streams := by
    rw [gave.position]
    exact Nat.ne_of_gt (Nat.lt_add_of_pos_right positive)
  refine ⟨after, ?_, added, gave.offers offers, kept⟩
  rw [run_throughCursor_succ offers more, run_bind_ok (run_withProgress ran moved)]

/-- **Rounds through a cursor** over a whole number of scalars. -/
theorem through_adds (collects : round.Collects (.cursor own) primitive lists.size place)
    (enough : content.length < fuel) (machine : Machine)
    (offers : (View.cursor own).Offers content machine.streams)
    (listed : machine.lists = lists.push items) (whole : primitive.width ∣ content.length) :
    ∃ after, (throughCursor (.cursor own) round fuel).run machine = (.ok (), after) ∧
      after.lists = lists.push (items ++ (primitive.decodeAll content).map Scalar.toValue) ∧
      Streams.Kept [.cursor own] machine.streams after.streams := by
  induction fuel generalizing content machine items with
  | zero => cases enough
  | succ fuel hypothesis =>
    have positive := primitive.width_pos
    by_cases nothing : content = []
    · obtain rfl := nothing
      refine ⟨machine, ?_, ?_, .refl _ _⟩
      · rw [throughCursor, run_bind_ok (Step.run_look _ _), atEnd_of_offers offers]
        rfl
      · rw [listed, Primitive.decodeAll_nil, List.map_nil, List.append_nil]
    · have within : primitive.width ≤ content.length :=
        Nat.le_of_dvd (List.length_pos_iff.mpr nothing) whole
      obtain ⟨middle, ran, added, offered, kept⟩ := collects.through_succ offers within fuel
      rw [listed, Table.modify_push] at added
      obtain ⟨after, ran', listed', kept'⟩ := hypothesis (by rw [List.length_drop]; omega) middle
        offered added (by rwa [List.length_drop, Nat.dvd_sub_iff_left within (Nat.dvd_refl _)])
      refine ⟨after, ran.trans ran', ?_, kept.trans kept'⟩
      have all : primitive.width + (content.length - primitive.width) ≤ content.length :=
        Nat.le_of_eq (Nat.add_sub_of_le within)
      have split := primitive.decodeAll_take_add all
      rw [Nat.add_sub_of_le within, List.take_length, ← List.length_drop, List.take_length] at split
      rw [listed', split, List.map_cons, List.append_assoc]
      rfl

/-- **Rounds through a cursor** with a partial element at the end. -/
theorem through_short (collects : round.Collects (.cursor own) primitive cell place)
    (enough : content.length < fuel) (machine : Machine)
    (offers : (View.cursor own).Offers content machine.streams)
    (part : ¬primitive.width ∣ content.length) :
    ∃ after, (throughCursor (.cursor own) round fuel).run machine =
      (.error ⟨.decode (.shortRead primitive.width (content.length % primitive.width)), place⟩,
        after) := by
  induction fuel generalizing content machine with
  | zero => cases enough
  | succ fuel hypothesis =>
    by_cases within : primitive.width ≤ content.length
    · have positive := primitive.width_pos
      obtain ⟨middle, ran, -, offered, -⟩ := collects.through_succ offers within fuel
      obtain ⟨after, ran'⟩ := hypothesis (by rw [List.length_drop]; omega) middle offered
        (by rwa [List.length_drop, Nat.dvd_sub_iff_left within (Nat.dvd_refl _)])
      rw [List.length_drop, ← Nat.mod_eq_sub_mod within] at ran'
      exact ⟨after, ran.trans ran'⟩
    · have fewer := Nat.lt_of_not_le within
      have more : content ≠ [] := by
        rintro rfl
        exact part (Nat.dvd_zero _)
      obtain ⟨after, ran⟩ := collects.short machine content offers fewer
      refine ⟨after, ?_⟩
      rw [run_throughCursor_succ offers more, run_bind_error (run_withProgress_error ran),
        Nat.mod_eq_of_lt fewer]

end Step.Collects

/-! ### Registers -/

namespace Frame

variable {frame next : Frame} {item output : Register} {target : Target} {view : View} {value : Value}

/-- A register of another slot stays free. -/
theorem Free.of_set (free : frame.Free item) (apart : item.slot? ≠ output.slot?)
    (written : frame.set output value = .ok next) : next.Free item := by
  obtain ⟨slot, addressed, empty⟩ := free
  obtain ⟨taken, addressed', -, rfl⟩ := set_eq_ok.mp written
  have other : slot ≠ taken := by
    rintro rfl
    exact apart (addressed.trans addressed'.symm)
  exact ⟨slot, addressed, by rw [find?_write, if_neg other, empty]⟩

theorem Free.inner (free : frame.Free item) : (frame.child none []).Free item :=
  free.imp fun slot free => ⟨free.1, (frame.find?_child none [] slot).trans free.2⟩

/-- A register that is free where a loop starts is free in its rounds over a cursor. -/
theorem Free.cursorFrame (free : frame.Free item) (reads : frame.target target = .ok view)
    (cursor : View) : (cursorFrame frame target cursor).Free item := by
  obtain ⟨slot, addressed, empty⟩ := free
  have other : frame.find? slot ≠ some (.stream view) := empty ▸ nofun
  exact ⟨slot, addressed, (find?_cursorFrame_of_ne cursor reads other).trans empty⟩

/-- A list where a loop starts is there in its rounds over a cursor. -/
theorem get_cursorFrame {cell : Nat} (read : frame.get output = .ok (.list cell))
    (reads : frame.target target = .ok view) (cursor : View) :
    (WireProgram.cursorFrame frame target cursor).get output = .ok (.list cell) := by
  obtain ⟨slot, addressed, found⟩ := get_eq_ok.mp read
  have other : frame.find? slot ≠ some (.stream view) := found ▸ nofun
  exact get_eq_ok.mpr ⟨slot, addressed, (find?_cursorFrame_of_ne cursor reads other).trans found⟩

/-- A register holds a count. -/
def Counts (frame : Frame) (register : Register) (count : Nat) : Prop :=
  ∃ value, frame.get register = .ok value ∧ value.toInteger? = some (count : Int)

theorem Counts.run_countIn {count : Nat} (counts : frame.Counts item count) (what : String)
    (machine : Machine) : (countIn frame what item).run machine = (.ok count, machine) := by
  obtain ⟨value, read, integer⟩ := counts
  have natural : ¬(count : Int) < 0 := by omega
  unfold countIn
  rw [run_bind_ok (Step.run_ofExcept_ok read machine), countOf, integer]
  dsimp only
  rw [if_neg natural, Int.toNat_natCast]
  rfl

/-- At a target of a frame, a view is read that gives certain bytes. -/
structure Supplies (frame : Frame) (target : Target) (view : View) (content : Bytes)
    (streams : Streams Codec) : Prop where
  reads : frame.target target = .ok view
  ready : view.Ready streams
  gives : (view.readToEnd.run streams).1 = .ok content

theorem Supplies.offers {content : Bytes} {streams : Streams Codec}
    (supplies : frame.Supplies target view content streams) : view.Offers content streams :=
  View.offers_of_gives supplies.ready supplies.gives

end Frame

/-! ### Instructions -/

/-- An instruction succeeds: what it wrote is right, and it consumed so many bytes of a view. -/
def Gives (view : View) (content : Bytes) (count : Nat) (before : Machine)
    (right : Frame → Machine → Prop) (outcome : Except Failure Frame × Machine) : Prop :=
  ∃ next after, outcome = (.ok next, after) ∧ right next after ∧
    view.position after.streams = view.position before.streams + count ∧
    (view.readToEnd.run after.streams).1 = .ok (content.drop count)

/-- An instruction fails for what is in the input. -/
def FailsIn (family : DecodeFamily) (outcome : Except Failure Frame × Machine) : Prop :=
  ∃ cause path after, outcome = (.error ⟨.decode cause, path⟩, after) ∧ cause.family = family

/-- An array of certain elements was written. -/
def WroteArray (register : Register) (primitive : Primitive) (elements : List Scalar) (next : Frame)
    (_ : Machine) : Prop :=
  next.get register = .ok (.array primitive elements)

/-- A new list of certain elements was written. -/
def WroteList (register : Register) (before : Machine) (elements : List Scalar) (next : Frame)
    (after : Machine) : Prop :=
  next.get register = .ok (.list before.lists.size) ∧
    after.lists = before.lists.push (elements.map Scalar.toValue)

section Instructions

variable {frame : Frame} {machine : Machine} {target : Target} {data item output length stop : Register}
  {view : View} {content : Bytes} {count : Nat}

theorem View.Gave.gives {right : Frame → Machine → Prop} {next : Frame} {after : Machine}
    (gave : view.Gave count machine.streams after.streams)
    (offers : view.Offers content machine.streams) (wrote : right next after) :
    Gives view content count machine right (.ok next, after) :=
  ⟨next, after, rfl, wrote, gave.position, (gave.offers offers).gives⟩

theorem decodeArray_counted (environment : Environment) (refer : Referral) (primitive : Primitive)
    (supplies : frame.Supplies target view content machine.streams) (free : frame.Free data)
    (counts : frame.Counts length count) :
    let outcome := ((Instruction.decodeArray target data primitive.name (some length)).run environment
      refer frame).run machine
    if count * primitive.width ≤ content.length then
      Gives view content (count * primitive.width) machine (WroteArray data primitive
        (primitive.decodeAll (content.take (count * primitive.width)))) outcome
    else FailsIn .io outcome := by
  intro outcome
  obtain ⟨streams, ran, gave⟩ := run_readArray_counted supplies.offers primitive count
    environment.config.allowPartialTail
  have started : outcome = (readArray view primitive.name (some count)
      environment.config.allowPartialTail >>= fun value =>
        Step.ofExcept (frame.set data value)).run machine := by
    show ((Instruction.decodeArray _ _ _ _).run _ _ _).run _ = _
    unfold Instruction.run
    rw [run_bind_ok (Step.run_ofExcept_ok supplies.reads _),
      run_bind_ok (counts.run_countIn "array length" _)]
  by_cases within : count * primitive.width ≤ content.length
  · rw [if_pos within] at ran ⊢
    rw [View.spentBy, if_pos within] at gave
    obtain ⟨next, written⟩ := free.set
      (.array primitive (primitive.decodeAll (content.take (count * primitive.width))))
    rw [started, run_bind_ok ran, Step.run_ofExcept_ok written]
    exact View.Gave.gives gave supplies.offers (Frame.get_set written)
  · rw [if_neg within] at ran ⊢
    exact ⟨_, _, _, started.trans (run_bind_error ran), rfl⟩

theorem decodeArray_all (environment : Environment) (refer : Referral) (primitive : Primitive)
    (supplies : frame.Supplies target view content machine.streams) (free : frame.Free data) :
    let outcome := ((Instruction.decodeArray target data primitive.name none).run environment refer
      frame).run machine
    if primitive.width ∣ content.length ∨ environment.config.allowPartialTail = true then
      Gives view content content.length machine (WroteArray data primitive (primitive.decodeAll
        (content.take (content.length / primitive.width * primitive.width)))) outcome
    else FailsIn .conversion outcome := by
  intro outcome
  obtain ⟨after, ran, gave⟩ := run_readArray_all supplies.offers primitive
    environment.config.allowPartialTail
  have started : outcome = (readArray view primitive.name none environment.config.allowPartialTail >>=
      fun value => Step.ofExcept (frame.set data value)).run machine := by
    show ((Instruction.decodeArray _ _ _ _).run _ _ _).run _ = _
    unfold Instruction.run
    rw [run_bind_ok (Step.run_ofExcept_ok supplies.reads _)]
  by_cases converts : primitive.width ∣ content.length ∨ environment.config.allowPartialTail = true
  · rw [if_pos converts] at ran ⊢
    obtain ⟨next, written⟩ := free.set (.array primitive (primitive.decodeAll
      (content.take (content.length / primitive.width * primitive.width))))
    rw [started, run_bind_ok ran, Step.run_ofExcept_ok written]
    exact View.Gave.gives gave supplies.offers (Frame.get_set written)
  · rw [if_neg converts] at ran ⊢
    exact ⟨_, _, _, started.trans (run_bind_error ran), rfl⟩

theorem loop_counted (environment : Environment) (refer : Referral) (primitive : Primitive)
    (supplies : frame.Supplies target view content machine.streams) (outputFree : frame.Free output)
    (itemFree : frame.Free item) (apart : item.slot? ≠ output.slot?)
    (counts : frame.Counts stop count) :
    let outcome := ((Instruction.loop target (some stop) none output
      [.decodePrimitive target item primitive.name, .loopOutput output item]).run environment refer
        frame).run machine
    if count * primitive.width ≤ content.length then
      Gives view content (count * primitive.width) machine (WroteList output machine
        (primitive.decodeAll (content.take (count * primitive.width)))) outcome
    else FailsIn .io outcome := by
  intro outcome
  obtain ⟨outer, written⟩ := outputFree.set (.list machine.lists.size)
  have collects := collects_round environment refer primitive
    ((outer.target_inner _).trans (Frame.target_of_set written supplies.reads))
    ((outer.get_inner _).trans (Frame.get_set written)) (itemFree.of_set apart written).inner
  have started : outcome = (repeatBody (discard (runBlock environment refer
      [.decodePrimitive target item primitive.name, .loopOutput output item] 0
        (outer.child none []))) count >>= fun _ => pure outer).run
      { machine with lists := machine.lists.push [] } := by
    show ((Instruction.loop _ _ _ _ _).run _ _ _).run _ = _
    unfold Instruction.run
    rw [run_bind_ok (counts.run_countIn "loop count" _), run_bind_ok (run_newList machine),
      run_bind_ok (Step.run_ofExcept_ok written _)]
  by_cases within : count * primitive.width ≤ content.length
  · rw [if_pos within]
    obtain ⟨after, ran, listed, gave⟩ := collects.repeat_adds count
      { machine with lists := machine.lists.push [] } supplies.offers rfl within
    rw [started, run_bind_ok ran]
    exact View.Gave.gives gave supplies.offers ⟨Frame.get_set written, listed⟩
  · rw [if_neg within]
    obtain ⟨after, ran⟩ := collects.repeat_short count
      { machine with lists := machine.lists.push [] } supplies.offers (Nat.lt_of_not_le within)
    exact ⟨_, _, _, started.trans (run_bind_error ran), rfl⟩

/-- A new cursor offers its bytes. -/
theorem offers_openCursor (streams : Streams Codec) (content : Bytes) :
    (View.cursor streams.cursors.size).Offers content (streams.openCursor content).2 := by
  have opened : (streams.openCursor content).2.cursors.get streams.cursors.size =
      { buffer := { content := content, ended := true }, length := content.length } :=
    Table.get_push_self _ _
  refine ⟨?_, ?_, Course.fault_push _ _⟩
  · show ((streams.openCursor content).2.cursors.get streams.cursors.size).buffer.ended = true
    rw [opened]
  · show (Course.push ((streams.openCursor content).2.cursors.get
      streams.cursors.size).buffer.content .ended).bytes = _
    rw [opened, Course.bytes_push]
    exact List.append_nil _

theorem loop_all (environment : Environment) (refer : Referral) (primitive : Primitive)
    (supplies : frame.Supplies target view content machine.streams)
    (standing : view.Standing machine.streams) (outputFree : frame.Free output)
    (itemFree : frame.Free item) (apart : item.slot? ≠ output.slot?) :
    let outcome := ((Instruction.loop target none none output
      [.decodePrimitive target item primitive.name, .loopOutput output item]).run environment refer
        frame).run machine
    if primitive.width ∣ content.length then
      Gives view content content.length machine
        (WroteList output machine (primitive.decodeAll content)) outcome
    else FailsIn .io outcome := by
  intro outcome
  obtain ⟨drained, read, gave⟩ := supplies.offers.readToEnd
  obtain ⟨outer, written⟩ := outputFree.set (.list machine.lists.size)
  have reads := Frame.target_of_set written supplies.reads
  have collects := collects_round environment refer primitive
    (target_cursorFrame (.cursor drained.cursors.size) reads)
    (Frame.get_cursorFrame (Frame.get_set written) reads _)
    ((itemFree.of_set apart written).cursorFrame reads _)
  have started : outcome = (throughCursor (.cursor drained.cursors.size) (discard (runBlock environment
      refer [.decodePrimitive target item primitive.name, .loopOutput output item] 0
        (cursorFrame outer target (.cursor drained.cursors.size)))) (content.length + 1) >>=
      fun _ => pure outer).run
      { machine with
        streams := (drained.openCursor content).2, lists := machine.lists.push [] } := by
    have drains : (Step.onStreams view.readToEnd).run machine =
        (.ok content, { machine with streams := drained }) := by
      rw [Step.run_onStreams, read]
      rfl
    have opens : (Step.onStreams (openedBy fun streams => streams.openCursor content)).run
        { machine with streams := drained } = (.ok (.cursor drained.cursors.size),
          { machine with streams := (drained.openCursor content).2 }) := rfl
    show ((Instruction.loop _ _ _ _ _).run _ _ _).run _ = _
    unfold Instruction.run
    rw [run_bind_ok (Step.run_ofExcept_ok supplies.reads _), run_bind_ok drains, run_bind_ok opens,
      run_bind_ok (run_newList _), run_bind_ok (Step.run_ofExcept_ok written _)]
  by_cases whole : primitive.width ∣ content.length
  · rw [if_pos whole]
    obtain ⟨after, ran, listed, kept⟩ := collects.through_adds (Nat.lt_succ_self _)
      { machine with streams := (drained.openCursor content).2, lists := machine.lists.push [] }
      (offers_openCursor drained content) rfl whole
    rw [started, run_bind_ok ran]
    -- The rounds touch only the cursor, which is newer than all that the view touches.
    have settled := (view.readToEnd_kept machine.streams).settled standing
    rw [read] at settled
    have free : view.touches.Disjoint [.cursor drained.cursors.size] := by
      intro layer inside other
      obtain rfl := List.mem_singleton.mp other
      exact Nat.lt_irrefl _ (settled ▸ standing _ inside)
    have both := (drained.openCursor_kept content).trans kept
    refine ⟨outer, after, rfl, ⟨Frame.get_set written, listed⟩, ?_,
      ((gave.offers supplies.offers).kept both free).gives⟩
    rw [View.position_kept both fun other => free view.top_mem other]
    exact gave.position
  · rw [if_neg whole]
    obtain ⟨after, ran⟩ := collects.through_short (Nat.lt_succ_self _)
      { machine with streams := (drained.openCursor content).2, lists := machine.lists.push [] }
      (offers_openCursor drained content) whole
    exact ⟨_, _, _, started.trans (run_bind_error ran), rfl⟩

end Instructions

/-- Five bytes that come in pieces, and a region of five bytes over the same bytes in other pieces. -/
def fiveBytes : Machine where
  streams := ((Streams.openSource {} .blocking
    ⟨[.bytes [1], .bytes [2, 3, 255], .bytes [254]], 0⟩).2.openSource .blocking
      ⟨[.bytes [1, 2, 3], .bytes [255, 254, 7]], 0⟩).2.openTake (.source .blocking 1) 5 |>.2

/-- A frame that reads a view, with two counts. -/
def countsFrame (view : View) : Frame :=
  ⟨⟨some view, [(.index 0, .int 2), (.index 1, .int 3)]⟩, []⟩

/-- An instruction over one of the two views, where a partial element is dropped. -/
def fiveBytesRun (view : View) (instruction : Instruction) : Except Failure Frame × Machine :=
  (instruction.run ⟨Examples.programOf 4 [], [], "blocking", { allowPartialTail := true }⟩
    (decodeMessage [] "blocking" {} 0) (countsFrame view)).run fiveBytes

/-- The array of numbers of two bytes. -/
def pairsArray (length : Option Register) : Instruction :=
  .decodeArray .direct (Examples.register 2) Primitive.i16.name length

/-- The loop that collects numbers of two bytes. -/
def pairsCollect (stop : Option Register) : Instruction :=
  .loop .direct stop none (Examples.register 3)
    [.decodePrimitive .direct (Examples.register 2) Primitive.i16.name,
      .loopOutput (Examples.register 3) (Examples.register 2)]

end WireProgram
