/-
**What a codec makes of a byte string.**

A codec that keeps its contract makes the same of a byte string however it is cut: until it is finished
it uses all that it is fed with, and two feeds do what one feed of both does. The main definitions and
statements:

* `ChunkCodec.Greedy` and `ChunkCodec.Meets`, the two halves of the contract and the whole;
* `ChunkCodec.denote`, what a codec makes of a byte string at once;
* `ChunkCodec.through_denote`, the same for every course of the byte string.
-/

import WireProgram.Proofs.Stream.Course

namespace WireProgram.ChunkCodec

variable {κ : Type} [ChunkCodec κ] {codec next : κ} {first second out : Bytes} {used : Int}
  {fault : Fault}

/-! ### The contract -/

/-- A feed after which a codec wants more. -/
def Goes (before after : κ) : Prop :=
  ∃ given out used, given ≠ [] ∧ feed before given = (.ok (out, used), after) ∧
    finished after = false

/-- The states that a codec comes to while it wants more. -/
def Comes : κ → κ → Prop :=
  Relation.ReflTransGen Goes

/-- A feed uses bytes that it was given: all of them, unless the codec is finished. -/
def Uses (codec : κ) : Prop :=
  ∀ given out used next, given ≠ [] → feed codec given = (.ok (out, used), next) →
    (0 ≤ used ∧ used ≤ given.length) ∧ (finished next = false → used = given.length)

/-- A codec that uses all it is fed with until it is finished. -/
def Greedy (codec : κ) : Prop :=
  ∀ state, Comes codec state → Uses state

/-- Feeds a codec, and if it wants more feeds it again. -/
def feedTwice (codec : κ) (first second : Bytes) : Except Fault (Bytes × Int) × κ :=
  match feed codec first with
  | (.error fault, next) => (.error fault, next)
  | (.ok (out, used), next) =>
    if finished next then (.ok (out, used), next)
    else
      let again := feed next second
      (again.1.map fun result => (out ++ result.1, used + result.2), again.2)

/-- Two feeds with the same result: the same bytes or the same fault, after which the codec wants more
or not, and if it does, the end of its input gives the same. -/
def Agrees (left right : Except Fault (Bytes × Int) × κ) : Prop :=
  left.1 = right.1 ∧ (left.1.isOk = true → finished left.2 = finished right.2 ∧
    (finished left.2 = false → (finish left.2).1 = (finish right.2).1))

/-- Feeding a byte string at once does what feeding its two parts does. -/
def Divides (codec : κ) : Prop :=
  ∀ first second, first ≠ [] → second ≠ [] →
    Agrees (feed codec (first ++ second)) (feedTwice codec first second)

/-- A codec that keeps its contract in all states that it comes to. -/
def Meets (codec : κ) : Prop :=
  ∀ state, Comes codec state → Uses state ∧ Divides state

theorem Meets.greedy (meets : Meets codec) : Greedy codec :=
  fun state comes => (meets state comes).1

theorem Greedy.goes (greedy : Greedy codec) (goes : Goes codec next) : Greedy next :=
  fun state comes => greedy state (.head goes comes)

theorem Meets.goes (meets : Meets codec) (goes : Goes codec next) : Meets next :=
  fun state comes => meets state (.head goes comes)

/-! ### What a codec makes of a byte string -/

/-- What comes out of a codec that is fed with a byte string at once, and how many bytes it uses. If it
wants more, its input ends. -/
def denote (codec : κ) (content : Bytes) : Except Fault (Bytes × Int) :=
  if content.isEmpty then (finish codec).1.map fun last => (last, 0)
  else
    match feed codec content with
    | (.error fault, _) => .error fault
    | (.ok (out, used), next) =>
      if finished next then .ok (out, used)
      else (finish next).1.map fun last => (out ++ last, used)

theorem denote_nil (codec : κ) : denote codec [] = (finish codec).1.map fun last => (last, 0) := rfl

theorem denote_uses {content : Bytes} (uses : Uses codec)
    (denoted : denote codec content = .ok (out, used)) : 0 ≤ used ∧ used ≤ content.length := by
  unfold denote at denoted
  split at denoted
  · rcases last : (finish codec).1 with fault | bytes <;> rw [last] at denoted
    · cases denoted
    · cases denoted
      exact ⟨Int.le_refl _, Int.natCast_nonneg _⟩
  · rename_i nonempty
    rw [List.isEmpty_iff] at nonempty
    rcases fed : feed codec content with ⟨fault | ⟨bytes, count⟩, next⟩
    · rw [fed] at denoted
      cases denoted
    · have within := (uses _ _ _ _ nonempty fed).1
      rw [fed] at denoted
      dsimp only at denoted
      split at denoted
      · cases denoted
        exact within
      · rcases last : (finish next).1 with fault | tail <;> rw [last] at denoted
        · cases denoted
        · cases denoted
          exact within

/-- What a codec makes of the rest of a byte string after it was fed with the front. -/
theorem denote_append (divides : Divides codec) (nonempty : first ≠ [])
    (fed : feed codec first = (.ok (out, used), next)) (wants : finished next = false) :
    denote codec (first ++ second) =
      (denote next second).map fun result => (out ++ result.1, used + result.2) := by
  cases second with
  | nil =>
    have filled : first.isEmpty = false := by simpa using nonempty
    rw [List.append_nil, denote_nil, denote, filled, fed]
    simp only [wants, Bool.false_eq_true, if_false]
    rcases (finish next).1 with fault | last
    · rfl
    · simp only [Except.map, Int.add_zero]
  | cons byte others =>
    obtain ⟨same, agrees⟩ := divides first (byte :: others) nonempty (List.cons_ne_nil _ _)
    have filled : (first ++ byte :: others).isEmpty = false := by simp
    have twice : feedTwice codec first (byte :: others) =
        ((feed next (byte :: others)).1.map fun result => (out ++ result.1, used + result.2),
          (feed next (byte :: others)).2) := by
      unfold feedTwice
      simp only [fed, wants, Bool.false_eq_true, if_false]
    rw [twice] at same agrees
    unfold denote
    rw [filled, if_neg Bool.false_ne_true, List.isEmpty_cons, if_neg Bool.false_ne_true]
    rcases whole : feed codec (first ++ byte :: others) with ⟨fault | ⟨all, count⟩, state⟩
    · rw [whole] at same
      rcases part : feed next (byte :: others) with ⟨failure | result, last⟩
      · rw [part] at same
        cases same
        rfl
      · rw [part] at same
        cases same
    · rw [whole] at same agrees
      rcases part : feed next (byte :: others) with ⟨failure | ⟨more, extra⟩, last⟩
      · rw [part] at same
        cases same
      · rw [part] at same agrees
        cases same
        obtain ⟨alike, ends⟩ := agrees rfl
        dsimp only at alike ends ⊢
        rw [← alike]
        cases stops : finished state with
        | true => rfl
        | false =>
          simp only [Bool.false_eq_true, if_false, ends stops]
          rcases (finish last).1 with failure | tail
          · rfl
          · simp only [Except.map, List.append_assoc]

/-- Once a codec has failed or is finished, more bytes make no difference. -/
theorem denote_stopped (divides : Divides codec) (nonempty : first ≠ []) (second : Bytes)
    (stopped : (feed codec first).1.isOk = true → finished (feed codec first).2 = true) :
    denote codec (first ++ second) = (feed codec first).1 := by
  have alone : ∀ rest, feedTwice codec first rest = feed codec first := by
    intro rest
    unfold feedTwice
    rcases fed : feed codec first with ⟨fault | ⟨out, used⟩, next⟩
    · rfl
    · rw [fed] at stopped
      simp only [stopped rfl, if_true]
  have whole : Agrees (feed codec (first ++ second)) (feed codec first) := by
    cases second with
    | nil =>
      rw [List.append_nil]
      exact ⟨rfl, fun _ => ⟨rfl, fun _ => rfl⟩⟩
    | cons byte others =>
      rw [← alone (byte :: others)]
      exact divides first _ nonempty (List.cons_ne_nil _ _)
  have filled : (first ++ second).isEmpty = false := by simp [nonempty]
  unfold denote
  rw [filled, if_neg Bool.false_ne_true]
  obtain ⟨same, agrees⟩ := whole
  rcases fed : feed codec (first ++ second) with ⟨fault | ⟨out, used⟩, next⟩
  · rw [fed] at same
    exact same
  · rw [fed] at same agrees
    have done : finished next = true := by
      rw [(agrees rfl).1]
      exact stopped (by rw [← same]; rfl)
    simp only [done, if_true]
    exact same

/-- **Every cut gives the same.** A codec that keeps its contract makes of a course what it makes of
its bytes at once: the same bytes, leaving the same of them, or the same fault. -/
theorem through_denote (meets : Meets codec) (supply : Course) (sound : supply.fault = none) :
    match denote codec supply.bytes with
    | .error fault => (supply.through codec).fault = some fault
    | .ok (out, used) =>
      ((supply.through codec).bytes = out ∧ (supply.through codec).fault = none) ∧
        ((supply.beyond codec).bytes = supply.bytes.drop used.toNat ∧
          (supply.beyond codec).fault = none) := by
  induction supply generalizing codec with
  | failed fault => cases sound
  | ended =>
    rw [Course.bytes, denote_nil, Course.through]
    rcases (finish codec).1 with fault | last
    · rfl
    · exact ⟨⟨by rw [Course.bytes_push, Course.bytes, List.append_nil], Course.fault_push _ _⟩,
        rfl, rfl⟩
  | piece byte others later hypothesis =>
    obtain ⟨uses, divides⟩ := meets codec .refl
    have nonempty : byte :: others ≠ [] := List.cons_ne_nil _ _
    rw [Course.bytes, Course.through, Course.beyond]
    rcases fed : feed codec (byte :: others) with ⟨fault | ⟨out, used⟩, next⟩
    · have stopped := denote_stopped divides nonempty later.bytes
        (by rw [fed]; exact fun wrong => by cases wrong)
      rw [fed] at stopped
      rw [stopped]
      rfl
    · obtain ⟨⟨nonnegative, within⟩, all⟩ := uses _ _ _ _ nonempty fed
      cases stops : finished next with
      | true =>
        have stopped := denote_stopped divides nonempty later.bytes
          (by rw [fed]; exact fun _ => stops)
        rw [fed] at stopped
        rw [stopped]
        simp only [stops, if_true]
        refine ⟨⟨by rw [Course.bytes_push, Course.bytes, List.append_nil],
          Course.fault_push _ _⟩, ?_, (Course.fault_push _ _).trans sound⟩
        show (Course.push _ later).bytes = _
        rw [Course.bytes_push, List.drop_append_of_le_length (by omega)]
      | false =>
        have goes : Goes codec next := ⟨_, _, _, nonempty, fed, stops⟩
        have rest := hypothesis (meets.goes goes) sound
        rw [denote_append divides nonempty fed stops]
        simp only [stops, Bool.false_eq_true, if_false]
        rcases denoted : denote next later.bytes with fault | ⟨more, count⟩
        · rw [denoted] at rest
          exact (Course.fault_push _ _).trans rest
        · rw [denoted] at rest
          obtain ⟨⟨bytes, none⟩, left, sane⟩ := rest
          have counted := denote_uses (meets next (.single goes)).1 denoted
          have gone : (used + count).toNat = (byte :: others).length + count.toNat := by
            rw [all stops]
            omega
          refine ⟨⟨?_, (Course.fault_push _ _).trans none⟩, ?_, sane⟩
          · rw [Course.bytes_push, bytes]
          · rw [left, gone, ← List.drop_drop, List.drop_left]

end WireProgram.ChunkCodec
