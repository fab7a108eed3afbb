/-
**Courses: bytes that come in pieces.**

What a codec is fed with are the pieces that its parent happens to hold, so a statement on codecs has
to say how the bytes of a view come, not only which bytes they are. A course is a sequence of pieces
that ends, or that ends with a fault; no piece of it is empty. The main definitions and statements:

* `Course`, with `Course.bytes` and `Course.fault`;
* `Course.cut`, the course of a bounded view;
* `Course.through`, what a codec makes of a course, and `Course.beyond`, what it leaves of it;
* `Coding.prepare`, a codec that is fed until so much is held: `Coding.prepare_one` for one more
  piece, `Coding.prepare_keeps` for any number of bytes.
-/

import Mathlib.Logic.Relation
import Mathlib.Tactic.Common
import WireProgram.Stream

namespace WireProgram

/-- The pieces in which bytes come. -/
inductive Course where
  /-- Nothing more comes. -/
  | ended
  /-- A fault comes. -/
  | failed (fault : Fault)
  /-- A piece comes, and then others. -/
  | piece (first : UInt8) (others : Bytes) (later : Course)

namespace Course

/-- Some bytes before a course; without any it is the course itself. -/
def push : Bytes → Course → Course
  | [], later => later
  | first :: others, later => .piece first others later

/-- All bytes that come. -/
def bytes : Course → Bytes
  | .ended | .failed _ => []
  | .piece first others later => first :: others ++ later.bytes

/-- The fault that comes in the end. -/
def fault : Course → Option Fault
  | .ended => none
  | .failed fault => some fault
  | .piece _ _ later => later.fault

/-- The number of pieces. -/
def length : Course → Nat
  | .ended | .failed _ => 0
  | .piece _ _ later => later.length + 1

/-- What a peek sees: the first piece, or nothing at the end. -/
def front : Course → Except Fault Bytes
  | .ended => .ok []
  | .failed fault => .error fault
  | .piece first others _ => .ok (first :: others)

/-- The course after some bytes of the first piece were dropped. -/
def drop (count : Nat) : Course → Course
  | .piece first others later => push ((first :: others).drop count) later
  | course => course

/-- At most so many bytes of a course. A fault beyond them does not come. -/
def cut : Nat → Course → Course
  | _, .ended => .ended
  | left, .failed fault => if left = 0 then .ended else .failed fault
  | left, .piece first others later =>
    push ((first :: others).take left) (cut (left - (first :: others).length) later)

variable {course : Course} {count left : Nat}

/-! ### Pushing -/

@[simp]
theorem bytes_push (bytes : Bytes) (later : Course) :
    (push bytes later).bytes = bytes ++ later.bytes := by
  cases bytes <;> rfl

@[simp]
theorem fault_push (bytes : Bytes) (later : Course) : (push bytes later).fault = later.fault := by
  cases bytes <;> rfl

theorem length_push_le (bytes : Bytes) (later : Course) :
    (push bytes later).length ≤ later.length + 1 := by
  cases bytes with
  | nil => exact Nat.le_succ _
  | cons first others => exact Nat.le_refl _

theorem front_push {bytes : Bytes} (nonempty : bytes ≠ []) (later : Course) :
    (push bytes later).front = .ok bytes := by
  cases bytes with
  | nil => exact absurd rfl nonempty
  | cons first others => rfl

/-! ### Cutting -/

theorem cut_zero (course : Course) : course.cut 0 = .ended := by
  induction course with
  | ended => rfl
  | failed fault => rfl
  | piece first others later hypothesis =>
    show push [] (later.cut (0 - _)) = _
    rw [Nat.zero_sub]
    exact hypothesis

theorem cut_push (left : Nat) (bytes : Bytes) (later : Course) :
    (push bytes later).cut left = push (bytes.take left) (later.cut (left - bytes.length)) := by
  cases bytes with
  | nil =>
    rw [List.take_nil]
    rfl
  | cons first others => rfl

theorem front_cut (positive : 0 < left) :
    (course.cut left).front = course.front.map (·.take left) := by
  cases course with
  | ended => exact congrArg Except.ok List.take_nil.symm
  | failed fault =>
    rw [cut, if_neg (Nat.ne_of_gt positive)]
    rfl
  | piece first others later =>
    refine front_push ?_ _
    obtain ⟨less, rfl⟩ : ∃ less, left = less + 1 := ⟨left - 1, by omega⟩
    exact List.cons_ne_nil _ _

theorem length_cut_le (left : Nat) (course : Course) : (course.cut left).length ≤ course.length := by
  induction course generalizing left with
  | ended => exact Nat.le_refl _
  | failed fault =>
    unfold cut
    split <;> exact Nat.le_refl _
  | piece first others later hypothesis =>
    exact Nat.le_trans (length_push_le _ _) (Nat.succ_le_succ (hypothesis _))

/-- Cutting a course without a fault cuts its bytes. -/
theorem cut_sound (left : Nat) (sound : course.fault = none) :
    (course.cut left).bytes = course.bytes.take left ∧ (course.cut left).fault = none := by
  induction course generalizing left with
  | ended => exact ⟨List.take_nil.symm, rfl⟩
  | failed fault => cases sound
  | piece first others later hypothesis =>
    obtain ⟨bytes, none⟩ := hypothesis (left - (first :: others).length) sound
    refine ⟨?_, (fault_push _ _).trans none⟩
    rw [cut, bytes_push, bytes, Course.bytes, List.take_append]

/-! ### Codecs on courses -/

section Codecs

variable {κ : Type} [ChunkCodec κ]

/-- What comes out of a codec that is fed with the pieces of a course. -/
def through (codec : κ) : Course → Course
  | .ended =>
    match (ChunkCodec.finish codec).1 with
    | .ok bytes => push bytes .ended
    | .error fault => .failed fault
  | .failed fault => .failed fault
  | .piece first others later =>
    match ChunkCodec.feed codec (first :: others) with
    | (.error fault, _) => .failed fault
    | (.ok (bytes, _), next) =>
      push bytes (if ChunkCodec.finished next then .ended else later.through next)

/-- What a codec leaves of a course once it is finished; it takes in all pieces before. -/
def beyond (codec : κ) : Course → Course
  | .piece first others later =>
    match ChunkCodec.feed codec (first :: others) with
    | (.error fault, _) => .failed fault
    | (.ok (_, used), next) =>
      if ChunkCodec.finished next then (piece first others later).drop used.toNat
      else later.beyond next
  | course => course

theorem length_through_le (codec : κ) (course : Course) :
    (course.through codec).length ≤ course.length + 1 := by
  induction course generalizing codec with
  | ended =>
    unfold through
    split
    · exact length_push_le _ _
    · exact Nat.zero_le _
  | failed fault => exact Nat.zero_le _
  | piece first others later hypothesis =>
    unfold through
    split
    · exact Nat.zero_le _
    · refine Nat.le_trans (length_push_le _ _) (Nat.succ_le_succ ?_)
      split
      · exact Nat.zero_le _
      · exact hypothesis _

end Codecs

end Course

/-! ### Feeding a codec -/

/-- A codec at work. -/
structure Coding (κ : Type) where
  /-- What it has given and nobody took. -/
  held : Bytes
  codec : κ
  /-- Whether it is finished, or its input has ended. -/
  finished : Bool
  /-- What it can still be fed with. -/
  supply : Course

namespace Coding

variable {κ : Type} [ChunkCodec κ] {want : Nat}

/-- What comes after that which is held. -/
def later (coding : Coding κ) : Course :=
  if coding.finished then .ended else coding.supply.through coding.codec

/-- What will be left of its input once the codec is finished. -/
def residue (coding : Coding κ) : Course :=
  if coding.finished then coding.supply else coding.supply.beyond coding.codec

/-- Feeds a codec until so many bytes are held or no more will come. -/
def fill (want : Nat) (held : Bytes) (codec : κ) : Course → Except Fault Unit × Coding κ
  | .ended =>
    if want ≤ held.length then (.ok (), ⟨held, codec, false, .ended⟩)
    else
      match ChunkCodec.finish codec with
      | (.ok bytes, next) => (.ok (), ⟨held ++ bytes, next, true, .ended⟩)
      | (.error fault, next) => (.error fault, ⟨held, next, true, .ended⟩)
  | .failed fault =>
    (if want ≤ held.length then .ok () else .error fault, ⟨held, codec, false, .failed fault⟩)
  | .piece first others later =>
    if want ≤ held.length then (.ok (), ⟨held, codec, false, .piece first others later⟩)
    else
      match ChunkCodec.feed codec (first :: others) with
      | (.error fault, next) => (.error fault, ⟨held, next, false, .piece first others later⟩)
      | (.ok (bytes, used), next) =>
        if ChunkCodec.finished next then
          (.ok (), ⟨held ++ bytes, next, true, (Course.piece first others later).drop used.toNat⟩)
        else fill want (held ++ bytes) next later

/-- Nothing is fed if enough is held. -/
theorem fill_enough {held : Bytes} (enough : want ≤ held.length) (codec : κ) (supply : Course) :
    fill want held codec supply = (.ok (), ⟨held, codec, false, supply⟩) := by
  cases supply <;> simp [fill, enough]

/-- Feeding for one more piece gives the next piece that comes out, and no more. -/
theorem fill_one (codec : κ) (supply : Course) :
    match (fill 1 [] codec supply).1 with
    | .error fault => supply.through codec = .failed fault
    | .ok _ =>
      let coding := (fill 1 [] codec supply).2
      supply.through codec = .push coding.held coding.later ∧
        (coding.held = [] → coding.finished = true) := by
  have none : ¬1 ≤ ([] : Bytes).length := by decide
  induction supply generalizing codec with
  | ended =>
    unfold fill Course.through
    rw [if_neg none]
    rcases ChunkCodec.finish codec with ⟨fault | bytes, next⟩
    · rfl
    · exact ⟨rfl, fun _ => rfl⟩
  | failed fault => rfl
  | piece first others later hypothesis =>
    unfold fill Course.through
    rw [if_neg none]
    rcases ChunkCodec.feed codec (first :: others) with ⟨fault | ⟨bytes, used⟩, next⟩
    · rfl
    · dsimp only
      by_cases finished : ChunkCodec.finished next = true
      · rw [if_pos finished, if_pos finished]
        exact ⟨rfl, fun _ => rfl⟩
      · rw [if_neg finished, if_neg finished]
        cases bytes with
        | nil => exact hypothesis next
        | cons byte more =>
          rw [List.nil_append, fill_enough (Nat.succ_le_succ (Nat.zero_le _))]
          refine ⟨?_, fun wrong => by cases wrong⟩
          show _ = Course.push _ (if false = true then _ else _)
          rw [if_neg Bool.false_ne_true]

/-- Feeding for so many bytes keeps what is still to come, in fewer pieces. It fails only if the fault
comes before as many bytes. -/
theorem fill_keeps (want : Nat) (held : Bytes) (codec : κ) (supply : Course) :
    let course := Course.push held (supply.through codec)
    match (fill want held codec supply).1 with
    | .error fault => course.fault = some fault ∧ course.bytes.length < want
    | .ok _ =>
      let coding := (fill want held codec supply).2
      (coding.held ++ coding.later.bytes = course.bytes ∧ coding.later.fault = course.fault) ∧
        (want ≤ coding.held.length ∨ coding.finished = true) := by
  induction supply generalizing codec held with
  | ended =>
    unfold fill
    by_cases enough : want ≤ held.length
    · rw [if_pos enough]
      exact ⟨⟨(Course.bytes_push _ _).symm, (Course.fault_push _ _).symm⟩, .inl enough⟩
    · rw [if_neg enough]
      unfold Course.through
      rcases ChunkCodec.finish codec with ⟨fault | bytes, next⟩
      · refine ⟨Course.fault_push _ _, ?_⟩
        rw [Course.bytes_push, Course.bytes, List.append_nil]
        omega
      · refine ⟨⟨?_, ?_⟩, .inr rfl⟩
        · simp only [Course.bytes_push, later, Course.bytes, if_true, List.append_nil]
        · simp only [Course.fault_push, later, if_true]
  | failed fault =>
    unfold fill
    by_cases enough : want ≤ held.length
    · rw [if_pos enough]
      exact ⟨⟨(Course.bytes_push _ _).symm, (Course.fault_push _ _).symm⟩, .inl enough⟩
    · rw [if_neg enough]
      refine ⟨Course.fault_push _ _, ?_⟩
      rw [Course.bytes_push, Course.through, Course.bytes, List.append_nil]
      omega
  | piece first others supply hypothesis =>
    unfold fill
    by_cases enough : want ≤ held.length
    · rw [if_pos enough]
      exact ⟨⟨(Course.bytes_push _ _).symm, (Course.fault_push _ _).symm⟩, .inl enough⟩
    · rw [if_neg enough]
      unfold Course.through
      rcases ChunkCodec.feed codec (first :: others) with ⟨fault | ⟨bytes, used⟩, next⟩
      · refine ⟨Course.fault_push _ _, ?_⟩
        rw [Course.bytes_push, Course.bytes, List.append_nil]
        omega
      · dsimp only
        by_cases finished : ChunkCodec.finished next = true
        · rw [if_pos finished, if_pos finished]
          refine ⟨⟨?_, ?_⟩, .inr rfl⟩
          · simp only [Course.bytes_push, later, Course.bytes, if_true, List.append_nil]
          · simp only [Course.fault_push, later, if_true]
        · rw [if_neg finished, if_neg finished]
          have others := hypothesis (held ++ bytes) next
          simp only [Course.bytes_push, Course.fault_push, List.append_assoc] at others ⊢
          exact others

/-- What a codec leaves does not depend on when it is fed. -/
theorem fill_residue (want : Nat) (held : Bytes) (codec : κ) (supply : Course)
    (filled : (fill want held codec supply).1 = .ok ()) :
    (fill want held codec supply).2.residue = supply.beyond codec := by
  induction supply generalizing codec held with
  | ended =>
    unfold fill at filled ⊢
    split
    · rfl
    · rcases ChunkCodec.finish codec with ⟨fault | bytes, next⟩ <;> rfl
  | failed fault => rfl
  | piece first others supply hypothesis =>
    unfold fill at filled ⊢
    by_cases enough : want ≤ held.length
    · rw [if_pos enough]
      rfl
    · rw [if_neg enough] at filled ⊢
      unfold Course.beyond
      rcases same : ChunkCodec.feed codec (first :: others) with ⟨fault | ⟨bytes, used⟩, next⟩
      · rw [same] at filled
        cases filled
      · rw [same] at filled
        dsimp only at filled ⊢
        by_cases finished : ChunkCodec.finished next = true
        · rw [if_pos finished, if_pos finished]
          rfl
        · rw [if_neg finished] at filled ⊢
          rw [if_neg finished]
          exact hypothesis _ _ filled

/-- What comes out of a codec at work: what it holds and what comes after. -/
def course (coding : Coding κ) : Course :=
  .push coding.held coding.later

/-- Feeds a codec that wants more until so many bytes are held. -/
def prepare (want : Nat) (coding : Coding κ) : Except Fault Unit × Coding κ :=
  if coding.finished then (.ok (), coding) else fill want coding.held coding.codec coding.supply

theorem prepare_wanting (want : Nat) (held : Bytes) (codec : κ) (supply : Course) :
    prepare want ⟨held, codec, false, supply⟩ = fill want held codec supply := rfl

/-- **One more piece.** What comes out stays the same, piece by piece, and the first piece is held. -/
theorem prepare_one (coding : Coding κ) :
    match (coding.prepare 1).1 with
    | .error fault => coding.course.front = .error fault
    | .ok _ =>
      coding.course = (coding.prepare 1).2.course ∧
        coding.course.front = .ok (coding.prepare 1).2.held := by
  obtain ⟨held, codec, finished, supply⟩ := coding
  cases held with
  | cons first others =>
    have enough : 1 ≤ (first :: others).length := Nat.succ_le_succ (Nat.zero_le _)
    have still : prepare 1 ⟨first :: others, codec, finished, supply⟩ =
        (.ok (), ⟨first :: others, codec, finished, supply⟩) := by
      cases finished with
      | true => rfl
      | false => exact fill_enough enough codec supply
    rw [still]
    exact ⟨rfl, rfl⟩
  | nil =>
    cases finished with
    | true => exact ⟨rfl, rfl⟩
    | false =>
      have one := fill_one codec supply
      have same : course ⟨[], codec, false, supply⟩ = supply.through codec := rfl
      rw [same, prepare_wanting]
      cases ran : (fill 1 [] codec supply).1 with
      | error fault =>
        rw [ran] at one
        rw [one]
        rfl
      | ok done =>
        rw [ran] at one
        obtain ⟨comes, stops⟩ := one
        refine ⟨comes, ?_⟩
        rw [comes]
        by_cases empty : (fill 1 [] codec supply).2.held = []
        · rw [empty, later, stops empty]
          rfl
        · exact Course.front_push empty _

/-- **So many bytes.** The bytes that come out stay the same, and so does the fault after them; enough
of them are held, or the codec is finished. It fails only if the fault comes before. -/
theorem prepare_keeps (want : Nat) (coding : Coding κ) :
    match (coding.prepare want).1 with
    | .error fault => coding.course.fault = some fault ∧ coding.course.bytes.length < want
    | .ok _ =>
      let after := (coding.prepare want).2
      (after.course.bytes = coding.course.bytes ∧ after.course.fault = coding.course.fault) ∧
        (want ≤ after.held.length ∨ after.finished = true) := by
  obtain ⟨held, codec, finished, supply⟩ := coding
  cases finished with
  | true => exact ⟨⟨rfl, rfl⟩, .inr rfl⟩
  | false =>
    have keeps := fill_keeps want held codec supply
    rw [prepare_wanting]
    cases ran : (fill want held codec supply).1 with
    | error fault =>
      rw [ran] at keeps
      exact keeps
    | ok done =>
      rw [ran] at keeps
      obtain ⟨⟨bytes, fault⟩, enough⟩ := keeps
      exact ⟨⟨(Course.bytes_push _ _).trans bytes, (Course.fault_push _ _).trans fault⟩, enough⟩

/-- What a codec leaves of its input does not depend on when it is fed. -/
theorem prepare_residue (want : Nat) (coding : Coding κ)
    (filled : (coding.prepare want).1 = .ok ()) :
    (coding.prepare want).2.residue = coding.residue := by
  obtain ⟨held, codec, finished, supply⟩ := coding
  cases finished with
  | true => rfl
  | false => exact fill_residue want held codec supply filled

end Coding

end WireProgram
