/-
**What a source still has to give, however its input is cut into chunks.**

The bytes that a source holds and those of the replies to come are one byte string. A source is fair
if every reply to come is a string of bytes and none of them is empty; then pulling only moves bytes
from the replies to the buffer. The main statements:

* `Source.rest` and `Source.Fair`;
* `Source.pullUntil_fair`, pulling from a fair source: nothing is lost, and as many bytes are held
  as were wanted, if there are as many;
* `Input.Delivers`, a raw input that hands out a byte string, and `Input.ofBytes_delivers`: cutting
  into pieces of any positive size does so.
-/

import Mathlib.Tactic.Common
import WireProgram.Stream

namespace WireProgram

/-! ### Replies -/

/-- The bytes of a reply. -/
def Chunk.content : Chunk → Bytes
  | .bytes content => content
  | _ => []

theorem Chunk.size_eq (chunk : Chunk) : chunk.size = chunk.content.length := by
  cases chunk <;> rfl

/-- Whether a reply has bytes: it is neither the end of the input nor a failure. -/
def Chunk.Solid : Chunk → Prop
  | .bytes content => content ≠ []
  | _ => False

/-- The bytes that may still come from an input. -/
def Input.content (input : Input) : Bytes :=
  input.pending.flatMap Chunk.content

theorem Input.remaining_eq (input : Input) : input.remaining = input.content.length := by
  unfold Input.remaining Input.content
  induction input.pending with
  | nil => rfl
  | cons chunk rest hypothesis =>
    rw [List.map_cons, List.foldr_cons, hypothesis, List.flatMap_cons, List.length_append,
      Chunk.size_eq]

/-- A raw input that hands out a byte string: no reply is empty before all bytes are there. -/
structure Input.Delivers (input : Input) (bytes : Bytes) : Prop where
  solid : ∀ chunk ∈ input.pending, chunk.Solid
  content : input.content = bytes

theorem Input.split_delivers (size fuel pulled : Nat) (bytes : Bytes) (positive : 0 < size)
    (enough : bytes.length ≤ fuel) : Input.Delivers ⟨Input.split size fuel bytes, pulled⟩ bytes := by
  induction fuel generalizing bytes with
  | zero =>
    have empty : bytes = [] := List.length_eq_zero_iff.mp (by omega)
    subst empty
    exact ⟨nofun, rfl⟩
  | succ fuel hypothesis =>
    cases bytes with
    | nil => exact ⟨nofun, rfl⟩
    | cons byte others =>
      have shorter : ((byte :: others).drop size).length ≤ fuel := by
        rw [List.length_drop]
        rw [List.length_cons] at enough ⊢
        omega
      obtain ⟨solid, content⟩ := hypothesis ((byte :: others).drop size) shorter
      have first : (byte :: others).take size ≠ [] := by
        obtain ⟨less, rfl⟩ : ∃ less, size = less + 1 := ⟨size - 1, by omega⟩
        simp
      refine ⟨?_, ?_⟩
      · intro chunk member
        rcases List.mem_cons.mp member with rfl | later
        · exact first
        · exact solid chunk later
      · show (byte :: others).take size ++ Input.content ⟨_, pulled⟩ = _
        rw [content, List.take_append_drop]

/-- **Cutting delivers.** Pieces of any positive size hand out the whole byte string. -/
theorem Input.ofBytes_delivers (size : Int) (bytes : Bytes) (positive : 0 < size) :
    (Input.ofBytes size bytes).Delivers bytes := by
  unfold Input.ofBytes
  rw [if_neg (by omega), if_neg (by omega)]
  exact Input.split_delivers size.toNat bytes.length 0 bytes (by omega) (Nat.le_refl _)

/-! ### Sources -/

namespace Source

/-- The bytes that a source still has to give: those that it holds and those to come. -/
def rest (source : Source) : Bytes :=
  source.buffer.content ++ source.input.content

/-- A source whose replies to come all have bytes; one that has ended has no more. -/
structure Fair (source : Source) : Prop where
  solid : ∀ chunk ∈ source.input.pending, chunk.Solid
  ended : source.buffer.ended = true → source.input.pending = []

/-- What pulling does to a source: the same bytes are still to come, and enough of them are held. -/
structure Pulled (want : Nat) (before after : Source) : Prop where
  fair : after.Fair
  rest : after.rest = before.rest
  position : after.buffer.position = before.buffer.position
  enough : min want after.rest.length ≤ after.buffer.content.length

theorem length_rest (source : Source) :
    source.rest.length = source.buffer.content.length + source.input.remaining := by
  rw [rest, List.length_append, Input.remaining_eq]

theorem held_front (source : Source) : source.buffer.content <+: source.rest :=
  List.prefix_append _ _

/-- Nothing but the held bytes is left once no reply is to come. -/
theorem rest_of_settled {source : Source} (settled : source.input.pending = []) :
    source.rest = source.buffer.content := by
  unfold rest Input.content
  rw [settled, List.flatMap_nil, List.append_nil]

theorem pullFrom_fair (own : Execution) (want : Nat) (pending : List Chunk) (buffer : Buffer)
    (pulled : Nat) (fair : Fair ⟨buffer, ⟨pending, pulled⟩⟩) :
    ∃ after, pullFrom own own want pending buffer pulled = (.ok (), after) ∧
      Pulled want ⟨buffer, ⟨pending, pulled⟩⟩ after := by
  induction pending generalizing buffer pulled with
  | nil =>
    unfold pullFrom
    split
    · refine ⟨_, rfl, fair, rfl, rfl, ?_⟩
      rw [rest_of_settled rfl]
      exact Nat.min_le_right _ _
    · rw [if_neg (not_not_intro rfl)]
      refine ⟨_, rfl, ⟨nofun, fun _ => rfl⟩, rfl, rfl, ?_⟩
      rw [rest_of_settled rfl]
      exact Nat.min_le_right _ _
  | cons chunk later hypothesis =>
    unfold pullFrom
    split
    · rename_i full
      refine ⟨_, rfl, fair, rfl, rfl, ?_⟩
      -- the buffer has not ended, since a reply is to come
      have open_ : buffer.ended = false := by
        rw [← Bool.not_eq_true]
        exact fun ended => List.cons_ne_nil _ _ (fair.ended ended)
      rw [open_, Bool.false_or, Buffer.holds, hasAtLeast_eq, decide_eq_true_eq] at full
      exact Nat.le_trans (Nat.min_le_left _ _) full
    · rename_i notFull
      rw [if_neg (not_not_intro rfl)]
      have solid := fair.solid chunk (List.mem_cons_self ..)
      cases chunk with
      | bytes content =>
        have filled : content.isEmpty = false := by
          cases content with
          | nil => exact absurd rfl solid
          | cons byte others => rfl
        have open_ : buffer.ended = false := by
          rw [← Bool.not_eq_true]
          exact fun ended => List.cons_ne_nil _ _ (fair.ended ended)
        have moved : rest ⟨buffer.append content, ⟨later, pulled + content.length⟩⟩ =
            rest ⟨buffer, ⟨.bytes content :: later, pulled⟩⟩ := by
          unfold rest Input.content Buffer.append
          rw [List.flatMap_cons, Chunk.content, List.append_assoc]
        have stillFair : Fair ⟨buffer.append content, ⟨later, pulled + content.length⟩⟩ :=
          ⟨fun chunk member => fair.solid chunk (List.mem_cons_of_mem _ member), fun ended => by
            rw [show (buffer.append content).ended = buffer.ended from rfl, open_] at ended
            exact absurd ended Bool.false_ne_true⟩
        obtain ⟨after, same, fairAfter, restAfter, positionAfter, enough⟩ :=
          hypothesis (buffer.append content) (pulled + content.length) stillFair
        simp only [filled, Bool.false_eq_true, if_false]
        exact ⟨after, same, fairAfter, restAfter.trans moved, positionAfter, enough⟩
      | absent => exact solid.elim
      | failure reason => exact solid.elim

/-- **Pulling from a fair source.** It never fails, and the same bytes are still to come. -/
theorem pullUntil_fair (own : Execution) (want : Nat) (source : Source) (fair : source.Fair) :
    ∃ after, source.pullUntil own own want = (.ok (), after) ∧ Pulled want source after :=
  pullFrom_fair own want source.input.pending source.buffer source.input.pulled fair

/-- A source that was just opened over an input has all of its bytes still to give. -/
theorem opened_fair {input : Input} {bytes : Bytes} (delivers : input.Delivers bytes) :
    Fair { input := input } ∧ rest { input := input } = bytes :=
  ⟨⟨delivers.solid, fun ended => absurd ended Bool.false_ne_true⟩, delivers.content⟩

end Source

end WireProgram
