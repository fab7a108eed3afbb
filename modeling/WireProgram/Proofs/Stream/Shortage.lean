/-
**Reads that fall short.**

A bound that is asked for more than it allows peeks at what it has, and one that allows enough passes
the read on, so that the bytes may be too few for its own sake or for that of any view under it. In
all cases the same is told, and nothing is taken. The main definitions and statements:

* `View.near`, a view and the views under its bounds;
* `View.Stays`, a change of the streams after which these stand where they stood;
* `View.fillBuf_stays` and `View.readExact_stays`, for peeking and for a read that falls short;
* `View.readExact_shortage`, when a read falls short, what it tells and what it leaves.
-/

import WireProgram.Proofs.Codec.Groups
import WireProgram.Proofs.Stream.Offer

namespace WireProgram.View

variable {κ : Type} [ChunkCodec κ] {streams before after : Streams κ} {view parent : View}
  {content bytes : Bytes} {cell want count : Nat}

/-- A view and the views under its bounds, down to the first that is none: a root or a transformed
view. -/
def near : View → List View
  | .take cell parent => .take cell parent :: parent.near
  | view => [view]

/-- A change of the streams after which a view and the views under its bounds stand where they stood,
with what the bounds still allow. -/
structure Stays (view : View) (before after : Streams κ) : Prop where
  position : ∀ layer ∈ view.near, layer.position after = layer.position before
  left : ∀ cell parent, .take cell parent ∈ view.near →
    (after.bounds.get cell).left = (before.bounds.get cell).left

omit [ChunkCodec κ] in
theorem Stays.refl (view : View) (streams : Streams κ) : view.Stays streams streams :=
  ⟨fun _ _ => rfl, fun _ _ _ => rfl⟩

omit [ChunkCodec κ] in
/-- A bound stands where it stood if its cell is not touched. -/
theorem Stays.take (stays : parent.Stays before after)
    (bound : after.bounds.get cell = before.bounds.get cell) :
    (View.take cell parent).Stays before after := by
  constructor
  · intro layer member
    rcases List.mem_cons.mp member with rfl | under
    · exact congrArg Bound.position bound
    · exact stays.position layer under
  · intro other under member
    rcases List.mem_cons.mp member with same | deeper
    · cases same
      exact congrArg Bound.left bound
    · exact stays.left other under deeper

/-- A view that is no bound stands where it stood if it gave nothing. -/
theorem Gave.stays (gave : view.Gave 0 before after) (alone : view.near = [view])
    (unbounded : ∀ cell parent, view ≠ .take cell parent) : view.Stays before after := by
  constructor
  · intro layer member
    rw [alone, List.mem_singleton] at member
    subst member
    exact gave.position
  · intro cell parent member
    rw [alone, List.mem_singleton] at member
    exact absurd member.symm (unbounded cell parent)

/-! ### Peeking -/

/-- Peeking gives nothing. -/
theorem gave_of_fillBuf (ready : view.Ready before)
    (ran : (view.fillBuf want).run before = (.ok bytes, after)) : view.Gave 0 before after := by
  obtain ⟨result, final, same, fills⟩ := fillBuf_gave ready want
  rw [ran] at same
  cases same
  exact fills.2.1

/-- **Peeking** moves neither a view nor those under its bounds. -/
theorem fillBuf_stays (ready : view.Ready before)
    (ran : (view.fillBuf want).run before = (.ok bytes, after)) : view.Stays before after := by
  induction view generalizing want bytes with
  | source own cell => exact (gave_of_fillBuf ready ran).stays rfl nofun
  | cursor cell => exact (gave_of_fillBuf ready ran).stays rfl nofun
  | transformed cell parent => exact (gave_of_fillBuf ready ran).stays rfl nofun
  | take cell parent hypothesis =>
    rw [run_fillBuf_take] at ran
    split at ran
    · cases ran
      exact .refl _ _
    · rcases peeked : (parent.fillBuf _).run before with ⟨fault | available, middle⟩
      · rw [peeked] at ran
        cases ran
      · rw [peeked] at ran
        cases ran
        exact (hypothesis ready.2 peeked).take
          ((gave_of_fillBuf ready.2 peeked).within.bounds cell ready.1)

/-- Peeking at a view that offers bytes does not fail. -/
theorem Offers.fillBuf_ok (offers : view.Offers content streams) (want : Nat) :
    ∃ bytes after, (view.fillBuf want).run streams = (.ok bytes, after) := by
  obtain ⟨result, after, ran, fills⟩ := fillBuf_gave offers.ready want
  cases result with
  | error fault =>
    have comes := fills.1
    rw [offers.sound] at comes
    cases comes
  | ok bytes => exact ⟨bytes, after, ran⟩

/-! ### Reading -/

/-- What lies under a bound offers the same bytes if the bound allows more. -/
theorem Offers.under (offers : (View.take cell parent).Offers content streams)
    (more : content.length < (streams.bounds.get cell).left.toNat) :
    parent.Offers content streams := by
  obtain ⟨⟨-, ready⟩, bytes, sound⟩ := offers
  rw [course_take, Course.bytes_cut] at bytes
  rw [course_take, Course.fault_cut] at sound
  have fewer : (parent.course streams).bytes.length < (streams.bounds.get cell).left.toNat := by
    have cut := congrArg List.length bytes
    rw [List.length_take] at cut
    omega
  rw [List.take_of_length_le (Nat.le_of_lt fewer)] at bytes
  rw [if_neg (Nat.not_le_of_lt fewer)] at sound
  exact ⟨ready, bytes, sound⟩

/-- A read that falls short gives nothing, and tells how many bytes there are. -/
theorem Offers.falls_short (offers : view.Offers content streams)
    (short : content.length < count) :
    ∃ after, (view.readExact count).run streams =
        (.error (.decode (.shortRead count content.length)), after) ∧
      view.Gave 0 streams after := by
  obtain ⟨after, ran, gave⟩ := offers.readExact count
  rw [exactly, if_neg (Nat.not_le_of_lt short)] at ran
  rw [spentBy, if_neg (Nat.not_le_of_lt short)] at gave
  exact ⟨after, ran, gave⟩

/-- **A read that falls short** moves neither a view nor those under its bounds. -/
theorem Offers.readExact_stays {result : Except Fault Bytes}
    (offers : view.Offers content streams) (short : content.length < count)
    (ran : (view.readExact count).run streams = (result, after)) : view.Stays streams after := by
  obtain ⟨final, falls, gave⟩ := offers.falls_short short
  rw [ran] at falls
  cases falls
  induction view with
  | source own cell => exact gave.stays rfl nofun
  | cursor cell => exact gave.stays rfl nofun
  | transformed cell parent => exact gave.stays rfl nofun
  | take cell parent hypothesis =>
    rw [run_readExact_take] at ran
    split at ran
    · -- The bound allows less: the view only peeks.
      obtain ⟨available, middle, peeked⟩ := offers.fillBuf_ok (count : Int).toNat
      rw [if_neg (by omega), if_neg (by omega), peeked] at ran
      obtain rfl : middle = after := congrArg Prod.snd ran
      exact fillBuf_stays offers.ready peeked
    · -- The bound allows enough: what lies under it falls short of the same bytes.
      have under := offers.under (by omega)
      obtain ⟨middle, falls, gave'⟩ := under.falls_short short
      rw [falls] at ran
      obtain rfl : middle = after := congrArg Prod.snd ran
      exact (hypothesis under falls gave').take (gave'.within.bounds cell offers.ready.1)

/-- **A short read consumes nothing.** A read of so many bytes fails exactly if the view has fewer. It
tells how many are needed and how many there are; the view and all views under its bounds, down to
the first that is transformed, stand where they stood, the bounds allow what they allowed, and
reading to the end then gives all bytes of the view. -/
theorem readExact_shortage (ready : view.Ready streams)
    (gives : (view.readToEnd.run streams).1 = .ok content) (count : Nat) :
    ∃ result after, (view.readExact count).run streams = (result, after) ∧
      (result.isOk = false ↔ content.length < count) ∧
      (count ≤ content.length → result = .ok (content.take count)) ∧
      (content.length < count →
        result = .error (.decode (.shortRead count content.length)) ∧
        view.Stays streams after ∧ (view.readToEnd.run after).1 = .ok content) := by
  have offers := offers_of_gives ready gives
  rcases Nat.lt_or_ge content.length count with short | enough
  · obtain ⟨after, ran, gave⟩ := offers.falls_short short
    refine ⟨_, after, ran, iff_of_true rfl short, fun enough => by omega, fun _ => ⟨rfl, ?_, ?_⟩⟩
    · exact offers.readExact_stays short ran
    · exact (gave.offers offers).gives
  · obtain ⟨after, ran, -⟩ := offers.readExact count
    rw [exactly, if_pos enough] at ran
    refine ⟨_, after, ran, iff_of_false (Bool.noConfusion ·) (by omega), fun _ => rfl, ?_⟩
    exact fun short => by omega

/-- Three bytes, decoded from text in two chunks, under a bound of seven and a bound of nine: too few for
a read that both bounds allow, for one that the outer bound allows, and for one that none allows. -/
theorem readExact_shortage_of_bounds :
    let root := ({} : Streams Codec).openSource .blocking (Input.ofBytes 2 [81, 85, 74, 68])
    let decoded := root.2.openTransformed root.1 (.base64 [])
    let inner := decoded.2.openTake decoded.1 7
    let outer := inner.2.openTake inner.1 9
    let falls (count : Nat) :=
      ∃ after, (outer.1.readExact count).run outer.2 =
          (.error (.decode (.shortRead count 3)), after) ∧
        outer.1.Stays outer.2 after ∧ (outer.1.readToEnd.run after).1 = .ok [65, 66, 67]
    outer.1.Ready outer.2 ∧ (outer.1.readToEnd.run outer.2).1 = .ok [65, 66, 67] ∧
      falls 4 ∧ falls 8 ∧ falls 10 := by
  intro root decoded inner outer falls
  have ready : outer.1.Ready outer.2 := by
    refine ⟨by decide, by decide, by decide, trivial, nofun, _, rfl, fun _ => ?_⟩
    exact Codec.base64_greedy []
  have gives : (outer.1.readToEnd.run outer.2).1 = .ok [65, 66, 67] :=
    Offers.gives ⟨ready, rfl, rfl⟩
  have short (count : Nat) (more : 3 < count) : falls count := by
    obtain ⟨result, after, ran, -, -, tells⟩ := readExact_shortage ready gives count
    obtain ⟨rfl, stays, again⟩ := tells more
    exact ⟨after, ran, stays, again⟩
  exact ⟨ready, gives, short 4 (by decide), short 8 (by decide), short 10 (by decide)⟩

/-- A negative number of bytes is refused before anything is done. -/
theorem readExact_negative {count : Int} (negative : count < 0) (view : View)
    (streams : Streams κ) :
    (view.readExact count).run streams = (.error (.misuse (.negativeRead count)), streams) := by
  induction view with
  | source own cell => rw [readExact, if_pos negative]; rfl
  | cursor cell => rw [readExact, if_pos negative]; rfl
  | transformed cell parent => rw [readExact, if_pos negative]; rfl
  | take cell parent hypothesis =>
    rw [run_readExact_take, if_pos negative, hypothesis]
    exact ite_self _

end WireProgram.View
