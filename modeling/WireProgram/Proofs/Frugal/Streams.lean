/-
**Pulling no more than is consumed, operation by operation.**

A reader that asks for so many bytes pulls a chunk only while it holds fewer, so what it holds
afterwards is less than the last chunk and what it asked for. If it then consumes as much, the last
chunk was needed. Peeks ask for bytes that need not be consumed at once; what they may ask for is
limited by every bound of their view. The main definitions and statements:

* `Source.Fetched`, what was pulled of a source, up to a slack, and `Source.Fetched.settle`, which
  pays for the slack;
* `View.demand`, what a peek asks its root for;
* `View.Draws`, an operation through a view over the root;
* `View.Over.peek`, `View.Over.drop`, `View.Over.readExact`, `View.Over.readToEnd` and
  `View.Over.approach`, one for each operation.
-/

import WireProgram.Proofs.Stream.Alike

namespace WireProgram

/-! ### Sources -/

/--
What was pulled of a source that has not ended: nothing, or up to a last chunk without which fewer
bytes would be held than a slack. The bytes that were consumed since count as well.
-/
def Source.Fetched (slack : Nat) (before after : Source) : Prop :=
  after.buffer.ended = false → before.buffer.ended = false ∧
    (after.input.pending = before.input.pending ∧
        after.buffer.content.length + after.buffer.position =
          before.buffer.content.length + before.buffer.position ∨
      ∃ front last, before.input.pending = front ++ last :: after.input.pending ∧
        after.buffer.content.length < last.size + slack)

namespace Source.Fetched

variable {slack more spent : Nat} {before middle after : Source}

theorem refl (slack : Nat) (source : Source) : Fetched slack source source :=
  fun open_ => ⟨open_, .inl ⟨rfl, rfl⟩⟩

theorem of_ended (ended : after.buffer.ended = true) : Fetched slack before after :=
  fun open_ => absurd (ended.symm.trans open_) nofun

theorem mono (fetched : Fetched slack before after) (within : slack ≤ more) :
    Fetched more before after := by
  intro open_
  obtain ⟨opened, same | ⟨front, last, cut, less⟩⟩ := fetched open_
  · exact ⟨opened, .inl same⟩
  · exact ⟨opened, .inr ⟨front, last, cut, by omega⟩⟩

/-- **Paying for a slack.** What is consumed later was needed after all. -/
theorem settle (first : Fetched slack before middle) (second : Fetched 0 middle after)
    (spends : middle.buffer.position + spent ≤ after.buffer.position) :
    Fetched (slack - spent) before after := by
  intro open_
  obtain ⟨openMiddle, same | ⟨front, last, cut, less⟩⟩ := second open_
  · obtain ⟨opened, same' | ⟨front, last, cut, less⟩⟩ := first openMiddle
    · exact ⟨opened, .inl ⟨same.1.trans same'.1, same.2.trans same'.2⟩⟩
    · refine ⟨opened, .inr ⟨front, last, same.1 ▸ cut, ?_⟩⟩
      have total := same.2
      omega
  · obtain ⟨opened, same' | ⟨front', last', cut', -⟩⟩ := first openMiddle
    · exact ⟨opened, .inr ⟨front, last, same'.1 ▸ cut, by omega⟩⟩
    · refine ⟨opened, .inr ⟨front' ++ last' :: front, last, ?_, by omega⟩⟩
      rw [cut', cut, List.append_assoc, List.cons_append]

theorem trans (first : Fetched slack before middle) (second : Fetched 0 middle after)
    (position : middle.buffer.position ≤ after.buffer.position) : Fetched slack before after := by
  have settled : Fetched (slack - 0) before after := first.settle second position
  exact settled

/-- Dropping held bytes pulls nothing. -/
theorem drop {source : Source} {count : Nat} (within : count ≤ source.buffer.content.length) :
    Fetched 0 source { source with buffer := source.buffer.drop count } := by
  refine fun open_ => ⟨open_, .inl ⟨rfl, ?_⟩⟩
  show (source.buffer.content.drop count).length + (source.buffer.position + count) = _
  rw [List.length_drop]
  omega

/-- A read consumes all that was wanted. -/
theorem read (fetched : Fetched slack before middle) {bytes : Bytes}
    (same : (middle.buffer.read slack).1 = .ok bytes) :
    Fetched 0 before { middle with buffer := (middle.buffer.read slack).2 } := by
  unfold Buffer.read at same ⊢
  by_cases held : middle.buffer.holds slack = true
  · rw [if_pos held]
    have settled := fetched.settle (.drop ((Buffer.holds_iff _ _).mp held)) (Nat.le_refl _)
    rwa [Nat.sub_self] at settled
  · rw [if_neg held] at same
    cases same

end Source.Fetched

namespace Source

variable (driver own : Execution) (want : Nat) (pending : List Chunk) (buffer : Buffer)
  (pulled : Nat)

theorem position_pullFrom :
    (pullFrom driver own want pending buffer pulled).2.buffer.position = buffer.position := by
  fun_induction pullFrom driver own want pending buffer pulled with
  | case5 buffer pulled short mine later content filled hypothesis => exact hypothesis
  | _ => rfl

/-- **Pulling** stops with the first chunk that makes enough of what is held. -/
theorem pullFrom_fetched :
    Fetched want ⟨buffer, ⟨pending, pulled⟩⟩ (pullFrom driver own want pending buffer pulled).2 := by
  have needed : ∀ {buffer : Buffer} {chunk : Chunk} {later pulled},
      ¬(buffer.ended || buffer.holds want) = true → ∀ {after : Source}, after.input.pending = later →
        after.buffer.content.length ≤ buffer.content.length + chunk.size →
          Fetched want ⟨buffer, ⟨chunk :: later, pulled⟩⟩ after := by
    intro buffer chunk later pulled short after rest held _
    rw [Bool.or_eq_true, not_or, Bool.not_eq_true, Buffer.holds_iff] at short
    exact ⟨short.1, .inr ⟨[], chunk, by rw [rest]; rfl, by omega⟩⟩
  fun_induction pullFrom driver own want pending buffer pulled with
  | case1 => exact .refl want _
  | case2 => exact .refl want _
  | case3 => exact .of_ended rfl
  | case4 => exact .of_ended rfl
  | case5 buffer pulled short mine later content filled hypothesis =>
    intro open_
    obtain ⟨opened, ⟨rest, total⟩ | ⟨front, last, cut, less⟩⟩ := hypothesis open_
    · refine needed short rest ?_ open_
      rw [position_pullFrom] at total
      have joined : _ + buffer.position = (buffer.content ++ content).length + buffer.position :=
        total
      rw [List.length_append] at joined
      show _ ≤ buffer.content.length + content.length
      omega
    · exact ⟨opened, .inr ⟨.bytes content :: front, last, congrArg _ cut, less⟩⟩
  | case6 buffer pulled short mine later =>
    exact needed short rfl (Nat.le_add_right _ _)
  | case7 buffer pulled short mine later reason =>
    exact needed short rfl (Nat.le_add_right _ _)

/-- A pull that did not fail leaves a source with as much as was wanted, unless it has ended. -/
theorem pullFrom_open (same : (pullFrom driver own want pending buffer pulled).1 = .ok ())
    (open_ : (pullFrom driver own want pending buffer pulled).2.buffer.ended = false) :
    want ≤ (pullFrom driver own want pending buffer pulled).2.buffer.content.length := by
  fun_induction pullFrom driver own want pending buffer pulled with
  | case1 pending buffer pulled full =>
    rw [open_, Bool.false_or] at full
    exact (buffer.holds_iff want).mp full
  | case2 => cases same
  | case3 => cases open_
  | case4 => cases open_
  | case5 buffer pulled short mine later content filled hypothesis => exact hypothesis same open_
  | case6 => cases same
  | case7 => cases same

variable (source : Source)

theorem pullUntil_fetched : Fetched want source (source.pullUntil driver own want).2 :=
  pullFrom_fetched driver own want source.input.pending source.buffer source.input.pulled

theorem pullUntil_open (same : (source.pullUntil driver own want).1 = .ok ())
    (open_ : (source.pullUntil driver own want).2.buffer.ended = false) :
    want ≤ (source.pullUntil driver own want).2.buffer.content.length :=
  pullFrom_open driver own want _ _ _ same open_

end Source

/-! ### Views over the root -/

namespace View

variable {κ : Type} {streams before middle after : Streams κ} {view : View} {root slack : Nat}

/-- What a peek asks the root of a view for, at most. -/
def demand (streams : Streams κ) : View → (want : Nat) → Nat
  | .source _ _, want => max want 1
  | .take cell parent, want =>
    if (streams.bounds.get cell).left ≤ 0 then 0
    else demand streams parent (min (max want 1) (streams.bounds.get cell).left.toNat)
  | .cursor _, _ | .transformed _ _, _ => 0

theorem demand_le (streams : Streams κ) (view : View) (want : Nat) :
    view.demand streams want ≤ max want 1 := by
  induction view generalizing want with
  | source own cell => exact Nat.le_refl _
  | cursor cell => exact Nat.zero_le _
  | take cell parent hypothesis =>
    unfold demand
    split
    · exact Nat.zero_le _
    · have inner := hypothesis (min (max want 1) (streams.bounds.get cell).left.toNat)
      omega
  | transformed cell parent => exact Nat.zero_le _

/-- No bound of a view lets a peek ask for more than it has left. -/
theorem demand_le_left (streams : Streams κ) (view : View) (want : Nat) :
    ∀ cell ∈ view.cells, view.demand streams want ≤ (streams.bounds.get cell).left.toNat := by
  induction view generalizing want with
  | source own cell => exact nofun
  | cursor cell => exact nofun
  | take cell parent hypothesis =>
    intro other member
    unfold demand
    split
    · exact Nat.zero_le _
    · have inner := demand_le streams parent
        (min (max want 1) (streams.bounds.get cell).left.toNat)
      rcases List.mem_cons.mp member with rfl | above
      · omega
      · exact hypothesis _ other above
  | transformed cell parent => exact fun _ _ => Nat.zero_le _

/-- An operation through a view over the root: it spends so many bytes of it, and pulls no more than
they require, up to a slack. -/
structure Draws (root slack : Nat) (view : View) (count : Nat) (before after : Streams κ) : Prop where
  spends : view.Spends count before after
  within : count ≤ (before.sources.get root).rest.length
  fetched : Source.Fetched slack (before.sources.get root) (after.sources.get root)

namespace Draws

variable {first second : Nat}

theorem mono {more : Nat} (draws : view.Draws root slack first before after)
    (within : slack ≤ more) : view.Draws root more first before after :=
  ⟨draws.spends, draws.within, draws.fetched.mono within⟩

/-- So many bytes of the root are spent. -/
theorem gives (draws : view.Draws root slack first before after) (based : view.Over root before) :
    Source.Gives first (before.sources.get root) (after.sources.get root) :=
  ⟨(based.roots draws.spends.roots).1, draws.within⟩

/-- **Paying for a slack**: what is spent later was needed after all. -/
theorem settle (one : view.Draws root slack first before middle)
    (two : view.Draws root 0 second middle after) (based : view.Over root before)
    (based' : view.Over root middle) :
    view.Draws root (slack - second) (first + second) before after := by
  have gives := (one.gives based).trans (two.gives based')
  refine ⟨one.spends.trans two.spends, gives.within, one.fetched.settle two.fetched ?_⟩
  exact Nat.le_of_eq (two.gives based').position.symm

/-- A view over the root stays one. -/
theorem based (draws : view.Draws root slack first before after) (based : view.Over root before) :
    view.Over root after :=
  based.later ⟨draws.spends.driver, Nat.le_of_eq draws.spends.size.symm⟩

end Draws

/--
What a peek for so many bytes has to wait for: the root has ended, so many bytes of it were consumed,
or a bound of the view was used up.
-/
def Settled (root want : Nat) (view : View) (before after : Streams κ) : Prop :=
  (after.sources.get root).buffer.ended = true ∨
    (before.sources.get root).buffer.position + want ≤ (after.sources.get root).buffer.position ∨
    ∃ cell ∈ view.cells, (before.bounds.get cell).left +
      (before.sources.get root).buffer.position ≤ (after.sources.get root).buffer.position

/-- **Paying for a peek.** Once it is settled, what it asked for was needed. -/
theorem Settled.fetched {want : Nat} (settled : view.Settled root want before after)
    (asked : 0 < want)
    (peeks : view.Draws root (view.demand before want) 0 before middle)
    (based : view.Over root before)
    (later : Source.Fetched 0 (middle.sources.get root) (after.sources.get root))
    (position : (middle.sources.get root).buffer.position ≤
      (after.sources.get root).buffer.position) :
    Source.Fetched 0 (before.sources.get root) (after.sources.get root) := by
  have still : (middle.sources.get root).buffer.position =
      (before.sources.get root).buffer.position := (peeks.gives based).position
  obtain ended | consumed | ⟨cell, member, used⟩ := settled
  · exact .of_ended ended
  · have most := view.demand_le before want
    exact (peeks.fetched.settle later (Nat.le_of_eq (Nat.add_sub_of_le position))).mono (by omega)
  · have most := view.demand_le_left before want cell member
    exact (peeks.fetched.settle later (Nat.le_of_eq (Nat.add_sub_of_le position))).mono (by omega)

/-! ### The operations -/

variable [ChunkCodec κ] {want count : Nat}

/-- A peek pulls no more than it asks for. If it sees nothing, the root has ended or a bound has
nothing left. -/
theorem Over.fetched_fillBuf (based : view.Over root streams) (want : Nat) :
    Source.Fetched (view.demand streams want) (streams.sources.get root)
        (((view.fillBuf want).run streams).2.sources.get root) ∧
      (((view.fillBuf want).run streams).1 = .ok [] →
        (((view.fillBuf want).run streams).2.sources.get root).buffer.ended = true ∨
          ∃ cell ∈ view.cells, (streams.bounds.get cell).left ≤ 0) := by
  induction view generalizing want with
  | source own cell =>
    obtain ⟨-, rfl⟩ := based
    have ran : ((View.source own cell).fillBuf want).run streams = (_, _) := run_onSource rfl
    rw [ran]
    dsimp only
    rw [Table.get_set, if_pos rfl]
    refine ⟨Source.pullUntil_fetched _ _ _ _, fun empty => .inl ?_⟩
    cases same : ((streams.sources.get cell).pullUntil streams.driver own (max want 1)).1 with
    | error fault =>
      rw [same] at empty
      cases empty
    | ok _ =>
      rw [same] at empty
      rw [← Bool.not_eq_false]
      intro open_
      have enough := Source.pullUntil_open _ _ _ _ same open_
      have none : ((streams.sources.get cell).pullUntil streams.driver own
        (max want 1)).2.buffer.content = [] := Except.ok.inj empty
      rw [none, List.length_nil] at enough
      omega
  | cursor cell => exact based.elim
  | take cell parent hypothesis =>
    rw [run_fillBuf_take, demand]
    by_cases spent : (streams.bounds.get cell).left ≤ 0
    · rw [if_pos spent, if_pos spent]
      exact ⟨.refl 0 _, fun _ => .inr ⟨cell, List.mem_cons_self .., spent⟩⟩
    · rw [if_neg spent, if_neg spent]
      obtain ⟨fetched, empty⟩ :=
        hypothesis based.2.2 (min (max want 1) (streams.bounds.get cell).left.toNat)
      rcases ran : (parent.fillBuf (min (max want 1) (streams.bounds.get cell).left.toNat)).run
        streams with ⟨fault | available, after⟩
      · rw [ran] at fetched
        exact ⟨fetched, nofun⟩
      · rw [ran] at fetched empty
        refine ⟨fetched, fun cut => ?_⟩
        have none : available = [] := by
          have nothing := congrArg List.length (Except.ok.inj cut)
          rw [List.length_take, List.length_nil] at nothing
          exact List.length_eq_zero_iff.mp (by omega)
        refine (empty (congrArg Except.ok none)).imp_right ?_
        exact fun ⟨other, member, left⟩ => ⟨other, List.mem_cons_of_mem _ member, left⟩
  | transformed cell parent => exact based.elim

omit [ChunkCodec κ] in
/-- Dropping pulls nothing. -/
theorem Over.fetched_consume (based : view.Over root streams) (count : Int) :
    Source.Fetched 0 (streams.sources.get root)
      (((view.consume count).run streams).2.sources.get root) := by
  induction view generalizing streams with
  | source own cell =>
    obtain ⟨-, rfl⟩ := based
    have ran : ((View.source own cell).consume count).run streams = (_, _) := run_onSource rfl
    rw [ran]
    dsimp only
    rw [Table.get_set, if_pos rfl]
    unfold Buffer.consume
    split
    · exact .refl 0 _
    · rename_i held
      rw [not_or, Bool.not_eq_false, Buffer.holds_iff] at held
      exact .drop held.2
  | cursor cell => exact based.elim
  | take cell parent hypothesis =>
    rw [run_consume_take]
    split
    · exact .refl 0 _
    · rw [Table.set_get _ _ based.1]
      have fetched := hypothesis based.2.2
      rcases ran : (parent.consume count).run streams with ⟨fault | _, after⟩
      · rw [ran] at fetched
        exact fetched
      · rw [ran] at fetched
        exact fetched
  | transformed cell parent => exact based.elim

/-- A read of so many bytes pulls no more than it consumes. -/
theorem Over.fetched_readExact (based : view.Over root streams) {bytes : Bytes}
    (ran : (view.readExact count).run streams = (.ok bytes, after)) :
    Source.Fetched 0 (streams.sources.get root) (after.sources.get root) := by
  have natural : ¬(count : Int) < 0 := by omega
  induction view generalizing bytes after with
  | source own cell =>
    obtain ⟨-, rfl⟩ := based
    rcases pull : (streams.sources.get cell).pullUntil streams.driver own count with ⟨_ | _, pulled⟩
    · rw [View.readExact, if_neg natural, run_onSource (by rw [Int.toNat_natCast, pull])] at ran
      cases ran
    · have fetched := Source.pullUntil_fetched streams.driver own count (streams.sources.get cell)
      rw [pull] at fetched
      rw [View.readExact, if_neg natural, run_onSource (by rw [Int.toNat_natCast, pull])] at ran
      obtain ⟨same, rfl⟩ := Prod.mk.inj ran
      dsimp only
      rw [Table.get_set, if_pos rfl]
      exact fetched.read same
  | cursor cell => exact based.elim
  | take cell parent hypothesis =>
    rw [run_readExact_take, if_neg natural] at ran
    split at ran
    · split at ran
      · cases ran
        exact .refl 0 _
      · split at ran <;> cases ran
    · split at ran
      · rename_i read middle parentRan
        cases ran
        have fetched := hypothesis based.2.2 parentRan
        exact fetched
      · cases ran
  | transformed cell parent => exact based.elim

/-- **Peeking** draws nothing, but may ask for more. It sees nothing only if it is settled. -/
theorem Over.peek (based : view.Over root streams) (fair : (streams.sources.get root).Fair)
    (want : Nat) :
    ∃ after, (view.fillBuf want).run streams = (.ok (view.held after), after) ∧
      view.Draws root (view.demand streams want) 0 streams after ∧
      (view.held after = [] → view.Settled root want streams after) := by
  obtain ⟨after, ran, spends, -⟩ := fillBuf_plain (based.plain fair) want
  obtain ⟨fetched, empty⟩ := based.fetched_fillBuf want
  rw [ran] at fetched empty
  have peeks : view.Draws root (view.demand streams want) 0 streams after :=
    ⟨spends, Nat.zero_le _, fetched⟩
  refine ⟨after, ran, peeks, fun none => ?_⟩
  refine (empty (congrArg Except.ok none)).imp_right fun ⟨cell, member, used⟩ => ?_
  have still := (peeks.gives based).position
  exact .inr ⟨cell, member, by omega⟩

omit [ChunkCodec κ] in
/-- **Dropping** what is held draws it. -/
theorem Over.drop (based : view.Over root streams) (fair : (streams.sources.get root).Fair)
    (held : count ≤ (view.held streams).length) (positive : 0 < count) :
    ∃ after, (view.consume count).run streams = (.ok (), after) ∧
      view.Draws root 0 count streams after := by
  obtain ⟨after, ran, spends⟩ := consume_plain (based.plain fair) held (.inl positive)
  have fetched := based.fetched_consume count
  rw [ran] at fetched
  refine ⟨after, ran, spends, ?_, fetched⟩
  calc count ≤ (view.held streams).length := held
    _ ≤ (view.content streams).length := (view.held_front streams).length_le
    _ ≤ (streams.sources.get root).rest.length := based.length_content_le

/-- **Reading exactly so many bytes** draws them. -/
theorem Over.readExact (based : view.Over root streams) (fair : (streams.sources.get root).Fair)
    {bytes : Bytes} (ran : (view.readExact count).run streams = (.ok bytes, after)) :
    view.Draws root 0 count streams after := by
  obtain ⟨reached, same, spends⟩ := readExact_plain (based.plain fair) count
  rw [ran, exactly] at same
  unfold spentBy at spends
  split at same <;> rename_i within
  · obtain ⟨-, rfl⟩ := Prod.mk.inj same
    rw [if_pos within] at spends
    exact ⟨spends, Nat.le_trans within based.length_content_le, based.fetched_readExact ran⟩
  · cases (Prod.mk.inj same).1

theorem Over.drain (based : view.Over root streams) (fair : (streams.sources.get root).Fair)
    {fuel : Nat} {bytes : Bytes} (ran : (view.drain fuel).run streams = (.ok bytes, after)) :
    view.Draws root 0 bytes.length streams after := by
  induction fuel generalizing streams bytes after with
  | zero => cases ran
  | succ fuel hypothesis =>
    obtain ⟨peeked, same, peeks, empty⟩ := based.peek fair 1
    have basedPeeked := peeks.based based
    have fairPeeked := (peeks.gives based).fair fair
    rw [View.drain, run_bind, same] at ran
    dsimp only at ran
    by_cases none : (view.held peeked).isEmpty = true
    · rw [if_pos none] at ran
      obtain ⟨rfl, rfl⟩ : [] = bytes ∧ peeked = after := by
        exact ⟨Except.ok.inj (Prod.mk.inj ran).1, (Prod.mk.inj ran).2⟩
      refine ⟨peeks.spends, Nat.zero_le _, ?_⟩
      exact (empty (List.isEmpty_iff.mp none)).fetched Nat.one_pos peeks based (.refl 0 _)
        (Nat.le_refl _)
    · have some : 0 < (view.held peeked).length := by
        rw [List.isEmpty_iff] at none
        exact List.length_pos_iff.mpr none
      obtain ⟨dropped, same', drops⟩ := basedPeeked.drop fairPeeked (Nat.le_refl _) some
      rw [if_neg none, run_bind, same'] at ran
      dsimp only at ran
      rw [run_bind] at ran
      rcases rest : (view.drain fuel).run dropped with ⟨fault | others, last⟩
      · rw [rest] at ran
        cases ran
      · rw [rest] at ran
        obtain ⟨rfl, rfl⟩ : view.held peeked ++ others = bytes ∧ last = after :=
          ⟨Except.ok.inj (Prod.mk.inj ran).1, (Prod.mk.inj ran).2⟩
        have more := hypothesis (drops.based basedPeeked) ((drops.gives basedPeeked).fair fairPeeked)
          rest
        -- the peek asked for one byte, and at least one is dropped
        have first := peeks.settle drops based basedPeeked
        have asked := view.demand_le streams 1
        have all := (first.settle more based (drops.based basedPeeked)).mono
          (show _ ≤ 0 by omega)
        rwa [Nat.zero_add, ← List.length_append] at all

/-- **Reading to the end** draws all that there is. -/
theorem Over.readToEnd (based : view.Over root streams) (fair : (streams.sources.get root).Fair)
    {bytes : Bytes} (ran : view.readToEnd.run streams = (.ok bytes, after)) :
    view.Draws root 0 bytes.length streams after := by
  rw [View.readToEnd, run_look_bind] at ran
  exact based.drain fair ran

/-- **Looking for a terminator.** If it stands next, or nothing does, no more was pulled than is
consumed; else the peek is still to be paid for. -/
theorem Over.approach (based : view.Over root streams) (fair : (streams.sources.get root).Fair)
    {terminator : Bytes} (filled : terminator ≠ []) :
    ∃ found after, (view.approach terminator).run streams = (.ok found, after) ∧
      if found = .ahead then
        view.Draws root (view.demand streams terminator.length) 0 streams after
      else view.Settled root terminator.length streams after ∧
        ∃ count, view.Draws root 0 count streams after := by
  have asked : 0 < terminator.length := List.length_pos_iff.mpr filled
  obtain ⟨peeked, same, peeks, empty⟩ := based.peek fair terminator.length
  rw [View.approach, run_bind, same]
  dsimp only
  cases found : Approach.of terminator (view.held peeked) with
  | ahead =>
    refine ⟨.ahead, peeked, rfl, ?_⟩
    rw [if_pos rfl]
    exact peeks
  | ended =>
    have none := empty (Approach.eq_nil_of_ended found)
    have apart : Approach.ended ≠ .ahead := by decide
    refine ⟨.ended, peeked, rfl, ?_⟩
    rw [if_neg apart]
    refine ⟨none, 0, peeks.spends, Nat.zero_le _, ?_⟩
    exact none.fetched asked peeks based (.refl 0 _) (Nat.le_refl _)
  | reached =>
    have held := Approach.length_le_of_reached found
    have basedPeeked := peeks.based based
    obtain ⟨dropped, same', drops⟩ :=
      basedPeeked.drop ((peeks.gives based).fair fair) held asked
    have apart : Approach.reached ≠ .ahead := by decide
    refine ⟨.reached, dropped, by rw [run_bind, same']; rfl, ?_⟩
    rw [if_neg apart]
    have both := peeks.settle drops based basedPeeked
    have most := view.demand_le streams terminator.length
    have all := both.mono (show _ ≤ 0 by omega)
    refine ⟨.inr (.inl ?_), _, all⟩
    have position := (all.gives based).position
    omega

end View

end WireProgram
