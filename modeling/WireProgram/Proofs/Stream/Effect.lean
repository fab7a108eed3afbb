/-
**What an operation did that did not fail.**

An operation on a view is made of changes of single layers and of the operations on the view under it. If
it does not fail, then neither did its parts. What it did then is said here once for each operation, and
what holds of the streams after it follows case by case. The main definitions and statements:

* `View.Consumes`, `View.Sees` and `View.Fetches`, what dropping, peeking and reading do to each view;
* `View.Refills`, how a codec is fed, and `View.Drains`, how a view is read to its end;
* `View.consumes_of_consume` and its like, one for each operation.
-/

import WireProgram.Proofs.Stream.Budget

namespace WireProgram

/-! ### Buffers -/

namespace Buffer

variable {buffer : Buffer}

/-- What was dropped was held. -/
theorem consume_eq_ok {count : Int} {value : Unit} (same : (buffer.consume count).1 = .ok value) :
    0 ≤ count ∧ count.toNat ≤ buffer.content.length ∧
      (buffer.consume count).2 = buffer.drop count.toNat := by
  unfold consume at same ⊢
  split at same
  · cases same
  · rename_i held
    obtain ⟨natural, enough⟩ := not_or.mp held
    rw [if_neg held]
    exact ⟨Int.not_lt.mp natural, (buffer.holds_iff _).mp (Bool.not_eq_false _ ▸ enough), rfl⟩

/-- What was read was held. -/
theorem read_eq_ok {count : Nat} {bytes : Bytes} (same : (buffer.read count).1 = .ok bytes) :
    count ≤ buffer.content.length ∧ bytes = buffer.content.take count ∧
      (buffer.read count).2 = buffer.drop count := by
  unfold read at same ⊢
  split at same
  · rename_i held
    rw [if_pos held]
    exact ⟨(buffer.holds_iff _).mp held, (Except.ok.inj same).symm, rfl⟩
  · cases same

end Buffer

namespace View

variable {streams after : Streams Codec} {view parent : View} {cell want fuel : Nat} {count : Int}
  {bytes : Bytes} {value : Unit}

/-! ### Dropping -/

/-- What dropping does. -/
inductive Consumes (count : Int) (streams : Streams Codec) : View → Streams Codec → Prop
  | source {own : Execution} {cell : Nat}
    (held : count.toNat ≤ (streams.sources.get cell).buffer.content.length) :
    Consumes count streams (.source own cell) { streams with
      sources := streams.sources.set cell { streams.sources.get cell with
        buffer := (streams.sources.get cell).buffer.drop count.toNat } }
  | cursor {cell : Nat} (held : count.toNat ≤ (streams.cursors.get cell).buffer.content.length) :
    Consumes count streams (.cursor cell) { streams with
      cursors := streams.cursors.set cell { streams.cursors.get cell with
        buffer := (streams.cursors.get cell).buffer.drop count.toNat } }
  | take {cell : Nat} {parent : View} {middle : Streams Codec}
    (allowed : count ≤ (streams.bounds.get cell).left)
    (ran : (parent.consume count).run streams = (.ok (), middle)) :
    Consumes count streams (.take cell parent) { middle with
      bounds := middle.bounds.set cell
        ⟨(middle.bounds.get cell).left - count, (middle.bounds.get cell).position + count.toNat⟩ }
  | transformed {cell : Nat} {parent : View}
    (held : count.toNat ≤ (streams.transforms.get cell).buffer.content.length) :
    Consumes count streams (.transformed cell parent) { streams with
      transforms := streams.transforms.set cell { streams.transforms.get cell with
        buffer := (streams.transforms.get cell).buffer.drop count.toNat } }

/-- No negative number of bytes is dropped. -/
theorem consumes_of_consume (inside : view.Inside streams)
    (ran : (view.consume count).run streams = (.ok value, after)) :
    0 ≤ count ∧ Consumes count streams view after := by
  cases view with
  | source own cell =>
    obtain ⟨same, rfl⟩ := Prod.mk.inj ran
    obtain ⟨natural, held, drops⟩ := Buffer.consume_eq_ok same
    dsimp only
    rw [drops]
    exact ⟨natural, .source held⟩
  | cursor cell =>
    obtain ⟨same, rfl⟩ := Prod.mk.inj ran
    obtain ⟨natural, held, drops⟩ := Buffer.consume_eq_ok same
    dsimp only
    rw [drops]
    exact ⟨natural, .cursor held⟩
  | take cell parent =>
    rw [run_consume_take, Table.set_get _ _ inside] at ran
    split at ran
    · cases ran
    · obtain ⟨natural, allowed⟩ := not_or.mp ‹_›
      rcases inner : (parent.consume count).run streams with ⟨fault | _, middle⟩
      · rw [inner] at ran
        cases ran
      · rw [inner] at ran
        cases ran
        exact ⟨Int.not_lt.mp natural, .take (Int.not_lt.mp allowed) inner⟩
  | transformed cell parent =>
    obtain ⟨same, rfl⟩ := Prod.mk.inj ran
    obtain ⟨natural, held, drops⟩ := Buffer.consume_eq_ok same
    dsimp only
    rw [drops]
    exact ⟨natural, .transformed held⟩

/-! ### Feeding a codec -/

/-- What `refill` does if nothing fails: a codec is fed, or its input is ended, until enough is held or the
view has ended. -/
inductive Refills (cell : Nat) (peek : StreamStep Codec Bytes) (drop : Int → StreamStep Codec Unit)
    (want : Nat) : Streams Codec → Streams Codec → Prop
  | ready {streams : Streams Codec}
    (enough : ((streams.transforms.get cell).buffer.ended ||
      (streams.transforms.get cell).buffer.holds want) = true) :
    Refills cell peek drop want streams streams
  | ends {streams after : Streams Codec}
    (unended : (streams.transforms.get cell).buffer.ended ≠ true)
    (ran : (onTransformed cell fun layer =>
      (.ok (), { layer with buffer := { layer.buffer with ended := true } })).run streams =
        (.ok (), after)) :
    Refills cell peek drop want streams after
  | finishes {streams peeked finished delivered after : Streams Codec} {bytes : Bytes}
    (unended : (streams.transforms.get cell).buffer.ended ≠ true)
    (unfinished : (streams.transforms.get cell).finished = false)
    (peeks : peek.run streams = (.ok [], peeked))
    (finishes : (finishCodec cell).run peeked = (.ok bytes, finished))
    (delivers : (deliver cell false bytes).run finished = (.ok (), delivered))
    (rest : Refills cell peek drop want delivered after) :
    Refills cell peek drop want streams after
  | feeds {streams peeked fed dropped delivered after : Streams Codec} {given bytes : Bytes} {used : Int}
    (unended : (streams.transforms.get cell).buffer.ended ≠ true)
    (unfinished : (streams.transforms.get cell).finished = false)
    (peeks : peek.run streams = (.ok given, peeked)) (filled : given ≠ [])
    (feeds : (feedCodec cell given).run peeked = (.ok (bytes, used), fed))
    (drops : (drop used).run fed = (.ok (), dropped))
    (delivers : (deliver cell true bytes).run dropped = (.ok (), delivered))
    (rest : Refills cell peek drop want delivered after) :
    Refills cell peek drop want streams after

theorem refills_of_refill {peek : StreamStep Codec Bytes} {drop : Int → StreamStep Codec Unit}
    (ran : (refill cell peek drop want fuel).run streams = (.ok value, after)) :
    Refills cell peek drop want streams after := by
  induction fuel generalizing streams with
  | zero => cases ran
  | succ fuel hypothesis =>
    unfold refill at ran
    rw [run_look_bind] at ran
    split at ran
    · cases ran
      exact .ready ‹_›
    · rename_i unfilled
      have unended : (streams.transforms.get cell).buffer.ended ≠ true := fun ended =>
        unfilled (by rw [ended, Bool.true_or])
      split at ran
      · exact .ends unended ran
      · rename_i unfinished
        rw [Bool.not_eq_true] at unfinished
        obtain ⟨given, peeked, peeks, ran⟩ := run_bind_eq_ok ran
        split at ran
        · rename_i empty
          obtain ⟨bytes, finished, finishes, ran⟩ := run_bind_eq_ok ran
          obtain ⟨_, delivered, delivers, ran⟩ := run_bind_eq_ok ran
          obtain rfl := List.isEmpty_iff.mp empty
          exact .finishes unended unfinished peeks finishes delivers (hypothesis ran)
        · rename_i nonempty
          obtain ⟨⟨bytes, used⟩, fed, feeds, ran⟩ := run_bind_eq_ok ran
          obtain ⟨_, dropped, drops, ran⟩ := run_bind_eq_ok ran
          obtain ⟨_, delivered, delivers, ran⟩ := run_bind_eq_ok ran
          exact .feeds unended unfinished peeks (fun none => nonempty (List.isEmpty_iff.mpr none)) feeds
            drops delivers (hypothesis ran)

theorem refills_of_prepare {peek : StreamStep Codec Bytes} {drop : Int → StreamStep Codec Unit}
    (ran : (prepare cell parent peek drop want).run streams = (.ok value, after)) :
    Refills cell peek drop want streams after := by
  unfold prepare at ran
  rw [run_look_bind] at ran
  dsimp only at ran
  split at ran
  · cases ran
    exact .ready ‹_›
  · rw [run_look_bind] at ran
    exact refills_of_refill ran

/-! ### Peeking -/

/-- What peeking does, and what it sees. -/
inductive Sees (want : Nat) (streams : Streams Codec) : View → Bytes → Streams Codec → Prop
  | source {own : Execution} {cell : Nat} {source : Source}
    (pulled : (streams.sources.get cell).pullUntil streams.driver own (max want 1) =
      (.ok (), source)) :
    Sees want streams (.source own cell) source.buffer.content
      { streams with sources := streams.sources.set cell source }
  | cursor {cell : Nat} :
    Sees want streams (.cursor cell) (streams.cursors.get cell).buffer.content
      { streams with cursors := streams.cursors.set cell (streams.cursors.get cell) }
  | spent {cell : Nat} {parent : View} (used : (streams.bounds.get cell).left ≤ 0) :
    Sees want streams (.take cell parent) [] streams
  | take {cell : Nat} {parent : View} {available : Bytes} {after : Streams Codec}
    (left : 0 < (streams.bounds.get cell).left)
    (ran : (parent.fillBuf (min (max want 1) (streams.bounds.get cell).left.toNat)).run streams =
      (.ok available, after)) :
    Sees want streams (.take cell parent) (available.take (streams.bounds.get cell).left.toNat) after
  | transformed {cell : Nat} {parent : View} {after : Streams Codec}
    (refills : Refills cell (parent.fillBuf 1) parent.consume (max want 1) streams after) :
    Sees want streams (.transformed cell parent) (after.transforms.get cell).buffer.content after

theorem sees_of_fillBuf (ran : (view.fillBuf want).run streams = (.ok bytes, after)) :
    Sees want streams view bytes after := by
  cases view with
  | source own cell =>
    rcases pulled : (streams.sources.get cell).pullUntil streams.driver own (max want 1)
      with ⟨fault | _, source⟩
    · obtain ⟨same, -⟩ := Prod.mk.inj ran
      simp only [pulled] at same
      cases same
    · obtain ⟨same, rfl⟩ := Prod.mk.inj ran
      simp only [pulled] at same ⊢
      obtain rfl := Except.ok.inj same
      exact .source pulled
  | cursor cell =>
    cases ran
    exact .cursor
  | take cell parent =>
    rw [run_fillBuf_take] at ran
    split at ran
    · cases ran
      exact .spent ‹_›
    · rcases inner : (parent.fillBuf (min (max want 1) (streams.bounds.get cell).left.toNat)).run
        streams with ⟨fault | available, middle⟩
      · rw [inner] at ran
        cases ran
      · rw [inner] at ran
        cases ran
        exact .take (Int.not_le.mp ‹_›) inner
  | transformed cell parent =>
    unfold fillBuf at ran
    obtain ⟨_, middle, prepared, ran⟩ := run_bind_eq_ok ran
    cases ran
    exact .transformed (refills_of_prepare prepared)

/-! ### Reading -/

/-- What reading exactly so many bytes does, and what it reads. -/
inductive Fetches (count : Int) (streams : Streams Codec) : View → Bytes → Streams Codec → Prop
  | source {own : Execution} {cell : Nat} {source : Source}
    (pulled : (streams.sources.get cell).pullUntil streams.driver own count.toNat = (.ok (), source))
    (held : count.toNat ≤ source.buffer.content.length) :
    Fetches count streams (.source own cell) (source.buffer.content.take count.toNat) { streams with
      sources := streams.sources.set cell
        { source with buffer := source.buffer.drop count.toNat } }
  | cursor {cell : Nat} (held : count.toNat ≤ (streams.cursors.get cell).buffer.content.length) :
    Fetches count streams (.cursor cell) ((streams.cursors.get cell).buffer.content.take count.toNat)
      { streams with
        cursors := streams.cursors.set cell { streams.cursors.get cell with
          buffer := (streams.cursors.get cell).buffer.drop count.toNat } }
  | nothing {cell : Nat} {parent : View} (none : count = 0) :
    Fetches count streams (.take cell parent) [] streams
  | take {cell : Nat} {parent : View} {bytes : Bytes} {middle : Streams Codec}
    (allowed : count ≤ (streams.bounds.get cell).left)
    (ran : (parent.readExact count).run streams = (.ok bytes, middle)) :
    Fetches count streams (.take cell parent) bytes { middle with
      bounds := middle.bounds.set cell
        ⟨(middle.bounds.get cell).left - count, (middle.bounds.get cell).position + count.toNat⟩ }
  | transformed {cell : Nat} {parent : View} {middle : Streams Codec}
    (refills : Refills cell (parent.fillBuf 1) parent.consume count.toNat streams middle)
    (held : count.toNat ≤ (middle.transforms.get cell).buffer.content.length) :
    Fetches count streams (.transformed cell parent)
      ((middle.transforms.get cell).buffer.content.take count.toNat) { middle with
        transforms := middle.transforms.set cell { middle.transforms.get cell with
          buffer := (middle.transforms.get cell).buffer.drop count.toNat } }

theorem fetches_of_readExact (ran : (view.readExact count).run streams = (.ok bytes, after)) :
    Fetches count streams view bytes after := by
  cases view with
  | source own cell =>
    unfold readExact at ran
    split at ran
    · cases ran
    · rcases pulled : (streams.sources.get cell).pullUntil streams.driver own count.toNat
        with ⟨fault | _, source⟩
      · obtain ⟨same, -⟩ := Prod.mk.inj ran
        simp only [pulled] at same
        cases same
      · obtain ⟨same, rfl⟩ := Prod.mk.inj ran
        simp only [pulled] at same ⊢
        obtain ⟨held, rfl, drops⟩ := Buffer.read_eq_ok same
        rw [drops]
        exact .source pulled held
  | cursor cell =>
    unfold readExact at ran
    split at ran
    · cases ran
    · obtain ⟨same, rfl⟩ := Prod.mk.inj ran
      obtain ⟨held, rfl, drops⟩ := Buffer.read_eq_ok same
      dsimp only
      rw [drops]
      exact .cursor held
  | take cell parent =>
    rw [run_readExact_take] at ran
    split at ran
    · split at ran
      · cases ran
      · split at ran
        · cases ran
          exact .nothing ‹_›
        · split at ran <;> cases ran
    · rcases inner : (parent.readExact count).run streams with ⟨fault | given, middle⟩
      · rw [inner] at ran
        cases ran
      · rw [inner] at ran
        cases ran
        exact .take (Int.not_lt.mp ‹_›) inner
  | transformed cell parent =>
    unfold readExact at ran
    split at ran
    · cases ran
    · obtain ⟨_, middle, prepared, ran⟩ := run_bind_eq_ok ran
      obtain ⟨same, rfl⟩ := Prod.mk.inj ran
      obtain ⟨held, rfl, drops⟩ := Buffer.read_eq_ok same
      dsimp only
      rw [drops]
      exact .transformed (refills_of_prepare prepared) held

/-- No negative number of bytes is read. -/
theorem readExact_nonneg (ran : (view.readExact count).run streams = (.ok bytes, after)) :
    0 ≤ count := by
  induction view generalizing bytes after with
  | take cell parent hypothesis =>
    cases fetches_of_readExact ran with
    | nothing none => exact Int.le_of_eq none.symm
    | take allowed inner => exact hypothesis inner
  | _ =>
    unfold readExact at ran
    split at ran
    · cases ran
    · exact Int.not_lt.mp ‹_›

/-- As many bytes are read as are asked for. -/
theorem readExact_length (ran : (view.readExact count).run streams = (.ok bytes, after)) :
    bytes.length = count.toNat := by
  induction view generalizing bytes after with
  | source own cell =>
    cases fetches_of_readExact ran with
    | source pulled held => exact List.length_take_of_le held
  | cursor cell =>
    cases fetches_of_readExact ran with
    | cursor held => exact List.length_take_of_le held
  | take cell parent hypothesis =>
    cases fetches_of_readExact ran with
    | nothing none => exact none ▸ rfl
    | take allowed inner => exact hypothesis inner
  | transformed cell parent =>
    cases fetches_of_readExact ran with
    | transformed refills held => exact List.length_take_of_le held

/-! ### Reading to the end -/

/-- How a view is read to its end, piece by piece. -/
inductive Drains (view : View) : Streams Codec → Bytes → Streams Codec → Prop
  | ended {streams after : Streams Codec} {want : Nat}
    (peeks : (view.fillBuf want).run streams = (.ok [], after)) : Drains view streams [] after
  | piece {streams peeked dropped after : Streams Codec} {want : Nat} {available others : Bytes}
    (peeks : (view.fillBuf want).run streams = (.ok available, peeked))
    (drops : (view.consume available.length).run peeked = (.ok (), dropped))
    (rest : Drains view dropped others after) : Drains view streams (available ++ others) after

theorem drains_of_readToEnd (ran : view.readToEnd.run streams = (.ok bytes, after)) :
    Drains view streams bytes after := by
  have pieces : ∀ {fuel : Nat} {streams : Streams Codec} {bytes : Bytes},
      (view.drain fuel).run streams = (.ok bytes, after) → Drains view streams bytes after := by
    intro fuel
    induction fuel with
    | zero => exact fun ran => by cases ran
    | succ fuel hypothesis =>
      intro streams bytes ran
      unfold drain at ran
      obtain ⟨available, peeked, peeks, ran⟩ := run_bind_eq_ok ran
      split at ran
      · rename_i empty
        cases ran
        rw [List.isEmpty_iff.mp empty] at peeks
        exact .ended peeks
      · obtain ⟨_, dropped, drops, ran⟩ := run_bind_eq_ok ran
        obtain ⟨others, drained, drains, ran⟩ := run_bind_eq_ok ran
        cases ran
        exact .piece peeks drops (hypothesis drains)
  unfold readToEnd at ran
  rw [run_look_bind] at ran
  exact pieces ran

/-- Peeking for a terminator, which is dropped where it stands next. -/
theorem approach_eq_ok {terminator : Bytes} {approach : Approach}
    (ran : (view.approach terminator).run streams = (.ok approach, after)) :
    ∃ peeked middle, (view.fillBuf terminator.length).run streams = (.ok peeked, middle) ∧
      (after = middle ∨ (view.consume terminator.length).run middle = (.ok (), after)) := by
  unfold View.approach at ran
  obtain ⟨peeked, middle, peeks, ran⟩ := run_bind_eq_ok ran
  refine ⟨peeked, middle, peeks, ?_⟩
  split at ran
  · obtain ⟨_, dropped, drops, ran⟩ := run_bind_eq_ok ran
    cases ran
    exact .inr drops
  · cases ran
    exact .inl rfl

end View

end WireProgram
