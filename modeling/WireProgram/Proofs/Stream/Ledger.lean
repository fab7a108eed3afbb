/-
**The stack of views refines a byte string with counters.**

The reference knows nothing of buffers, chunks and roots. It is the byte string that is still to
come, and a counter for each bound: the bytes that it still allows for, and those that went through
it. A view of it is the chain of the counters over the root, its own one first; what it has to give
is the longest front of the byte string that all counters of the chain allow for. The main
definitions and statements:

* `Reference`, with `Reference.content`, `Reference.spend` and `Reference.bound`;
* `Act` and `Session.run`, sequences of operations on the views over one root;
* `Reference.Explains`, what the reference makes of the reply to an act;
* `Session.run_explained`: every sequence of acts on any root is explained by the reference, from
  the first act to the last.
-/

import Mathlib.Data.List.GetD
import WireProgram.Codec
import WireProgram.Proofs.Stream.Region

namespace WireProgram

/-! ### Acts and replies -/

/-- An operation on a view over one root. Views are numbered as they are opened; the root is zero. -/
inductive Act where
  /-- Opens a view of at most so many bytes of a view. -/
  | bound (view limit : Nat)
  | readExact (view count : Nat)
  | readToEnd (view : Nat)
  /-- Peeks at a view. -/
  | peek (view want : Nat)
  /-- Peeks at a view and drops what it saw, but at most so many bytes. -/
  | skip (view want count : Nat)
  deriving DecidableEq, Inhabited

/-- What an act gives. -/
inductive Reply where
  | opened
  | bytes (content : Bytes)
  | peeked (content : Bytes)
  /-- What was peeked at, and how many bytes of it were dropped. -/
  | skipped (content : Bytes) (count : Nat)
  deriving DecidableEq, Inhabited

/-- The bytes that an act takes away from its view: those that it reads or drops. -/
def Reply.handed : Except Fault Reply → Bytes
  | .ok (.bytes content) => content
  | .ok (.skipped content count) => content.take count
  | _ => []

/-! ### The reference -/

/-- The counter of a bound: the bytes that it still allows for, and those that went through it. -/
structure Counter where
  left : Nat
  passed : Nat := 0
  deriving DecidableEq, Inhabited

/-- A byte string that is still to come, with the counters of the bounds over it. -/
structure Reference where
  rest : Bytes
  /-- The bytes that are gone. -/
  gone : Nat := 0
  counters : Nat → Counter := fun _ => ⟨0, 0⟩
  /-- The number of the next counter. -/
  next : Nat := 0
  /-- The views in the order of their opening, each by its counters; the root has none. -/
  views : List (List Nat) := [[]]

namespace Reference

/-- The counters of a view, its own one first. -/
def chain (reference : Reference) (view : Nat) : List Nat :=
  reference.views.getD view []

/-- What a view has to give: the longest front of the byte string that its counters allow for. -/
def content (reference : Reference) (chain : List Nat) : Bytes :=
  chain.foldr (fun counter bytes => bytes.take (reference.counters counter).left) reference.rest

/-- The number of bytes that went through a view. -/
def position (reference : Reference) : List Nat → Nat
  | [] => reference.gone
  | counter :: _ => (reference.counters counter).passed

/-- Takes bytes away through a view: they count for all of its counters and for no other one. -/
def spend (reference : Reference) (chain : List Nat) (count : Nat) : Reference :=
  { reference with
    rest := reference.rest.drop count
    gone := reference.gone + count
    counters := fun counter =>
      let old := reference.counters counter
      if counter ∈ chain then ⟨old.left - count, old.passed + count⟩ else old }

/-- Opens a view of at most so many bytes of a view. -/
def bound (reference : Reference) (view limit : Nat) : Reference :=
  { reference with
    counters := fun counter =>
      if counter = reference.next then ⟨limit, 0⟩ else reference.counters counter
    next := reference.next + 1
    views := reference.views ++ [reference.next :: reference.chain view] }

theorem spend_zero (reference : Reference) (chain : List Nat) : reference.spend chain 0 = reference := by
  have counters : (reference.spend chain 0).counters = reference.counters := by
    funext counter
    show ite (counter ∈ chain) _ _ = _
    exact ite_self _
  show ({ reference with counters := (reference.spend chain 0).counters } : Reference) = reference
  rw [counters]

/-- Whether bytes can be seen by peeking: a front of what there is, as long as wanted. -/
def Peekable (content : Bytes) (want : Nat) (peeked : Bytes) : Prop :=
  peeked <+: content ∧ min (max want 1) content.length ≤ peeked.length

/--
What the reference makes of an act: whether a reply is right, and the reference after it. Only the
length of what is peeked at is open.
-/
def Explains (before : Reference) : Act → Except Fault Reply → Reference → Prop
  | .bound view limit, reply, after => reply = .ok .opened ∧ after = before.bound view limit
  | .readExact view count, reply, after =>
    let content := before.content (before.chain view)
    reply = (View.exactly count content).map .bytes ∧
      after = before.spend (before.chain view) (View.spentBy count content)
  | .readToEnd view, reply, after =>
    let content := before.content (before.chain view)
    reply = .ok (.bytes content) ∧ after = before.spend (before.chain view) content.length
  | .peek view want, reply, after =>
    ∃ peeked, Peekable (before.content (before.chain view)) want peeked ∧
      reply = .ok (.peeked peeked) ∧ after = before
  | .skip view want count, reply, after =>
    ∃ peeked, Peekable (before.content (before.chain view)) want peeked ∧
      reply = .ok (.skipped peeked (min count peeked.length)) ∧
      after = before.spend (before.chain view) (min count peeked.length)

/-- What the reference makes of a sequence of acts. -/
def ExplainsAll : Reference → List Act → List (Except Fault Reply) → Reference → Prop
  | before, [], [], after => after = before
  | before, act :: acts, reply :: replies, after =>
    ∃ middle, Explains before act reply middle ∧ ExplainsAll middle acts replies after
  | _, _, _, _ => False

end Reference

/-! ### Sessions -/

/-- A root with the views over it, in the order of their opening. -/
structure Session (κ : Type) where
  root : View
  views : List View
  streams : Streams κ

namespace Session

variable {κ : Type} [ChunkCodec κ]

/-- The view of a number. -/
def view (session : Session κ) (number : Nat) : View :=
  session.views.getD number session.root

/-- Runs an operation on the streams of a session. -/
def operate {α : Type} (session : Session κ) (step : StreamStep κ α) (reply : α → Reply) :
    Except Fault Reply × Session κ :=
  let result := step.run session.streams
  (result.1.map reply, { session with streams := result.2 })

/-- Peeks, and drops what was seen, but at most so many bytes. -/
def peekAndDrop (view : View) (want count : Nat) : StreamStep κ (Bytes × Nat) := do
  let peeked ← view.fillBuf want
  view.consume (min count peeked.length : Nat)
  return (peeked, min count peeked.length)

/-- The effect of an act. -/
def act (session : Session κ) : Act → Except Fault Reply × Session κ
  | .bound view limit =>
    let opened := session.streams.openTake (session.view view) limit
    (.ok .opened, { session with views := session.views ++ [opened.1], streams := opened.2 })
  | .readExact view count => session.operate ((session.view view).readExact count) .bytes
  | .readToEnd view => session.operate (session.view view).readToEnd .bytes
  | .peek view want => session.operate ((session.view view).fillBuf want) .peeked
  | .skip view want count =>
    session.operate (peekAndDrop (session.view view) want count) fun seen =>
      .skipped seen.1 seen.2

/-- The replies to a sequence of acts. A fault ends its act, not the session. -/
def run (session : Session κ) : List Act → List (Except Fault Reply) × Session κ
  | [] => ([], session)
  | act :: acts =>
    let first := session.act act
    let others := run first.2 acts
    (first.1 :: others.1, others.2)

end Session

/-- How a root is opened. -/
inductive Opening where
  /-- Over a raw input. -/
  | source (own : Execution) (input : Input)
  /-- Over a byte string. -/
  | cursor (bytes : Bytes)

/-- Opens a root. -/
def Opening.open {κ : Type} (opening : Opening) (streams : Streams κ) : View × Streams κ :=
  match opening with
  | .source own input => streams.openSource own input
  | .cursor bytes => streams.openCursor bytes

/-- A root that gives a byte string: an input must hand it out to a driver of its own kind. -/
def Opening.Gives (opening : Opening) (driver : Execution) (bytes : Bytes) : Prop :=
  match opening with
  | .source own input => own = driver ∧ input.Delivers bytes
  | .cursor content => content = bytes

/-- A session that starts with a new root. -/
def Session.start {κ : Type} (streams : Streams κ) (opening : Opening) : Session κ :=
  ⟨(opening.open streams).1, [(opening.open streams).1], (opening.open streams).2⟩

/-! ### The refinement -/

namespace Session

variable {κ : Type} [ChunkCodec κ] {session : Session κ} {reference : Reference}
  {after : Streams κ} {count : Nat}

/-- A session and a reference that stand for the same. -/
structure Mirrors (session : Session κ) (reference : Reference) : Prop where
  bare : session.root.cells = []
  rest : session.root.content session.streams = reference.rest
  gone : session.root.position session.streams = reference.gone
  plain : ∀ view ∈ session.root :: session.views,
    view.Plain session.streams ∧ view.root = session.root
  views : session.views.map View.cells = reference.views
  counters : ∀ view ∈ session.root :: session.views, ∀ cell ∈ view.cells,
    session.streams.bounds.get cell =
      ⟨(reference.counters cell).left, (reference.counters cell).passed⟩
  next : session.streams.bounds.size = reference.next

omit [ChunkCodec κ] in
theorem view_mem (session : Session κ) (number : Nat) :
    session.view number ∈ session.root :: session.views := by
  unfold view
  rw [List.getD_eq_getElem?_getD]
  cases found : session.views[number]? with
  | none => exact List.mem_cons_self ..
  | some view => exact List.mem_cons_of_mem _ (List.mem_of_getElem? found)

namespace Mirrors

omit [ChunkCodec κ] in
theorem chain (mirrors : Mirrors session reference) (number : Nat) :
    reference.chain number = (session.view number).cells := by
  unfold Reference.chain view
  rw [← mirrors.views, ← mirrors.bare, List.getD_map]

omit [ChunkCodec κ] in
/-- The views have to give what the reference says. -/
theorem content (mirrors : Mirrors session reference) (number : Nat) :
    (session.view number).content session.streams =
      reference.content (reference.chain number) := by
  obtain ⟨plain, root⟩ := mirrors.plain _ (session.view_mem number)
  rw [View.content_root _ plain, root, mirrors.rest, mirrors.chain]
  refine List.foldr_ext _ _ _ fun cell member bytes => ?_
  rw [mirrors.counters _ (session.view_mem number) cell member, Int.toNat_natCast]

omit [ChunkCodec κ] in
/-- As many bytes went through the views as the reference says. -/
theorem position (mirrors : Mirrors session reference) (number : Nat) :
    (session.view number).position session.streams =
      reference.position (reference.chain number) := by
  obtain ⟨plain, root⟩ := mirrors.plain _ (session.view_mem number)
  have counters := mirrors.counters _ (session.view_mem number)
  have gone := mirrors.gone
  rw [mirrors.chain]
  rw [← root] at gone
  cases same : session.view number with
  | source own cell =>
    rw [same] at gone
    exact gone
  | cursor cell =>
    rw [same] at gone
    exact gone
  | take cell parent =>
    rw [same] at counters
    show (session.streams.bounds.get cell).position = _
    rw [counters cell (List.mem_cons_self ..)]
    rfl
  | transformed cell parent =>
    rw [same] at plain
    exact plain.elim

omit [ChunkCodec κ] in
/-- **Spending.** What a view spends, the reference spends. -/
theorem spend (mirrors : Mirrors session reference) (number : Nat)
    (spends : (session.view number).Spends count session.streams after)
    (within : count ≤ ((session.view number).content session.streams).length) :
    Mirrors { session with streams := after }
      (reference.spend (reference.chain number) count) := by
  obtain ⟨plain, root⟩ := mirrors.plain _ (session.view_mem number)
  obtain ⟨rest, position⟩ := spends.roots.root
  rw [root] at rest position
  refine ⟨mirrors.bare, ?_, ?_, ?_, mirrors.views, ?_, spends.size.trans mirrors.next⟩
  · exact rest.trans (congrArg (List.drop count) mirrors.rest)
  · exact position.trans (congrArg (· + count) mirrors.gone)
  · exact fun view member =>
      ⟨(mirrors.plain view member).1.spends spends, (mirrors.plain view member).2⟩
  · intro view member cell inside
    have old := mirrors.counters view member cell inside
    rw [spends.bounds, ← mirrors.chain]
    show _ = Bound.mk ((ite (cell ∈ reference.chain number) _ _ : Counter).left)
      ((ite (cell ∈ reference.chain number) _ _ : Counter).passed)
    by_cases through : cell ∈ reference.chain number
    · have most := View.length_content_le plain cell (by rwa [← mirrors.chain])
      rw [old, Int.toNat_natCast] at most
      rw [if_pos through, if_pos through, old]
      unfold Bound.spend
      rw [Int.ofNat_sub (Nat.le_trans within most)]
    · rw [if_neg through, if_neg through, old]

/-- **Opening.** A bound that is opened is a new counter. -/
theorem bound (mirrors : Mirrors session reference) (number limit : Nat) :
    Mirrors (session.act (.bound number limit)).2 (reference.bound number limit) := by
  obtain ⟨plain, root⟩ := mirrors.plain _ (session.view_mem number)
  have old : ∀ view ∈ session.root :: session.views, ∀ cell ∈ view.cells,
      cell ≠ session.streams.bounds.size := by
    intro view member cell inside
    exact Nat.ne_of_lt (View.cells_lt_size (mirrors.plain view member).1 cell inside)
  have split : ∀ view ∈ session.root :: (session.views ++
        [.take session.streams.bounds.size (session.view number)]),
      view ∈ session.root :: session.views ∨
        view = .take session.streams.bounds.size (session.view number) := by
    intro view member
    rw [← List.cons_append, List.mem_append, List.mem_singleton] at member
    exact member
  have kept : ∀ view ∈ session.root :: session.views, ∀ cell ∈ view.cells,
      (session.streams.bounds.push { left := (limit : Int) }).get cell =
        ⟨((reference.bound number limit).counters cell).left,
          ((reference.bound number limit).counters cell).passed⟩ := by
    intro view member cell inside
    have different := old view member cell inside
    rw [Table.get_push, if_neg different, mirrors.counters view member cell inside]
    show _ = Bound.mk ((ite (cell = reference.next) _ _ : Counter).left) _
    rw [mirrors.next] at different
    rw [if_neg different]
    show _ = Bound.mk _ ((ite (cell = reference.next) _ _ : Counter).passed)
    rw [if_neg different]
  have same := View.root_openTake (mirrors.plain _ (List.mem_cons_self ..)).1 mirrors.bare
    (session.view number) limit
  refine ⟨mirrors.bare, ?_, ?_, ?_, ?_, ?_, ?_⟩
  · exact same.1.trans mirrors.rest
  · exact same.2.trans mirrors.gone
  · intro view member
    rcases split view member with before | rfl
    · exact ⟨(mirrors.plain view before).1.openTake (session.view number) limit,
        (mirrors.plain view before).2⟩
    · exact ⟨View.openTake_plain plain limit, root⟩
  · show (session.views ++ [_]).map View.cells = reference.views ++ [_]
    rw [List.map_append, mirrors.views, mirrors.chain, ← mirrors.next]
    rfl
  · intro view member cell inside
    rcases split view member with before | rfl
    · exact kept view before cell inside
    · rcases List.mem_cons.mp inside with rfl | above
      · show (session.streams.bounds.push _).get _ =
          Bound.mk ((ite (_ = reference.next) _ _ : Counter).left)
            ((ite (_ = reference.next) _ _ : Counter).passed)
        rw [Table.get_push, if_pos rfl, if_pos mirrors.next]
      · exact kept _ (session.view_mem number) cell above
  · show (session.streams.bounds.push _).size = reference.next + 1
    rw [Table.size_push, mirrors.next]

end Mirrors

/-! ### One act -/

omit [ChunkCodec κ] in
theorem run_operate {α : Type} {step : StreamStep κ α} {reply : α → Reply}
    {result : Except Fault α} (same : step.run session.streams = (result, after)) :
    session.operate step reply = (result.map reply, { session with streams := after }) := by
  unfold operate
  rw [same]

/-- Peeking and dropping on a plain view: what was peeked at, and how many bytes of it were spent. -/
theorem peekAndDrop_plain {view : View} {streams : Streams κ} (plain : view.Plain streams)
    (whole : ∀ cell ∈ view.cells, 0 ≤ (streams.bounds.get cell).left) (want count : Nat) :
    ∃ peeked after, (peekAndDrop view want count).run streams =
        (.ok (peeked, min count peeked.length), after) ∧
      Reference.Peekable (view.content streams) want peeked ∧
      view.Spends (min count peeked.length) streams after := by
  obtain ⟨middle, same, spends, enough⟩ := View.fillBuf_plain plain want
  have bounds : ∀ cell ∈ view.cells, 0 ≤ (middle.bounds.get cell).left := by
    intro cell member
    rw [spends.bounds, Bound.spend_zero, ite_self]
    exact whole cell member
  have front := view.held_front middle
  rw [spends.content, List.drop_zero] at front
  obtain ⟨after, same', spends'⟩ := View.consume_plain (plain.spends spends)
    (Nat.min_le_right count _) (Or.inr bounds)
  refine ⟨view.held middle, after, ?_, ⟨front, enough⟩, ?_⟩
  · rw [peekAndDrop, run_bind, same]
    show ((view.consume _ >>= _).run middle) = _
    rw [run_bind, same']
    rfl
  · have sum := spends.trans spends'
    rwa [Nat.zero_add] at sum

/-- Bytes that were handed out and those that are left are all that there were. -/
theorem handed_append {content rest : Bytes} (front : content <+: rest)
    (within : count ≤ content.length) : content.take count ++ rest.drop count = rest := by
  obtain ⟨others, rfl⟩ := front
  rw [List.drop_append_of_le_length within, ← List.append_assoc, List.take_append_drop]

/-- What a view of the reference has to give is a front of what is to come. -/
theorem content_front (reference : Reference) (chain : List Nat) :
    reference.content chain <+: reference.rest := by
  induction chain with
  | nil => exact List.prefix_rfl
  | cons counter chain hypothesis => exact (List.prefix_take_iff.mp List.prefix_rfl).1.trans hypothesis

/-- **One act is explained**, and the bytes that it hands out are the next ones. -/
theorem act_explained (mirrors : Mirrors session reference) (act : Act) :
    ∃ next, reference.Explains act (session.act act).1 next ∧ Mirrors (session.act act).2 next ∧
      Reply.handed (session.act act).1 ++ next.rest = reference.rest := by
  have front := fun view => content_front reference (reference.chain view)
  cases act with
  | bound view limit => exact ⟨_, ⟨rfl, rfl⟩, mirrors.bound view limit, rfl⟩
  | readExact view count =>
    have plain := (mirrors.plain _ (session.view_mem view)).1
    obtain ⟨after, same, spends⟩ := View.readExact_plain plain count
    have within : View.spentBy count ((session.view view).content session.streams) ≤
        ((session.view view).content session.streams).length := by
      unfold View.spentBy
      split <;> omega
    have next := mirrors.spend view spends within
    rw [mirrors.content] at same next
    rw [show session.act (.readExact view count) = _ from run_operate same]
    refine ⟨_, ⟨rfl, rfl⟩, next, ?_⟩
    show _ ++ reference.rest.drop (View.spentBy count _) = _
    by_cases enough : count ≤ (reference.content (reference.chain view)).length
    · rw [View.exactly, View.spentBy, if_pos enough, if_pos enough]
      exact handed_append (front view) enough
    · rw [View.exactly, View.spentBy, if_neg enough, if_neg enough]
      rfl
  | readToEnd view =>
    have plain := (mirrors.plain _ (session.view_mem view)).1
    obtain ⟨after, same, spends⟩ := View.readToEnd_plain plain
    have next := mirrors.spend view spends (Nat.le_refl _)
    rw [mirrors.content] at same next
    rw [show session.act (.readToEnd view) = _ from run_operate same]
    refine ⟨_, ⟨rfl, rfl⟩, next, ?_⟩
    have all := handed_append (front view) (Nat.le_refl _)
    rwa [List.take_length] at all
  | peek view want =>
    have plain := (mirrors.plain _ (session.view_mem view)).1
    obtain ⟨after, same, spends, enough⟩ := View.fillBuf_plain plain want
    have seen := (session.view view).held_front after
    rw [spends.content, List.drop_zero, mirrors.content] at seen
    rw [mirrors.content] at enough
    have next := mirrors.spend view spends (Nat.zero_le _)
    rw [Reference.spend_zero] at next
    rw [show session.act (.peek view want) = _ from run_operate same]
    exact ⟨reference, ⟨_, ⟨seen, enough⟩, rfl, rfl⟩, next, rfl⟩
  | skip view want count =>
    have plain := (mirrors.plain _ (session.view_mem view)).1
    have whole : ∀ cell ∈ (session.view view).cells,
        0 ≤ (session.streams.bounds.get cell).left := by
      intro cell member
      rw [mirrors.counters _ (session.view_mem view) cell member]
      exact Int.natCast_nonneg _
    obtain ⟨peeked, after, same, peekable, spends⟩ := peekAndDrop_plain plain whole want count
    have within : min count peeked.length ≤
        ((session.view view).content session.streams).length :=
      Nat.le_trans (Nat.min_le_right _ _) peekable.1.length_le
    have next := mirrors.spend view spends within
    rw [mirrors.content] at peekable
    rw [show session.act (.skip view want count) = _ from run_operate same]
    refine ⟨_, ⟨peeked, peekable, rfl, rfl⟩, next, ?_⟩
    exact handed_append (peekable.1.trans (front view)) (Nat.min_le_right _ _)

/-! ### Whole sessions -/

/-- **A sequence of acts is explained** from any session that the reference stands for. -/
theorem run_mirrors (mirrors : Mirrors session reference) (acts : List Act) :
    ∃ last, reference.ExplainsAll acts (session.run acts).1 last ∧
      Mirrors (session.run acts).2 last ∧
      (session.run acts).1.flatMap Reply.handed ++ last.rest = reference.rest := by
  induction acts generalizing session reference with
  | nil => exact ⟨reference, rfl, mirrors, rfl⟩
  | cons act acts hypothesis =>
    obtain ⟨next, explains, mirrorsNext, handed⟩ := act_explained mirrors act
    obtain ⟨last, explainsAll, mirrorsLast, handedAll⟩ := hypothesis mirrorsNext
    refine ⟨last, ⟨next, explains, explainsAll⟩, mirrorsLast, ?_⟩
    show (Reply.handed _ ++ List.flatMap _ _) ++ _ = _
    rw [List.append_assoc, handedAll, handed]

omit [ChunkCodec κ] in
/-- A root without bounds over it that gives a byte string, seen as a session. -/
theorem mirrors_of_root {root : View} {streams : Streams κ} {bytes : Bytes}
    (plain : root.Plain streams) (bare : root.cells = []) (content : root.content streams = bytes)
    (position : root.position streams = 0) :
    Mirrors ⟨root, [root], streams⟩ { rest := bytes, next := streams.bounds.size } := by
  have only : ∀ view ∈ [root, root], view = root := by
    intro view member
    rcases List.mem_cons.mp member with same | same
    · exact same
    · exact List.mem_singleton.mp same
  have isRoot : root.root = root := by
    cases root with
    | take cell parent => exact absurd bare (List.cons_ne_nil _ _)
    | source _ _ | cursor _ | transformed _ _ => rfl
  refine ⟨bare, content, position, ?_, ?_, ?_, rfl⟩
  · intro view member
    rw [only view member]
    exact ⟨plain, isRoot⟩
  · rw [List.map_singleton, bare]
  · intro view member cell inside
    rw [only view member, bare] at inside
    exact absurd inside List.not_mem_nil

omit [ChunkCodec κ] in
/-- A root that was just opened gives its byte string. -/
theorem opened_plain {streams : Streams κ} {opening : Opening} {bytes : Bytes}
    (gives : opening.Gives streams.driver bytes) :
    (opening.open streams).1.Plain (opening.open streams).2 ∧
      (opening.open streams).1.cells = [] ∧
      (opening.open streams).1.content (opening.open streams).2 = bytes ∧
      (opening.open streams).1.position (opening.open streams).2 = 0 := by
  cases opening with
  | source own input =>
    obtain ⟨driven, delivers⟩ := gives
    obtain ⟨fair, rest⟩ := Source.opened_fair delivers
    have opened : (streams.sources.push { input := input }).get streams.sources.size =
        { input := input } := by
      rw [Table.get_push, if_pos rfl]
    refine ⟨⟨driven, ?_⟩, rfl, ?_, ?_⟩
    · show ((streams.sources.push _).get streams.sources.size).Fair
      rw [opened]
      exact fair
    · show ((streams.sources.push _).get streams.sources.size).rest = _
      rw [opened, rest]
    · show ((streams.sources.push _).get streams.sources.size).buffer.position = _
      rw [opened]
  | cursor content =>
    refine ⟨trivial, rfl, ?_, ?_⟩
    · show ((streams.cursors.push _).get streams.cursors.size).buffer.content = _
      rw [Table.get_push, if_pos rfl]
      exact gives
    · show ((streams.cursors.push _).get streams.cursors.size).buffer.position = _
      rw [Table.get_push, if_pos rfl]

/-- **The view stack refines the reference.** Whatever acts run on a root that gives a byte string
and on the views over it, the reference explains every reply; as many bytes went through each view
as the reference says, and the bytes that were handed out are a front of the byte string, of which
the rest is still to come. -/
theorem run_explained (streams : Streams κ) (opening : Opening) (bytes : Bytes)
    (gives : opening.Gives streams.driver bytes) (acts : List Act) :
    let session := (Session.start streams opening).run acts
    ∃ reference : Reference,
      Reference.ExplainsAll { rest := bytes, next := (opening.open streams).2.bounds.size } acts
        session.1 reference ∧
      (∀ view, (session.2.view view).position session.2.streams =
        reference.position (reference.chain view)) ∧
      session.1.flatMap Reply.handed ++ reference.rest = bytes := by
  obtain ⟨plain, bare, content, position⟩ := opened_plain gives
  obtain ⟨reference, explains, mirrors, handed⟩ :=
    run_mirrors (mirrors_of_root plain bare content position) acts
  exact ⟨reference, explains, mirrors.position, handed⟩

/-- Three bytes that come two at a time, read through a bound of two and then to the end. -/
theorem run_explained_in_two_chunks :
    let opening : Opening := .source .blocking (Input.ofBytes 2 [1, 2, 3])
    let acts : List Act := [.bound 0 2, .readExact 1 1, .peek 1 5, .readToEnd 0]
    let session := (Session.start ({} : Streams Codec) opening).run acts
    opening.Gives .blocking [1, 2, 3] ∧
      session.1 = [.ok .opened, .ok (.bytes [1]), .ok (.peeked [2]), .ok (.bytes [2, 3])] ∧
      ∃ reference : Reference,
        Reference.ExplainsAll { rest := [1, 2, 3], next := 0 } acts session.1 reference ∧
        (∀ view, (session.2.view view).position session.2.streams =
          reference.position (reference.chain view)) ∧
        session.1.flatMap Reply.handed ++ reference.rest = [1, 2, 3] := by
  have gives : (Opening.source .blocking (Input.ofBytes 2 [1, 2, 3])).Gives .blocking [1, 2, 3] :=
    ⟨rfl, Input.ofBytes_delivers 2 [1, 2, 3] (by decide)⟩
  exact ⟨gives, rfl, run_explained ({} : Streams Codec) _ _ gives _⟩

end Session

end WireProgram
