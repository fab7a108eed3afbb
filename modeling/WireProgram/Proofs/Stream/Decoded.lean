/-
**A transformed view gives what its codec makes of the bytes of its parent.**

However the bytes of the parent come and whatever calls read the view, together they get what the codec
makes of all bytes of the parent at once, or the fault that it makes of them; and when the view is at
its end, the parent still has what the codec did not use. The main definitions and statements:

* `View.Took`, what a read does to a transformed view, and one statement for each operation;
* `View.readToEnd_openTransformed` and `View.readToEnd_denote`, a new view that is read to its end;
* `Act.Reads`, an operation that opens no view, and `Session.run_decoded`, sequences of them;
* `View.Lawful` and `View.yield`, a stack of codecs that keep their contracts and what it gives;
* `Session.run_denotes`, the two together.
-/

import WireProgram.Proofs.Codec.Division
import WireProgram.Proofs.Stream.Feed
import WireProgram.Proofs.Stream.Ledger

namespace WireProgram

namespace View

variable {κ : Type} [ChunkCodec κ] {streams before middle after : Streams κ} {view parent : View}
  {cell count want : Nat}

/-! ### Operations on a transformed view -/

/-- What taking bytes through a view does to it: the others still come, and in the end it leaves the
same to its parent. -/
structure Took (view : View) (count : Nat) (before after : Streams κ) : Prop where
  ready : view.Ready after
  bytes : (view.course after).bytes = (view.course before).bytes.drop count
  fault : (view.course after).fault = (view.course before).fault
  residue : view.residue after = view.residue before

theorem Took.trans {first second : Nat} (one : view.Took first before middle)
    (two : view.Took second middle after) : view.Took (first + second) before after where
  ready := two.ready
  bytes := by rw [two.bytes, one.bytes, List.drop_drop]
  fault := two.fault.trans one.fault
  residue := two.residue.trans one.residue

theorem Dropped.took (dropped : view.Dropped count before after)
    (enough : count ≤ (view.held before).length) : view.Took count before after where
  ready := dropped.ready
  bytes := by
    unfold View.course
    rw [dropped.held, dropped.later, Course.bytes_push, Course.bytes_push,
      List.drop_append_of_le_length enough]
  fault := by
    unfold View.course
    rw [dropped.held, dropped.later, Course.fault_push, Course.fault_push]
  residue := dropped.residue

/-- Preparing takes nothing; it fails only if the fault comes before as many bytes as wanted. -/
theorem prepare_decoded (ready : (View.transformed cell parent).Ready streams) (want : Nat) :
    ∃ result after, (prepare cell parent (parent.fillBuf 1) parent.consume want).run streams =
        (result, after) ∧
      match result with
      | .error fault => ((View.transformed cell parent).course streams).fault = some fault
      | .ok _ =>
        (View.transformed cell parent).Took 0 streams after ∧
          (View.transformed cell parent).held after <+:
            ((View.transformed cell parent).course streams).bytes ∧
          (want ≤ ((View.transformed cell parent).held after).length ∨
            (View.transformed cell parent).held after =
                ((View.transformed cell parent).course streams).bytes ∧
              ((View.transformed cell parent).course streams).fault = none) := by
  obtain ⟨codec, has, -⟩ := ready.2.2.2
  obtain ⟨after, ran, filled⟩ := prepare_run parent.peeks ready has want
  have keeps := ((streams.transforms.get cell).coding codec
    (parent.course streams)).prepare_keeps want
  refine ⟨_, after, ran, ?_⟩
  rw [course_transformed has]
  cases prepared : (((streams.transforms.get cell).coding codec
      (parent.course streams)).prepare want).1 with
  | error fault =>
    rw [prepared] at keeps
    exact keeps.1
  | ok done =>
    rw [prepared] at keeps
    obtain ⟨⟨bytes, fault⟩, enough⟩ := keeps
    obtain ⟨course, held⟩ := (filled prepared).course
    refine ⟨⟨(filled prepared).ready, ?_, ?_, ?_⟩, ?_, ?_⟩
    · rw [course, bytes, course_transformed has, List.drop_zero]
    · rw [course, fault, course_transformed has]
    · rw [(filled prepared).residue, residue_transformed has, Coding.prepare_residue _ _ prepared]
    · rw [held, ← bytes, Coding.course, Course.bytes_push]
      exact List.prefix_append _ _
    · rw [held]
      refine enough.imp_right fun finished => ?_
      have past : (((streams.transforms.get cell).coding codec
          (parent.course streams)).prepare want).2.later = .ended := if_pos finished
      unfold Coding.course at bytes fault
      rw [past, Course.bytes_push, Course.bytes, List.append_nil] at bytes
      rw [past, Course.fault_push] at fault
      exact ⟨bytes, fault.symm⟩

/-- The result of an operation on a view is right, or it is the fault among its bytes. If there is
such a fault, the operation does not fail for anything else. -/
def Answers {α : Type} (view : View) (right : Nat → Except Fault α → Prop) (before : Streams κ)
    (result : Except Fault α) (after : Streams κ) : Prop :=
  (∃ fault, (view.course before).fault = some fault ∧ result = .error fault) ∨
    ∃ count, right count result ∧ view.Took count before after ∧
      ((view.course before).fault = none ∨ result.isOk = true)

/-- Reading exactly so many bytes. -/
theorem readExact_decoded (ready : (View.transformed cell parent).Ready streams) (count : Nat) :
    ∃ result after, ((View.transformed cell parent).readExact count).run streams =
        (result, after) ∧
      (View.transformed cell parent).Answers (fun spent result =>
        result = exactly count ((View.transformed cell parent).course streams).bytes ∧
          spent = spentBy count ((View.transformed cell parent).course streams).bytes)
        streams result after := by
  obtain ⟨result, middle, ran, prepared⟩ := prepare_decoded ready count
  have natural : ¬(count : Int) < 0 := by omega
  rw [readExact, if_neg natural, run_bind, Int.toNat_natCast, ran]
  cases result with
  | error fault => exact ⟨.error fault, middle, rfl, .inl ⟨fault, prepared, rfl⟩⟩
  | ok done =>
    obtain ⟨took, front, enough⟩ := prepared
    by_cases within : count ≤ ((View.transformed cell parent).held middle).length
    · have most := front.length_le
      have dropped := dropped_layer took.ready count
      have both := took.trans (dropped.took within)
      rw [Nat.zero_add] at both
      refine ⟨.ok (((View.transformed cell parent).held middle).take count), _,
        run_onTransformed ?_, .inr ⟨count, ⟨?_, ?_⟩, both, .inr rfl⟩⟩
      · simp only [Buffer.read_held _ _ within]
        rfl
      · obtain ⟨others, same⟩ := front
        rw [exactly, if_pos (by omega), ← same, List.take_append_of_le_length within]
      · rw [spentBy, if_pos (by omega)]
    · obtain ⟨all, sound⟩ := enough.resolve_left within
      have still := dropped_layer took.ready 0
      have both := took.trans (still.took (Nat.zero_le _))
      rw [Nat.zero_add] at both
      refine ⟨.error (.decode (.shortRead count ((View.transformed cell parent).held middle).length)),
        _, run_onTransformed ?_, .inr ⟨0, ⟨?_, ?_⟩, both, .inl sound⟩⟩
      · simp only [Buffer.read_short _ _ (Nat.lt_of_not_le within)]
        rfl
      · rw [exactly, ← all, if_neg within]
      · rw [spentBy, ← all, if_neg within]

/-- Peeking. -/
theorem fillBuf_decoded (ready : (View.transformed cell parent).Ready streams) (want : Nat) :
    ∃ result after, ((View.transformed cell parent).fillBuf want).run streams = (result, after) ∧
      (View.transformed cell parent).Answers (fun spent result =>
        spent = 0 ∧ result = .ok ((View.transformed cell parent).held after) ∧
          Reference.Peekable ((View.transformed cell parent).course streams).bytes want
            ((View.transformed cell parent).held after))
        streams result after := by
  obtain ⟨result, after, ran, prepared⟩ := prepare_decoded ready (max want 1)
  rw [fillBuf, run_bind, ran]
  cases result with
  | error fault => exact ⟨.error fault, after, rfl, .inl ⟨fault, prepared, rfl⟩⟩
  | ok done =>
    obtain ⟨took, front, enough⟩ := prepared
    refine ⟨_, after, rfl, .inr ⟨0, ⟨rfl, rfl, front, ?_⟩, took, .inr rfl⟩⟩
    rcases enough with enough | ⟨all, -⟩
    · exact Nat.le_trans (Nat.min_le_left _ _) enough
    · rw [all]
      exact Nat.min_le_right _ _

/-- Peeking and dropping. -/
theorem peekAndDrop_decoded (ready : (View.transformed cell parent).Ready streams)
    (want count : Nat) :
    ∃ result after, (Session.peekAndDrop (View.transformed cell parent) want count).run streams =
        (result, after) ∧
      (View.transformed cell parent).Answers (fun spent result =>
        ∃ peeked, result = .ok (peeked, spent) ∧ spent = min count peeked.length ∧
          Reference.Peekable ((View.transformed cell parent).course streams).bytes want peeked)
        streams result after := by
  obtain ⟨result, middle, ran, answers⟩ := fillBuf_decoded ready want
  rw [Session.peekAndDrop, run_bind, ran]
  rcases answers with ⟨fault, comes, rfl⟩ | ⟨spent, ⟨rfl, rfl, peekable⟩, took, -⟩
  · exact ⟨.error fault, middle, rfl, .inl ⟨fault, comes, rfl⟩⟩
  · have within : min count ((View.transformed cell parent).held middle).length ≤
        ((View.transformed cell parent).held middle).length := Nat.min_le_right _ _
    obtain ⟨after, drops, dropped⟩ := consume_transformed took.ready within
    have both := took.trans (dropped.took within)
    rw [Nat.zero_add] at both
    refine ⟨_, after, ?_, .inr ⟨_, ⟨_, rfl, rfl, peekable⟩, both, .inr rfl⟩⟩
    show (consume _ _ >>= _ : StreamStep κ (Bytes × Nat)).run middle = _
    rw [run_bind, drops]
    rfl

/-- Reading to the end, which brings the view to its end. -/
theorem readToEnd_decoded (ready : view.Ready streams) :
    ∃ result after, view.readToEnd.run streams = (result, after) ∧
      ((∃ fault, (view.course streams).fault = some fault ∧ result = .error fault) ∨
        result = .ok (view.course streams).bytes ∧ (view.course streams).fault = none ∧
          view.Took (view.course streams).bytes.length streams after ∧
          view.atEnd after = true) := by
  obtain ⟨after, ran, drained⟩ := readToEnd_course ready
  refine ⟨_, after, ran, ?_⟩
  unfold Course.whole
  cases comes : (view.course streams).fault with
  | some fault => exact .inl ⟨fault, rfl, rfl⟩
  | none =>
    have last := drained comes
    refine .inr ⟨rfl, rfl, ⟨last.ready, ?_, ?_, last.residue⟩, last.atEnd⟩
    · rw [last.course, List.drop_length]
      rfl
    · rw [last.course, comes]
      rfl

end View

/-! ### Acts -/

/-- What the reference makes of a sequence of acts on bytes that end with a fault: each act before it
is explained, succeeds and does not come to the end. -/
def Reference.ExplainsUntil (fault : Fault) :
    Reference → List Act → List (Except Fault Reply) → Prop
  | _, [], replies => replies = []
  | _, _ :: _, [] => False
  | before, act :: acts, reply :: replies =>
    reply = .error fault ∨
      (reply.isOk = true ∧ ∀ number, act ≠ .readToEnd number) ∧
        ∃ middle, before.Explains act reply middle ∧ ExplainsUntil fault middle acts replies

/-- An act that opens no view. -/
def Act.Reads : Act → Prop
  | .bound _ _ => False
  | _ => True

namespace Session

variable {κ : Type} [ChunkCodec κ] {streams after : Streams κ} {parent : View} {cell : Nat}
  {reference : Reference}

/-- A reference without bounds that stands for the bytes that come from a view. -/
structure Stands (reference : Reference) (view : View) (streams : Streams κ) : Prop where
  rest : (view.course streams).bytes = reference.rest
  views : reference.views = [[]]

theorem Stands.chain {view : View} (stands : Stands reference view streams) (number : Nat) :
    reference.chain number = [] := by
  unfold Reference.chain
  rw [stands.views]
  cases number <;> rfl

theorem Stands.spend {view : View} {count : Nat} (stands : Stands reference view streams)
    (took : view.Took count streams after) : Stands (reference.spend [] count) view after where
  rest := by
    rw [took.bytes, stands.rest]
    rfl
  views := stands.views

/-- What an act on a transformed view comes to: the reference explains the reply, or it is the fault
among the bytes. If there is such a fault, the act does not fail for anything else and does not come to
the end. -/
theorem act_decoded (ready : (View.transformed cell parent).Ready streams)
    (stands : Stands reference (.transformed cell parent) streams) (act : Act) (reads : act.Reads) :
    ∃ reply after, (Session.mk (.transformed cell parent) [] streams).act act =
        (reply, ⟨.transformed cell parent, [], after⟩) ∧
      ((∃ fault, ((View.transformed cell parent).course streams).fault = some fault ∧
          reply = .error fault) ∨
        ∃ count next, reference.Explains act reply next ∧
          Stands next (.transformed cell parent) after ∧
          (View.transformed cell parent).Took count streams after ∧
          Reply.handed reply ++ next.rest = reference.rest ∧
          (((View.transformed cell parent).course streams).fault = none ∨
            reply.isOk = true ∧ ∀ number, act ≠ .readToEnd number)) := by
  have whole : ∀ number, reference.content (reference.chain number) =
      ((View.transformed cell parent).course streams).bytes := by
    intro number
    rw [stands.chain, stands.rest]
    rfl
  cases act with
  | bound number limit => exact reads.elim
  | readExact number count =>
    obtain ⟨result, after, ran, answers⟩ := View.readExact_decoded ready count
    refine ⟨result.map .bytes, after, run_operate ran, ?_⟩
    rcases answers with ⟨fault, comes, rfl⟩ | ⟨spent, ⟨rfl, rfl⟩, took, sound⟩
    · exact .inl ⟨fault, comes, rfl⟩
    · refine .inr ⟨_, reference.spend [] _, ⟨?_, ?_⟩, stands.spend took, took, ?_, ?_⟩
      · rw [whole]
      · rw [whole, stands.chain]
      · rw [stands.rest]
        unfold View.exactly View.spentBy
        split
        · exact handed_append List.prefix_rfl ‹_›
        · rfl
      · refine sound.imp_right fun fine => ⟨?_, fun _ wrong => by cases wrong⟩
        revert fine
        cases View.exactly count _ <;> exact id
  | readToEnd number =>
    obtain ⟨result, after, ran, ⟨fault, comes, rfl⟩ | ⟨rfl, sound, took, -⟩⟩ :=
      View.readToEnd_decoded ready
    · exact ⟨_, after, run_operate ran, .inl ⟨fault, comes, rfl⟩⟩
    · refine ⟨_, after, run_operate ran, .inr ⟨_, reference.spend [] _, ⟨?_, ?_⟩,
        stands.spend took, took, ?_, .inl sound⟩⟩
      · rw [whole]
        rfl
      · rw [whole, stands.chain]
      · rw [stands.rest]
        show reference.rest ++ reference.rest.drop _ = _
        rw [List.drop_length, List.append_nil]
  | peek number want =>
    obtain ⟨result, after, ran, ⟨fault, comes, rfl⟩ | ⟨spent, ⟨rfl, rfl, peekable⟩, took, -⟩⟩ :=
      View.fillBuf_decoded ready want
    · exact ⟨_, after, run_operate ran, .inl ⟨fault, comes, rfl⟩⟩
    · refine ⟨_, after, run_operate ran, .inr ⟨0, reference, ⟨_, ?_, rfl, rfl⟩, ?_, took, rfl,
        .inr ⟨rfl, fun _ wrong => by cases wrong⟩⟩⟩
      · rw [whole]
        exact peekable
      · have spent := stands.spend took
        rwa [Reference.spend_zero] at spent
  | skip number want count =>
    obtain ⟨result, after, ran, ⟨fault, comes, rfl⟩ | ⟨spent, ⟨peeked, rfl, rfl, peekable⟩, took, -⟩⟩ :=
      View.peekAndDrop_decoded ready want count
    · exact ⟨_, after, run_operate ran, .inl ⟨fault, comes, rfl⟩⟩
    · refine ⟨_, after, run_operate ran, .inr ⟨_, reference.spend [] _, ⟨peeked, ?_, rfl, ?_⟩,
        stands.spend took, took, ?_, .inr ⟨rfl, fun _ wrong => by cases wrong⟩⟩⟩
      · rw [whole]
        exact peekable
      · rw [stands.chain]
      · rw [stands.rest] at peekable
        exact handed_append peekable.1 (Nat.min_le_right _ _)

/-! ### Sequences of acts -/

/-- **Reading a transformed view** whose bytes come without a fault: the reference explains all
replies, and the bytes handed out are the first ones. -/
theorem run_decoded (reference : Reference)
    (ready : (View.transformed cell parent).Ready streams)
    (stands : Stands reference (.transformed cell parent) streams)
    (sound : ((View.transformed cell parent).course streams).fault = none) (acts : List Act)
    (reads : ∀ act ∈ acts, act.Reads) :
    ∃ replies after last count,
      (Session.mk (.transformed cell parent) [] streams).run acts =
        (replies, ⟨.transformed cell parent, [], after⟩) ∧
      reference.ExplainsAll acts replies last ∧
      Stands last (.transformed cell parent) after ∧
      (View.transformed cell parent).Took count streams after ∧
      replies.flatMap Reply.handed ++ last.rest = reference.rest := by
  induction acts generalizing streams reference with
  | nil =>
    exact ⟨[], streams, reference, 0, rfl, rfl, stands, ⟨ready, rfl, rfl, rfl⟩, rfl⟩
  | cons act acts hypothesis =>
    obtain ⟨reply, middle, ran, met | ⟨first, next, explains, standsNext, took, handed, -⟩⟩ :=
      act_decoded ready stands act (reads act (List.mem_cons_self ..))
    · obtain ⟨fault, comes, -⟩ := met
      rw [sound] at comes
      cases comes
    · obtain ⟨replies, after, last, second, others, explainsAll, standsLast, tookLast, handedAll⟩ :=
        hypothesis next took.ready standsNext (took.fault.trans sound)
          fun other member => reads other (List.mem_cons_of_mem _ member)
      refine ⟨reply :: replies, after, last, first + second, ?_, ⟨next, explains, explainsAll⟩,
        standsLast, took.trans tookLast, ?_⟩
      · rw [run, ran]
        dsimp only
        rw [others]
      · show (Reply.handed _ ++ List.flatMap _ _) ++ _ = _
        rw [List.append_assoc, handedAll, handed]

/-- Reading a transformed view whose bytes end with a fault: the acts are explained up to the fault,
and as long as all succeed the fault is still to come. -/
theorem run_faulty {fault : Fault} (reference : Reference)
    (ready : (View.transformed cell parent).Ready streams)
    (stands : Stands reference (.transformed cell parent) streams)
    (faulty : ((View.transformed cell parent).course streams).fault = some fault)
    (acts : List Act) (reads : ∀ act ∈ acts, act.Reads) :
    let ran := (Session.mk (View.transformed cell parent) [] streams).run acts
    reference.ExplainsUntil fault acts ran.1 ∧
      ((∀ reply ∈ ran.1, reply.isOk = true) →
        (View.transformed cell parent).Ready ran.2.streams ∧
          ((View.transformed cell parent).course ran.2.streams).fault = some fault) := by
  induction acts generalizing streams reference with
  | nil => exact ⟨rfl, fun _ => ⟨ready, faulty⟩⟩
  | cons act acts hypothesis =>
    obtain ⟨reply, middle, ran, met | ⟨count, next, explains, standsNext, took, -, fine⟩⟩ :=
      act_decoded ready stands act (reads act (List.mem_cons_self ..))
    · obtain ⟨other, comes, rfl⟩ := met
      rw [faulty] at comes
      cases comes
      rw [run, ran]
      refine ⟨.inl rfl, fun fine => ?_⟩
      have wrong := fine _ (List.mem_cons_self ..)
      cases wrong
    · have good := fine.resolve_left (by rw [faulty]; exact Option.some_ne_none _)
      obtain ⟨explainsAll, still⟩ := hypothesis next took.ready standsNext (took.fault.trans faulty)
        fun other member => reads other (List.mem_cons_of_mem _ member)
      rw [run, ran]
      exact ⟨.inr ⟨good, next, explains, explainsAll⟩, fun fine =>
        still fun other member => fine other (List.mem_cons_of_mem _ member)⟩

/-- A sequence with one more act at its end. -/
theorem run_concat (session : Session κ) (acts : List Act) (act : Act) :
    (session.run (acts ++ [act])).2 = ((session.run acts).2.act act).2 := by
  induction acts generalizing session with
  | nil => rfl
  | cons first acts hypothesis => exact hypothesis (session.act first).2

end Session

/-! ### Whole stacks -/

namespace View

variable {κ : Type} [ChunkCodec κ] {streams after : Streams κ} {parent view : View} {cell : Nat}
  {codec : κ} {content : Bytes}

omit [ChunkCodec κ] in
/-- Opening a codec leaves its parent as it is. -/
theorem untouched_openTransformed (fresh : streams.transforms.size ∉ parent.stages) (codec : κ) :
    parent.Untouched streams (streams.openTransformed parent codec).2 where
  driver := rfl
  sources := rfl
  cursors := rfl
  bounds _ _ := rfl
  transforms other inside := by
    show (streams.transforms.push _).get other = _
    rw [Table.get_push, if_neg]
    rintro rfl
    exact fresh inside

/-- A codec that was just opened: nothing is held, and all bytes of the parent are still to come. -/
theorem openTransformed_decoded (ready : parent.Ready streams)
    (fresh : streams.transforms.size ∉ parent.stages) (greedy : ChunkCodec.Greedy codec) :
    let opened := streams.openTransformed parent codec
    opened.1.Ready opened.2 ∧ opened.1.course opened.2 = (parent.course streams).through codec ∧
      opened.1.residue opened.2 = (parent.course streams).beyond codec := by
  have still := untouched_openTransformed fresh codec
  have layer : (streams.openTransformed parent codec).2.transforms.get streams.transforms.size =
      { codec := some codec, finished := false } := Table.get_push_self _ _
  have has : ((streams.openTransformed parent codec).2.transforms.get
      streams.transforms.size).codec = some codec := by rw [layer]
  refine ⟨⟨fresh, still.ready ready, ?_⟩, ?_, ?_⟩
  · rw [layer]
    exact ⟨fun wrong => (by cases wrong), codec, rfl, fun _ => greedy⟩
  · show (View.transformed _ parent).course _ = _
    rw [course_transformed has, layer, still.course]
    rfl
  · show (View.transformed _ parent).residue _ = _
    rw [residue_transformed has, layer, still.course]
    rfl

/-- A transformed view at its end: nothing comes any more, and its parent has what the codec left. -/
theorem course_atEnd (ready : (View.transformed cell parent).Ready streams)
    (past : (View.transformed cell parent).atEnd streams = true) :
    (View.transformed cell parent).course streams = .ended ∧
      (View.transformed cell parent).residue streams = parent.course streams := by
  obtain ⟨-, -, ends, codec, has, -⟩ := ready
  have atEnd : ((streams.transforms.get cell).buffer.ended &&
      (streams.transforms.get cell).buffer.content.isEmpty) = true := past
  rw [Bool.and_eq_true, List.isEmpty_iff] at atEnd
  have finished := ends atEnd.1
  refine ⟨?_, ?_⟩
  · rw [course_transformed has, Coding.course, Coding.later, Transformed.coding, finished, atEnd.2]
    rfl
  · rw [residue_transformed has, Coding.residue, Transformed.coding, finished]
    rfl

/-- **A codec that was just opened, read to its end,** gives what it makes of the bytes of its parent, and
the parent still has what the codec did not use. -/
theorem readToEnd_openTransformed (ready : parent.Ready streams)
    (fresh : streams.transforms.size ∉ parent.stages) (greedy : ChunkCodec.Greedy codec) :
    let opened := streams.openTransformed parent codec
    ∃ after, opened.1.readToEnd.run opened.2 =
        (((parent.course streams).through codec).whole, after) ∧
      (((parent.course streams).through codec).fault = none → parent.Ready after ∧
        parent.course after = (parent.course streams).beyond codec) := by
  obtain ⟨readyOpened, course, residue⟩ := openTransformed_decoded ready fresh greedy
  obtain ⟨after, ran, drained⟩ := readToEnd_course readyOpened
  rw [course] at ran drained
  refine ⟨after, ran, fun sound => ?_⟩
  have last := drained sound
  have settled := (course_atEnd last.ready last.atEnd).2
  exact ⟨last.ready.2.1, settled.symm.trans (last.residue.trans residue)⟩

theorem course_of_gives (ready : view.Ready streams)
    (gives : (view.readToEnd.run streams).1 = .ok content) :
    (view.course streams).bytes = content ∧ (view.course streams).fault = none := by
  obtain ⟨result, after, ran, ⟨fault, comes, rfl⟩ | ⟨rfl, sound, -⟩⟩ := readToEnd_decoded ready
  · rw [ran] at gives
    cases gives
  · rw [ran] at gives
    exact ⟨Except.ok.inj gives, sound⟩

theorem gives_of_course (ready : view.Ready streams) (bytes : (view.course streams).bytes = content)
    (sound : (view.course streams).fault = none) :
    (view.readToEnd.run streams).1 = .ok content := by
  obtain ⟨result, after, ran, ⟨fault, comes, rfl⟩ | ⟨rfl, -⟩⟩ := readToEnd_decoded ready
  · rw [sound] at comes
    cases comes
  · rw [ran, bytes]

/-- **A codec that keeps its contract, read to its end,** gives what it makes of the bytes of its parent
at once, and the parent still gives the bytes that it did not use; or it fails with the fault that it
makes of them. -/
theorem readToEnd_denote (ready : parent.Ready streams)
    (fresh : streams.transforms.size ∉ parent.stages)
    (gives : (parent.readToEnd.run streams).1 = .ok content) (meets : ChunkCodec.Meets codec) :
    let opened := streams.openTransformed parent codec
    match ChunkCodec.denote codec content with
    | .ok (output, used) => ∃ after, opened.1.readToEnd.run opened.2 = (.ok output, after) ∧
        (parent.readToEnd.run after).1 = .ok (content.drop used.toNat)
    | .error fault => (opened.1.readToEnd.run opened.2).1 = .error fault := by
  intro opened
  obtain ⟨bytes, sound⟩ := course_of_gives ready gives
  obtain ⟨after, ran, settles⟩ := readToEnd_openTransformed ready fresh meets.greedy
  have denotes := ChunkCodec.through_denote meets (parent.course streams) sound
  rw [bytes] at denotes
  cases denoted : ChunkCodec.denote codec content with
  | error fault =>
    rw [denoted] at denotes
    rw [Course.whole, denotes] at ran
    exact congrArg Prod.fst ran
  | ok result =>
    obtain ⟨output, used⟩ := result
    rw [denoted] at denotes
    obtain ⟨⟨outputs, accepted⟩, leaves, clean⟩ := denotes
    obtain ⟨readyAfter, left⟩ := settles accepted
    rw [Course.whole, accepted, outputs] at ran
    exact ⟨after, ran, gives_of_course readyAfter (by rw [left, leaves]) (by rw [left, clean])⟩

/-- A stack over a root that gives its bytes to the driver, whose codecs keep their contracts. -/
def Lawful (streams : Streams κ) : View → Prop
  | .source own cell => own = streams.driver ∧ (streams.sources.get cell).Fair
  | .cursor _ => True
  | .take _ parent => Lawful streams parent
  | .transformed cell parent =>
    Lawful streams parent ∧ ∀ codec, (streams.transforms.get cell).codec = some codec →
      (streams.transforms.get cell).finished = false → ChunkCodec.Meets codec

/-- What the codecs of a stack make of the bytes of its root, each one at once. -/
def yield (streams : Streams κ) : View → Except Fault Bytes
  | .source _ cell => .ok (streams.sources.get cell).rest
  | .cursor cell => .ok (streams.cursors.get cell).buffer.content
  | .take cell parent =>
    (yield streams parent).map (·.take (streams.bounds.get cell).left.toNat)
  | .transformed cell parent =>
    let layer := streams.transforms.get cell
    if layer.finished then .ok layer.buffer.content
    else
      match layer.codec with
      | none => .ok layer.buffer.content
      | some codec => do
        let content ← yield streams parent
        let result ← ChunkCodec.denote codec content
        return layer.buffer.content ++ result.1

/-- The bytes of a stack come as its codecs make them, in whatever pieces. -/
theorem course_yield (lawful : view.Lawful streams) (yields : view.yield streams = .ok content) :
    (view.course streams).bytes = content ∧ (view.course streams).fault = none := by
  induction view generalizing content with
  | source own cell =>
    obtain ⟨rfl, fair⟩ := lawful
    cases yields
    obtain ⟨bytes, none⟩ := Source.later_fair fair streams.driver
    exact ⟨(Course.bytes_push _ _).trans bytes, (Course.fault_push _ _).trans none⟩
  | cursor cell =>
    cases yields
    exact ⟨(Course.bytes_push _ _).trans (List.append_nil _), Course.fault_push _ _⟩
  | take cell parent hypothesis =>
    unfold yield at yields
    cases inner : parent.yield streams with
    | error fault =>
      rw [inner] at yields
      cases yields
    | ok bytes =>
      rw [inner] at yields
      cases yields
      obtain ⟨comes, sound⟩ := hypothesis lawful inner
      rw [course_take, ← comes]
      exact Course.cut_sound _ sound
  | transformed cell parent hypothesis =>
    obtain ⟨lawfulParent, meets⟩ := lawful
    unfold yield at yields
    dsimp only at yields
    unfold course later Transformed.later
    rw [Course.bytes_push, Course.fault_push]
    by_cases finished : (streams.transforms.get cell).finished = true
    · rw [if_pos finished] at yields ⊢
      cases yields
      exact ⟨List.append_nil _, rfl⟩
    · rw [if_neg finished] at yields ⊢
      cases has : (streams.transforms.get cell).codec with
      | none =>
        rw [has] at yields
        cases yields
        exact ⟨List.append_nil _, rfl⟩
      | some codec =>
        rw [has] at yields
        cases inner : parent.yield streams with
        | error fault =>
          rw [inner] at yields
          cases yields
        | ok bytes =>
          obtain ⟨comes, sound⟩ := hypothesis lawfulParent inner
          have denotes := ChunkCodec.through_denote (meets codec has (by simpa using finished))
            (parent.course streams) sound
          rw [comes] at denotes
          rw [inner] at yields
          change (ChunkCodec.denote codec bytes >>= _) = _ at yields
          cases denoted : ChunkCodec.denote codec bytes with
          | error fault =>
            rw [denoted] at yields
            cases yields
          | ok result =>
            rw [denoted] at yields denotes
            cases yields
            exact ⟨congrArg (_ ++ ·) denotes.1.1, denotes.1.2⟩

/-- **A stack of codecs** gives what they make of the bytes of its root, one after the other, in
whatever pieces the bytes come. -/
theorem readToEnd_yield (ready : view.Ready streams) (lawful : view.Lawful streams)
    (yields : view.yield streams = .ok content) :
    (view.readToEnd.run streams).1 = .ok content :=
  have comes := course_yield lawful yields
  gives_of_course ready comes.1 comes.2

end View

/-- **A transformed view denotes its codec.** Let reading the parent to its end give some bytes, and
let the codec keep its contract. If the codec makes an output of those bytes, the acts on the view
are those on a byte string with that output; at its end all of it was handed out, and the parent still
gives the bytes that the codec did not use; and reading to the end brings the view there. If the codec
refuses those bytes, the acts are those on some byte string until one of them fails with its fault, and
the view does not come to its end before. -/
theorem Session.run_denotes {κ : Type} [ChunkCodec κ] {streams : Streams κ} {parent : View}
    {codec : κ} {content : Bytes} (ready : parent.Ready streams)
    (fresh : streams.transforms.size ∉ parent.stages)
    (gives : (parent.readToEnd.run streams).1 = .ok content) (meets : ChunkCodec.Meets codec)
    (acts : List Act) (reads : ∀ act ∈ acts, act.Reads) :
    let opened := streams.openTransformed parent codec
    let run := (Session.mk opened.1 [] opened.2).run
    match ChunkCodec.denote codec content with
    | .ok (output, used) =>
      (∃ last : Reference,
        Reference.ExplainsAll { rest := output } acts (run acts).1 last ∧
          (run acts).1.flatMap Reply.handed ++ last.rest = output ∧
          (opened.1.atEnd (run acts).2.streams = true → last.rest = [] ∧
            (parent.readToEnd.run (run acts).2.streams).1 = .ok (content.drop used.toNat))) ∧
        opened.1.atEnd (run (acts ++ [.readToEnd 0])).2.streams = true
    | .error fault =>
      (∃ bytes, Reference.ExplainsUntil fault { rest := bytes } acts (run acts).1) ∧
        ((∀ reply ∈ (run acts).1, reply.isOk = true) →
          opened.1.atEnd (run acts).2.streams = false) := by
  obtain ⟨bytes, sound⟩ := View.course_of_gives ready gives
  obtain ⟨readyOpened, course, residue⟩ :=
    View.openTransformed_decoded ready fresh meets.greedy
  have denotes := ChunkCodec.through_denote meets (parent.course streams) sound
  obtain ⟨cell, opened, same⟩ : ∃ cell opened,
    streams.openTransformed parent codec = (.transformed cell parent, opened) := ⟨_, _, rfl⟩
  rw [same] at readyOpened course residue
  rw [bytes, ← course, ← residue] at denotes
  rw [same]
  dsimp only at readyOpened denotes ⊢
  cases denoted : ChunkCodec.denote codec content with
  | error fault =>
    rw [denoted] at denotes
    obtain ⟨explains, still⟩ := run_faulty { rest := _ } readyOpened ⟨rfl, rfl⟩
      denotes acts reads
    refine ⟨⟨_, explains⟩, fun fine => ?_⟩
    obtain ⟨readyLast, comes⟩ := still fine
    rw [← Bool.not_eq_true]
    intro past
    rw [(View.course_atEnd readyLast past).1] at comes
    cases comes
  | ok result =>
    obtain ⟨output, used⟩ := result
    rw [denoted] at denotes
    obtain ⟨⟨outputs, none⟩, leaves, clean⟩ := denotes
    obtain ⟨replies, after, last, count, ran, explains, stands, took, handed⟩ :=
      run_decoded { rest := output } readyOpened ⟨outputs, rfl⟩ none acts reads
    rw [run_concat, ran]
    refine ⟨⟨last, explains, handed, fun past => ?_⟩, ?_⟩
    · obtain ⟨ended, settled⟩ := View.course_atEnd took.ready past
      have left := took.residue
      rw [settled] at left
      refine ⟨?_, View.gives_of_course took.ready.2.1 ?_ ?_⟩
      · rw [← stands.rest, ended]
        rfl
      · rw [left, leaves]
      · rw [left, clean]
    · obtain ⟨result, final, drains, ⟨fault, comes, -⟩ | ⟨-, -, -, past⟩⟩ :=
        View.readToEnd_decoded took.ready
      · rw [took.fault, none] at comes
        cases comes
      · show (View.transformed cell parent).atEnd
          ((View.transformed cell parent).readToEnd.run after).2 = true
        rw [drains]
        exact past

/-- A compressed member of one byte with two bytes after it, of which a bound allows for one: they come
four at a time, and the bound still gives its byte after the member. -/
theorem Session.run_denotes_of_member :
    let member : Bytes := [0x1F, 0x8B, 8, 0, 0, 0, 0, 0, 0, 3, 1, 1, 0, 0xFE, 0xFF, 65, 0x8B, 0x9E,
      0xD9, 0xD3, 1, 0, 0, 0]
    let root := ({} : Streams Codec).openSource .blocking (Input.ofBytes 4 (member ++ [7, 8]))
    let parent := root.2.openTake root.1 25
    let opened := parent.2.openTransformed parent.1 (.gzip {} none)
    let acts : List Act := [.peek 0 1, .readExact 0 2]
    let ran := (Session.mk opened.1 [] opened.2).run acts
    (parent.1.Ready parent.2 ∧ (parent.1.readToEnd.run parent.2).1 = .ok (member ++ [7]) ∧
      ChunkCodec.Meets (Codec.gzip {} none)) ∧
    (∃ last : Reference, Reference.ExplainsAll { rest := [65] } acts ran.1 last ∧
      ran.1.flatMap Reply.handed ++ last.rest = [65] ∧
      (opened.1.atEnd ran.2.streams = true → last.rest = [] ∧
        (parent.1.readToEnd.run ran.2.streams).1 = .ok [7])) := by
  intro member root parent opened acts ran
  have ready : parent.1.Ready parent.2 := ⟨List.not_mem_nil, trivial⟩
  have delivers := Input.ofBytes_delivers 4 (member ++ [7, 8]) (by decide)
  have gives : (parent.1.readToEnd.run parent.2).1 = .ok (member ++ [7]) :=
    View.readToEnd_yield ready ⟨rfl, (Source.opened_fair delivers).1⟩ rfl
  have meets : ChunkCodec.Meets (Codec.gzip {} none) := Codec.divisible_meets trivial
  have denoted : ChunkCodec.denote (Codec.gzip {} none) (member ++ [7]) = .ok ([65], 24) :=
    eq_ok_of_toOption (by decide +kernel)
  have denotes := run_denotes ready List.not_mem_nil gives meets acts (by simp [acts, Act.Reads])
  rw [denoted] at denotes
  exact ⟨⟨ready, gives, meets⟩, denotes.1⟩

end WireProgram
