/-
**A compressed member, whatever its bytes.**

What a view makes of a compressed member is what the reader of members makes of the bytes of its parent at
once: the content of the member, with the bytes after the member still in the parent; or the fault for
which the member is refused; or a truncated member, when the parent ends inside it. So it makes no
difference in which chunks those bytes are delivered, also when they are no member at all. The main
definitions and statements:

* `Gzip.Member.takeAll_suffix`, the bytes that a reader leaves;
* `View.Leaves`, a view that is read to its end and what its parent has left;
* `Codec.denote_gzip` and `Codec.readToEnd_gzip`, what the codec and a view over any parent make of a byte
  string;
* `Codec.readToEnd_gzip_delivered`, the same of two deliveries of it.
-/

import WireProgram.Proofs.Stream.Decoded

namespace WireProgram

namespace Gzip.Member

variable {member next : Member} {bytes rest : Bytes}

/-- A reader takes bytes from the front and leaves the others. -/
theorem takeAll_suffix (taken : member.takeAll bytes = .ok (next, rest)) : rest <:+ bytes := by
  induction bytes generalizing member with
  | nil =>
    cases taken
    exact List.suffix_rfl
  | cons byte others hypothesis =>
    rw [takeAll] at taken
    by_cases complete : member.isComplete = true
    · rw [if_pos complete] at taken
      cases taken
      exact List.suffix_rfl
    · rw [if_neg complete] at taken
      cases one : member.takeByte byte with
      | error fault =>
        rw [one] at taken
        cases taken
      | ok first =>
        rw [one] at taken
        exact (hypothesis taken).trans (List.suffix_cons ..)

end Gzip.Member

/-- A view that was opened over a parent and is read to its end gives some bytes, and the parent still has
others. -/
def View.Leaves (opened : View × Streams Codec) (parent : View) (output rest : Bytes) : Prop :=
  ∃ after, opened.1.readToEnd.run opened.2 = (.ok output, after) ∧
    (parent.readToEnd.run after).1 = .ok rest

namespace Codec

open ChunkCodec

variable {streams : Streams Codec} {parent : View} {content : Bytes}

/-- What the codec makes of a byte string is what the reader of members makes of it. -/
theorem denote_gzip (content : Bytes) :
    denote (Codec.gzip {} none) content =
      match ({} : Gzip.Member).takeAll content with
      | .error fault => .error (.decode (.malformedGzip fault))
      | .ok (member, rest) =>
        if member.isComplete then
          .ok (member.body.output.toList, (content.length : Int) - (rest.length : Int))
        else .error (.decode .truncatedMember) := by
  cases content with
  | nil => rfl
  | cons byte others =>
    unfold denote
    rw [List.isEmpty_cons, if_neg Bool.false_ne_true, feed_gzip]
    rcases ({} : Gzip.Member).takeAll (byte :: others) with fault | ⟨member, rest⟩
    · rfl
    · have whole : (member.body.output.extract 0 member.body.output.size).toList =
          member.body.output.toList := by rw [Array.extract_size]
      have waits : (ChunkCodec.finish (Codec.gzip member none)).1 =
          if member.isComplete then .ok [] else .error (.decode .truncatedMember) := rfl
      dsimp only
      rw [waits]
      cases complete : member.isComplete with
      | true =>
        have done : ChunkCodec.finished (Codec.gzip member none) = true := complete
        rw [if_pos done, if_pos rfl]
        exact congrArg (fun bytes => Except.ok (bytes, _)) whole
      | false =>
        have wants : ¬ChunkCodec.finished (Codec.gzip member none) = true :=
          Bool.eq_false_iff.mp complete
        rw [if_neg wants, if_neg Bool.false_ne_true]
        rfl

/-- A view over a parent that gives a byte string, read to its end. -/
theorem readToEnd_gzip (ready : parent.Ready streams)
    (fresh : streams.transforms.size ∉ parent.stages)
    (gives : (parent.readToEnd.run streams).1 = .ok content) :
    let opened := streams.openTransformed parent (.gzip {} none)
    match ({} : Gzip.Member).takeAll content with
    | .error fault => (opened.1.readToEnd.run opened.2).1 = .error (.decode (.malformedGzip fault))
    | .ok (member, rest) =>
      if member.isComplete then View.Leaves opened parent member.body.output.toList rest
      else (opened.1.readToEnd.run opened.2).1 = .error (.decode .truncatedMember) := by
  have meets : Meets (Codec.gzip {} none) := divisible_meets trivial
  have decoded := View.readToEnd_denote ready fresh gives meets
  rw [denote_gzip] at decoded
  cases taken : ({} : Gzip.Member).takeAll content with
  | error fault =>
    rw [taken] at decoded
    exact decoded
  | ok result =>
    obtain ⟨member, rest⟩ := result
    obtain ⟨front, rfl⟩ := Gzip.Member.takeAll_suffix taken
    rw [taken] at decoded
    dsimp only at decoded ⊢
    cases complete : member.isComplete with
    | true =>
      have used : (((front ++ rest).length : Int) - (rest.length : Int)).toNat = front.length := by
        rw [List.length_append]
        omega
      rw [complete, if_pos rfl] at decoded
      dsimp only at decoded
      rwa [used, List.drop_left] at decoded
    | false =>
      rw [complete, if_neg Bool.false_ne_true] at decoded
      exact decoded

/-- A source that was just opened is ready, and gives what its input delivers. -/
theorem opened_gives {input : Input} (delivers : input.Delivers content) (streams : Streams Codec) :
    let root := streams.openSource streams.driver input
    root.1.Ready root.2 ∧ (root.1.readToEnd.run root.2).1 = .ok content := by
  intro root
  obtain ⟨fair, rest⟩ := Source.opened_fair delivers
  have new : root.2.sources.get streams.sources.size = { input := input } := Table.get_push_self _ _
  have lawful : View.Lawful root.2 root.1 := ⟨rfl, new ▸ fair⟩
  have yields : View.yield root.2 root.1 = .ok content := congrArg Except.ok (new ▸ rest)
  exact ⟨trivial, View.readToEnd_yield trivial lawful yields⟩

/-- **Two deliveries of a byte string** come to the same, whatever its bytes: a view that decompresses the
one and a view that decompresses the other either give the same bytes and leave the same bytes after the
member, or fail with the same fault. -/
theorem readToEnd_gzip_delivered {input input' : Input} (delivers : input.Delivers content)
    (delivers' : input'.Delivers content) (streams streams' : Streams Codec) :
    let root := streams.openSource streams.driver input
    let root' := streams'.openSource streams'.driver input'
    let opened := root.2.openTransformed root.1 (.gzip {} none)
    let opened' := root'.2.openTransformed root'.1 (.gzip {} none)
    (∃ output rest, rest <:+ content ∧ View.Leaves opened root.1 output rest ∧
      View.Leaves opened' root'.1 output rest) ∨
    ∃ cause : DecodeFault, (opened.1.readToEnd.run opened.2).1 = .error (.decode cause) ∧
      (opened'.1.readToEnd.run opened'.2).1 = .error (.decode cause) := by
  intro root root' opened opened'
  obtain ⟨ready, gives⟩ := opened_gives delivers streams
  obtain ⟨ready', gives'⟩ := opened_gives delivers' streams'
  have decoded := readToEnd_gzip ready List.not_mem_nil gives
  have decoded' := readToEnd_gzip ready' List.not_mem_nil gives'
  cases taken : ({} : Gzip.Member).takeAll content with
  | error fault =>
    rw [taken] at decoded decoded'
    exact .inr ⟨_, decoded, decoded'⟩
  | ok result =>
    obtain ⟨member, rest⟩ := result
    rw [taken] at decoded decoded'
    dsimp only at decoded decoded'
    cases complete : member.isComplete with
    | true =>
      rw [complete, if_pos rfl] at decoded decoded'
      exact .inl ⟨_, rest, Gzip.Member.takeAll_suffix taken, decoded, decoded'⟩
    | false =>
      rw [complete, if_neg Bool.false_ne_true] at decoded decoded'
      exact .inr ⟨_, decoded, decoded'⟩

/-- A member of one byte with a byte after it, at once and byte by byte; and the same with a wrong check,
cut inside its header and inside its trailer. -/
theorem readToEnd_gzip_delivered_of_member :
    let front : Bytes := [0x1F, 0x8B, 8, 0, 0, 0, 0, 0, 0, 3, 1, 1, 0, 0xFE, 0xFF, 65, 0x8B, 0x9E]
    let good : Bytes := front ++ [0xD9, 0xD3, 1, 0, 0, 0, 7]
    let bad : Bytes := front ++ [0xD9, 0xD4, 1, 0, 0, 0]
    let opened := fun (input : Input) =>
      let root := ({} : Streams Codec).openSource .blocking input
      (root.1, root.2.openTransformed root.1 (.gzip {} none))
    let whole := opened ⟨[.bytes good], 0⟩
    let bytewise := opened (Input.ofBytes 1 good)
    let first := opened ⟨[.bytes (bad.take 3), .bytes (bad.drop 3)], 0⟩
    let second := opened ⟨[.bytes (bad.take 19), .bytes (bad.drop 19)], 0⟩
    ((∃ output rest, rest <:+ good ∧ View.Leaves whole.2 whole.1 output rest ∧
        View.Leaves bytewise.2 bytewise.1 output rest) ∨
      ∃ cause : DecodeFault, (whole.2.1.readToEnd.run whole.2.2).1 = .error (.decode cause) ∧
        (bytewise.2.1.readToEnd.run bytewise.2.2).1 = .error (.decode cause)) ∧
    ((∃ output rest, rest <:+ bad ∧ View.Leaves first.2 first.1 output rest ∧
        View.Leaves second.2 second.1 output rest) ∨
      ∃ cause : DecodeFault, (first.2.1.readToEnd.run first.2.2).1 = .error (.decode cause) ∧
        (second.2.1.readToEnd.run second.2.2).1 = .error (.decode cause)) := by
  intro front good bad opened whole bytewise first second
  have cut : ∀ left right : Bytes, left ≠ [] → right ≠ [] →
      Input.Delivers ⟨[.bytes left, .bytes right], 0⟩ (left ++ right) := fun left right one two =>
    ⟨by rintro _ (_ | ⟨_, _ | ⟨_, ⟨⟩⟩⟩) <;> assumption, congrArg (left ++ ·) (List.append_nil right)⟩
  have atOnce : Input.Delivers ⟨[.bytes good], 0⟩ good :=
    ⟨by rintro _ (_ | ⟨_, ⟨⟩⟩); exact List.cons_ne_nil _ _, List.append_nil good⟩
  exact ⟨readToEnd_gzip_delivered atOnce (Input.ofBytes_delivers 1 good (by decide)) {} {},
    readToEnd_gzip_delivered (cut (bad.take 3) (bad.drop 3) (List.cons_ne_nil _ _) (List.cons_ne_nil _ _))
      (cut (bad.take 19) (bad.drop 19) (List.cons_ne_nil _ _) (List.cons_ne_nil _ _)) {} {}⟩

end Codec

end WireProgram
