/-
**How much a codec has given for the front of its input.**

A codec that takes a content does so however the content is cut: after every front of it the output is
the one that feeding this front at once gives. So how far its input has to be read for some number of
decoded bytes is a matter of the content, and only the ends of the pieces are a matter of the cut. The
main definitions and statements:

* `ChunkCodec.given`, what feeding a byte string at once gives;
* `ChunkCodec.Takes`, a codec that takes a content and stops at a place in it;
* `Codec.takes_gzip`, a compressed member with anything after it;
* `Codec.takes_base64`, a well-formed text.
-/

import WireProgram.Proofs.Codec.Groups

namespace WireProgram

namespace ChunkCodec

variable {κ : Type} [ChunkCodec κ] {codec state : κ} {content before : Bytes} {used : Nat}
  {Has : Bytes → κ → Prop}

/-- What comes out of a codec that is fed with a byte string at once; nothing if it refuses. -/
def given (codec : κ) (bytes : Bytes) : Bytes :=
  ((feed codec bytes).1.toOption.map Prod.fst).getD []

/-- How many pieces a codec has to be fed with before it has given so many bytes. -/
def FirstGives (codec : κ) (pieces : List Bytes) (want fed : Nat) : Prop :=
  (∀ fewer < fed, (given codec (pieces.take fewer).flatten).length < want) ∧
    want ≤ (given codec (pieces.take fed).flatten).length

/-- A codec that takes a content in whatever pieces it comes: `Has` says in which state it is after a
front of the content, and it stops once it has used so many bytes. -/
structure Takes (codec : κ) (content : Bytes) (used : Nat) (Has : Bytes → κ → Prop) : Prop where
  start : Has [] codec
  nothing : given codec [] = []
  step : ∀ {before piece state}, Has before state → piece ≠ [] → before ++ piece <+: content →
    ∃ out count next, feed state piece = (.ok (out, count), next) ∧
      given codec (before ++ piece) = given codec before ++ out ∧
      (finished next = false →
        Has (before ++ piece) next ∧ (before ++ piece).length ≤ used) ∧
      (finished next = true → before.length + count.toNat = used ∧
        used ≤ (before ++ piece).length ∧ given codec (before ++ piece) = given codec content)

/-- What a codec has given so far is the front of all that it gives. -/
theorem Takes.given_front (takes : Takes codec content used Has) (has : Has before state)
    (front : before <+: content) : given codec before <+: given codec content := by
  obtain ⟨rest, rfl⟩ := front
  by_cases last : rest = []
  · rw [last, List.append_nil]
  · obtain ⟨out, count, next, -, all, -⟩ := takes.step has last List.prefix_rfl
    rw [all]
    exact List.prefix_append _ _

end ChunkCodec

namespace Codec

open ChunkCodec

/-! ### Compressed members -/

section Members

variable {bytes rest first : Bytes} {member last : Gzip.Member}

/-- Where a fresh member stands after a front of a byte string that starts with a whole member. -/
theorem takeAll_front (taken : Gzip.Member.takeAll {} bytes = .ok (last, []))
    (complete : last.isComplete = true) (front : first <+: bytes ++ rest) :
    ∃ next others, Gzip.Member.takeAll {} first = .ok (next, others) ∧
      (next.isComplete = false → others = [] ∧ first.length ≤ bytes.length) ∧
      (next.isComplete = true → next = last ∧ bytes.length + others.length = first.length) := by
  rcases List.prefix_or_prefix_of_prefix front (List.prefix_append bytes rest) with
    ⟨more, same⟩ | ⟨more, same⟩
  · -- the front ends within the member
    have both := Gzip.Member.takeAll_append {} first more
    rw [same, taken] at both
    cases here : Gzip.Member.takeAll {} first with
    | error fault =>
      rw [here] at both
      cases both
    | ok result =>
      obtain ⟨next, others⟩ := result
      rw [here] at both
      refine ⟨next, others, rfl, fun wants => ⟨Gzip.Member.takeAll_rest here wants, ?_⟩,
        fun done => ?_⟩
      · rw [← same, List.length_append]
        omega
      · simp only [done, if_true] at both
        obtain ⟨rfl, none⟩ := Prod.mk.inj (Except.ok.inj both)
        obtain ⟨rfl, rfl⟩ := List.append_eq_nil_iff.mp none.symm
        rw [← same, List.append_nil]
        exact ⟨rfl, rfl⟩
  · -- the front goes beyond the member
    have both := Gzip.Member.takeAll_append {} bytes more
    rw [same, taken] at both
    simp only [complete, if_true] at both
    refine ⟨last, more, both, fun wants => ?_, fun _ => ⟨rfl, ?_⟩⟩
    · rw [complete] at wants
      cases wants
    · rw [← same, List.length_append]

/-- What a fresh member gives for a byte string at once. -/
theorem given_gzip (taken : Gzip.Member.takeAll {} first = .ok (member, rest)) :
    given (Codec.gzip {} none) first = member.body.output.toList := by
  unfold given
  rw [feed_gzip, taken]
  show (member.body.output.extract 0 member.body.output.size).toList = _
  rw [Array.extract_size]

/-- **A compressed member** is taken in whatever pieces it comes, and what follows it is left. -/
theorem takes_gzip (rest : Bytes) (taken : Gzip.Member.takeAll {} bytes = .ok (last, []))
    (complete : last.isComplete = true) :
    Takes (Codec.gzip {} none) (bytes ++ rest) bytes.length fun before state =>
      ∃ member, state = .gzip member none ∧ Gzip.Member.takeAll {} before = .ok (member, []) ∧
        member.isComplete = false where
  start := ⟨{}, rfl, rfl, rfl⟩
  nothing := rfl
  step := by
    rintro before piece state ⟨member, rfl, had, wants⟩ nonempty front
    obtain ⟨next, others, here, open_, done⟩ := takeAll_front taken complete front
    have both := Gzip.Member.takeAll_append {} before piece
    rw [had, here] at both
    simp only [wants, Bool.false_eq_true, if_false] at both
    have sane : (Gzip.Member.body {}).phase.Sane := trivial
    obtain ⟨_, -, grown⟩ := (Gzip.Member.takeAll_grows sane before).ok had
    obtain ⟨took, sum, more⟩ := (Gzip.Member.takeAll_grows grown.sane piece).ok both.symm
    dsimp only at sum
    refine ⟨(next.body.output.extract member.body.output.size next.body.output.size).toList,
      (piece.length : Int) - (others.length : Int), .gzip next none, ?_, ?_, fun wantsMore => ?_,
      fun stops => ?_⟩
    · rw [feed_gzip, ← both]
    · obtain ⟨added, same⟩ := more.front
      rw [given_gzip here, given_gzip had, ← same, toList_extract_added same.symm]
    · obtain ⟨rfl, within⟩ := open_ wantsMore
      exact ⟨⟨next, rfl, here, wantsMore⟩, within⟩
    · obtain ⟨rfl, total⟩ := done stops
      rw [List.length_append] at total
      refine ⟨by omega, by rw [List.length_append]; omega, ?_⟩
      have ended := Gzip.Member.takeAll_append {} bytes rest
      rw [taken] at ended
      simp only [complete, if_true] at ended
      rw [given_gzip here, given_gzip ended]

end Members

/-! ### Text -/

section Text

variable {text before : Bytes}

/-- What the codec gives at once for a front of a well-formed text: the bytes of its whole groups. -/
theorem given_base64 (wellFormed : Base64.WellFormed (solid text)) (front : before <+: text) :
    given (Codec.base64 []) before = Base64.plain (Base64.groups (solid before)) := by
  obtain ⟨rest, rfl⟩ := front
  rw [solid_append, ← Base64.groups_append_unfinished (solid before), List.append_assoc] at wellFormed
  unfold given
  rw [feed_base64, List.nil_append,
    decodeText_eq_ok.mpr (wellFormed.split (Base64.dvd_length_groups _)).1.decode]
  rfl

/-- **A well-formed text** is taken in whatever pieces it comes, to its end. -/
theorem takes_base64 (wellFormed : Base64.WellFormed (solid text)) :
    Takes (Codec.base64 []) text text.length fun before state =>
      state = .base64 (Base64.unfinished (solid before)) where
  start := rfl
  nothing := by
    rw [given_base64 wellFormed List.nil_prefix]
    rfl
  step := by
    rintro before piece state rfl nonempty front
    obtain ⟨more, left⟩ := Base64.groups_append
      (Base64.unfinished (solid before) ++ solid piece) (Base64.dvd_length_groups (solid before))
    rw [← List.append_assoc, Base64.groups_append_unfinished, ← solid_append] at more left
    have wellFormed' := wellFormed
    obtain ⟨rest, same⟩ := front
    rw [← same, solid_append, ← Base64.groups_append_unfinished (solid (before ++ piece)), more,
      List.append_assoc, List.append_assoc] at wellFormed'
    have here := (wellFormed'.split (Base64.dvd_length_groups _)).2.split
      (Base64.dvd_length_groups _)
    refine ⟨Base64.plain (Base64.groups (Base64.unfinished (solid before) ++ solid piece)),
      piece.length, .base64 (Base64.unfinished (Base64.unfinished (solid before) ++ solid piece)),
      ?_, ?_, fun _ => ⟨?_, ?_⟩, fun wrong => by cases wrong⟩
    · rw [feed_base64, decodeText_eq_ok.mpr here.1.decode]
      rfl
    · rw [given_base64 wellFormed ⟨rest, same⟩,
        given_base64 wellFormed ((List.prefix_append _ _).trans ⟨rest, same⟩), more,
        Base64.plain_append _ (Base64.dvd_length_groups _)]
    · rw [left]
    · exact List.IsPrefix.length_le ⟨rest, same⟩

end Text

end Codec

end WireProgram
