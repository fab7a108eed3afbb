/-
**Reading back what was written in the alphabet of sixty-four characters.**

The padded text of a byte string is well-formed, and its characters stand for the byte string. Blanks may
be put anywhere into it. In whatever pieces such a text comes, the codec gives the byte string back and
uses all text. The main definitions and statements:

* `Base64.encode_wellFormed` and `Base64.plain_encode`, the padded text of a byte string;
* `Codec.Spaced`, a text with blanks between its characters;
* `Codec.beyond_base64`, the text that the codec leaves;
* `Codec.readToEnd_encode`, reading such a text back.
-/

import WireProgram.Proofs.Codec.Groups

namespace WireProgram

/-! ### The padded text of a byte string -/

namespace Base64

variable {first second third fourth : Nat}

theorem digit?_character {digit : Nat} (small : digit < 64) : digit? (character digit) = some digit := by
  revert digit
  decide

/-- A whole group of four characters stands for three bytes. -/
theorem plain_group (firstSmall : first < 64) (secondSmall : second < 64) (thirdSmall : third < 64)
    (fourthSmall : fourth < 64) :
    plain [character first, character second, character third, character fourth] =
      [UInt8.ofNat (first * 4 + second / 16), UInt8.ofNat (second % 16 * 16 + third / 4),
        UInt8.ofNat (third % 4 * 64 + fourth)] := by
  simp only [plain, plainFrom, digit?_character, firstSmall, secondSmall, thirdSmall, fourthSmall]
  rfl

/-- With one padding character, a group stands for two bytes. -/
theorem plain_group_padded (firstSmall : first < 64) (secondSmall : second < 64)
    (thirdSmall : third < 64) :
    plain [character first, character second, character third, padding] =
      [UInt8.ofNat (first * 4 + second / 16), UInt8.ofNat (second % 16 * 16 + third / 4)] := by
  simp only [plain, plainFrom, digit?_character, digit?_padding, firstSmall, secondSmall, thirdSmall]
  rfl

/-- With two of them, it stands for one byte. -/
theorem plain_group_padded_twice (firstSmall : first < 64) (secondSmall : second < 64) :
    plain [character first, character second, padding, padding] =
      [UInt8.ofNat (first * 4 + second / 16)] := by
  simp only [plain, plainFrom, digit?_character, digit?_padding, firstSmall, secondSmall]
  rfl

/-- What stands in front of a whole number of groups. -/
theorem plain_cons (a b c d : UInt8) (rest : Bytes) :
    plain (a :: b :: c :: d :: rest) = plain [a, b, c, d] ++ plain rest :=
  @plain_append [a, b, c, d] rest (Nat.dvd_refl 4)

/-- A byte from its parts. -/
theorem ofNat_parts (byte : UInt8) {value : Nat} (same : value = byte.toNat) :
    UInt8.ofNat value = byte := by
  rw [same, UInt8.ofNat_toNat]

/-- **The padded text of a byte string** stands for it. -/
theorem plain_encode (content : Bytes) : plain (encode content) = content := by
  induction content using encode.induct with
  | case1 => rfl
  | case2 a =>
    have small := a.toNat_lt
    rw [encode, plain_group_padded_twice (by omega) (by omega), ofNat_parts a (by omega)]
  | case3 a b =>
    have small := a.toNat_lt
    have small' := b.toNat_lt
    rw [encode, plain_group_padded (by omega) (by omega) (by omega), ofNat_parts a (by omega),
      ofNat_parts b (by omega)]
  | case4 a b c rest hypothesis =>
    have small := a.toNat_lt
    have small' := b.toNat_lt
    have small'' := c.toNat_lt
    rw [encode, plain_cons, hypothesis, plain_group (by omega) (by omega) (by omega) (by omega),
      ofNat_parts a (by omega), ofNat_parts b (by omega), ofNat_parts c (by omega)]
    rfl

/-- The padded text of a byte string is made of the characters of some values and of padding. -/
theorem exists_values (content : Bytes) : ∃ (values : List Nat) (pads : Nat), pads ≤ 2 ∧
    4 ∣ values.length + pads ∧
    (∀ value ∈ values, value < 64) ∧
    encode content = values.map character ++ List.replicate pads padding := by
  induction content using encode.induct with
  | case1 => exact ⟨[], 0, by decide, by decide, nofun, rfl⟩
  | case2 a =>
    have small := a.toNat_lt
    refine ⟨[a.toNat / 4, a.toNat % 4 * 16], 2, Nat.le_refl 2, Nat.dvd_refl 4, ?_, rfl⟩
    simp only [List.mem_cons, List.not_mem_nil, or_false, forall_eq_or_imp, forall_eq]
    omega
  | case3 a b =>
    have small := a.toNat_lt
    have small' := b.toNat_lt
    refine ⟨[a.toNat / 4, a.toNat % 4 * 16 + b.toNat / 16, b.toNat % 16 * 4], 1, by decide,
      Nat.dvd_refl 4, ?_, rfl⟩
    simp only [List.mem_cons, List.not_mem_nil, or_false, forall_eq_or_imp, forall_eq]
    omega
  | case4 a b c rest hypothesis =>
    have small := a.toNat_lt
    have small' := b.toNat_lt
    have small'' := c.toNat_lt
    obtain ⟨values, pads, few, aligned, all, same⟩ := hypothesis
    refine ⟨a.toNat / 4 :: (a.toNat % 4 * 16 + b.toNat / 16) ::
      (b.toNat % 16 * 4 + c.toNat / 64) :: c.toNat % 64 :: values, pads, few, ?_, ?_, ?_⟩
    · simp only [List.length_cons]
      omega
    · simp only [List.mem_cons, forall_eq_or_imp]
      exact ⟨by omega, by omega, by omega, by omega, all⟩
    · rw [encode, same]
      rfl

/-- **The padded text of a byte string** is well-formed. -/
theorem encode_wellFormed (content : Bytes) : WellFormed (encode content) := by
  obtain ⟨values, pads, few, aligned, small, same⟩ := exists_values content
  rw [same]
  refine ⟨?_, values.map character, pads, few, rfl, fun next member => ?_⟩
  · rwa [List.length_append, List.length_map, List.length_replicate]
  · obtain ⟨value, inside, rfl⟩ := List.mem_map.mp member
    rw [digit?_character (small value inside)]
    rfl

end Base64

/-! ### Blanks -/

namespace Codec

open ChunkCodec

variable {text spaced content pending : Bytes} {supply : Course} {streams : Streams Codec}
  {parent : View}

/-- One text is another one with blanks put anywhere into it. -/
inductive Spaced : Bytes → Bytes → Prop
  | nil : Spaced [] []
  | keep (next : UInt8) {text spaced : Bytes} (rest : Spaced text spaced) :
      Spaced (next :: text) (next :: spaced)
  | blank {next : UInt8} (isBlank : isBlankByte next = true) {text spaced : Bytes}
      (rest : Spaced text spaced) : Spaced text (next :: spaced)

/-- Blanks are not seen. -/
theorem Spaced.solid (holds : Spaced text spaced) : Codec.solid spaced = Codec.solid text := by
  induction holds with
  | nil => rfl
  | keep next rest hypothesis =>
    unfold Codec.solid at hypothesis ⊢
    rw [List.filter_cons, List.filter_cons, hypothesis]
  | blank isBlank rest hypothesis =>
    unfold Codec.solid at hypothesis ⊢
    rw [List.filter_cons, isBlank, hypothesis]
    rfl

/-- A blank is neither padding nor a character of the alphabet. -/
theorem isBlankByte_eq_false {character : UInt8}
    (known : character = Base64.padding ∨ (Base64.digit? character).isSome) :
    isBlankByte character = false := by
  refine Bool.eq_false_iff.mpr fun blank => ?_
  have same : character = 32 ∨ character = 9 ∨ character = 13 ∨ character = 10 := by
    simpa [isBlankByte] using blank
  rcases same with rfl | rfl | rfl | rfl <;> revert known <;> decide

/-- There are no blanks in well-formed text. -/
theorem solid_wellFormed (wellFormed : Base64.WellFormed text) : solid text = text := by
  obtain ⟨-, digits, pads, -, rfl, all⟩ := wellFormed
  refine List.filter_eq_self.mpr fun character member => ?_
  have known : character = Base64.padding ∨ (Base64.digit? character).isSome := by
    rcases List.mem_append.mp member with inside | pad
    · exact Or.inr (all character inside)
    · exact Or.inl (List.eq_of_mem_replicate pad)
  rw [isBlankByte_eq_false known]
  rfl

/-! ### Reading back -/

/-- The codec leaves no text. -/
theorem beyond_base64 (pending : Bytes) (sound : supply.fault = none)
    (accepted : (supply.through (Codec.base64 pending)).fault = none) :
    supply.beyond (Codec.base64 pending) = .ended := by
  induction supply generalizing pending with
  | failed fault => cases sound
  | ended => rfl
  | piece first others later hypothesis =>
    rw [Course.through, feed_base64] at accepted
    rw [Course.beyond, feed_base64]
    cases decoded : decodeText (Base64.groups (pending ++ solid (first :: others))) with
    | error fault =>
      rw [decoded] at accepted
      cases accepted
    | ok out =>
      rw [decoded] at accepted
      exact hypothesis _ sound ((Course.fault_push _ _).symm.trans accepted)

/-- **Reading back what was written.** Let blanks be put anywhere into the padded text of a byte string,
and let a view give that text, in whatever pieces and through whatever region. Decoding the view gives the
byte string, and nothing of the text is left. -/
theorem readToEnd_encode (ready : parent.Ready streams)
    (fresh : streams.transforms.size ∉ parent.stages) (spaced : Spaced (Base64.encode content) text)
    (gives : (parent.readToEnd.run streams).1 = .ok text) :
    let opened := streams.openTransformed parent (.base64 [])
    ∃ after, opened.1.readToEnd.run opened.2 = (.ok content, after) ∧
      (parent.readToEnd.run after).1 = .ok [] := by
  intro opened
  have wellFormed := Base64.encode_wellFormed content
  have seen : solid text = Base64.encode content := spaced.solid.trans (solid_wellFormed wellFormed)
  obtain ⟨bytes, sound⟩ := View.course_of_gives ready gives
  have accepted := through_wellFormed [] sound (by decide) (by rw [bytes, seen]; exact wellFormed)
  have stands := through_base64 [] sound
  rw [bytes, seen, List.nil_append, Base64.plain_encode] at stands
  have whole : ((parent.course streams).through (Codec.base64 [])).whole = .ok content := by
    unfold Course.whole at stands ⊢
    rw [accepted] at stands ⊢
    exact congrArg Except.ok stands
  obtain ⟨after, ran, settles⟩ := View.readToEnd_openTransformed ready fresh (base64_greedy [])
  obtain ⟨readyAfter, left⟩ := settles accepted
  rw [beyond_base64 [] sound accepted] at left
  rw [whole] at ran
  exact ⟨after, ran, View.gives_of_course readyAfter (by rw [left]; rfl) (by rw [left]; rfl)⟩

/-- Two bytes as text with blanks, also inside its padded group, in a region of that length over pieces of
two characters. -/
theorem readToEnd_encode_of_blanks :
    let text : Bytes := [32, 81, 85, 10, 73, 13, 61, 9]
    let root := ({} : Streams Codec).openSource .blocking (Input.ofBytes 2 (text ++ [33]))
    let parent := root.2.openTake root.1 8
    let opened := parent.2.openTransformed parent.1 (.base64 [])
    Spaced (Base64.encode [65, 66]) text ∧
    (parent.1.readToEnd.run parent.2).1 = .ok text ∧
    ∃ after, opened.1.readToEnd.run opened.2 = (.ok [65, 66], after) ∧
      (parent.1.readToEnd.run after).1 = .ok [] := by
  intro text root parent opened
  have ready : parent.1.Ready parent.2 := ⟨List.not_mem_nil, trivial⟩
  have delivers := Input.ofBytes_delivers 2 (text ++ [33]) (by decide)
  have gives : (parent.1.readToEnd.run parent.2).1 = .ok text :=
    View.readToEnd_yield ready ⟨rfl, (Source.opened_fair delivers).1⟩ rfl
  have spaced : Spaced (Base64.encode [65, 66]) text :=
    .blank rfl (.keep 81 (.keep 85 (.blank rfl (.keep 73 (.blank rfl (.keep 61 (.blank rfl .nil)))))))
  exact ⟨spaced, gives, readToEnd_encode ready List.not_mem_nil spaced gives⟩

end Codec

end WireProgram
