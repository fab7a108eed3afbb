/-
**What the decoders of text accept.**

A decoder of text gives a text back from its encoding, and it accepts no other byte strings: what it
reads as a text is the encoding of that text. So it refuses a character in more bytes than it needs, an
encoded surrogate, a code point above U+10FFFF, half of a surrogate pair and a character that is cut. The
main definitions and statements:

* `Utf8.Reads`, what the decoder of one to four bytes a character makes of a first byte and the bytes
  after it; `Utf8.reads_encode` and `Utf8.encode_of_reads`, one character in both directions;
* `Utf8.decode_eq_ok_iff`, the texts that are read in this encoding;
* `Utf16.decode_eq_ok_iff`, the texts that are read in units of two bytes.
-/

import Mathlib.Tactic.Common
import WireProgram.Text.Utf8
import WireProgram.Text.Utf16

namespace WireProgram

/-! ### Code points and bytes -/

/-- A character is no surrogate and not above U+10FFFF. -/
theorem toNat_range (c : Char) : c.toNat < 0xD800 ∨ 0xDFFF < c.toNat ∧ c.toNat < 0x110000 := c.valid

/-- The character of a code point that is one. -/
theorem toNat_charOf {code : Nat} (valid : code.isValidChar) : (Char.ofNat code).toNat = code := by
  unfold Char.ofNat
  rw [dif_pos valid]
  rfl

theorem toNat_byteOf {number : Nat} (small : number < 256) : (UInt8.ofNat number).toNat = number :=
  UInt8.toNat_ofNat_of_lt' small

theorem byteOf_eq {number : Nat} (byte : UInt8) (same : number = byte.toNat) :
    UInt8.ofNat number = byte := by
  rw [same, UInt8.ofNat_toNat]

/-! ### One to four bytes a character -/

namespace Utf8

open Text

variable {byte second third fourth : UInt8} {rest : Bytes} {count code : Nat} {chars : List Char}

/-- A first byte and the bytes after it are read as a code point of so many more bytes. -/
def Reads (byte : UInt8) (rest : Bytes) (count code : Nat) : Prop :=
  ∃ lead, lead? byte = some lead ∧ lead.following = count ∧
    readFollowing lead.following lead.least lead.greatest lead.bits 1 rest = .ok code

theorem readFollowing_byteOf {least greatest good number : Nat}
    (within : least ≤ number ∧ number ≤ greatest) (small : number < 256) (rest : Bytes) :
    readFollowing (count + 1) least greatest code good (UInt8.ofNat number :: rest) =
      readFollowing count 0x80 0xBF (code * 64 + (number - 0x80)) (good + 1) rest := by
  rw [readFollowing, toNat_byteOf small, if_pos within]

theorem exists_of_readFollowing {least greatest good result : Nat}
    (read : readFollowing (count + 1) least greatest code good rest = .ok result) :
    ∃ next others, rest = next :: others ∧ least ≤ next.toNat ∧ next.toNat ≤ greatest ∧
      readFollowing count 0x80 0xBF (code * 64 + (next.toNat - 0x80)) (good + 1) others =
        .ok result := by
  cases rest with
  | nil => cases read
  | cons next others =>
    rw [readFollowing] at read
    split at read
    · exact ⟨next, others, rfl, (‹_ ∧ _›).1, (‹_ ∧ _›).2, read⟩
    · cases read

/-- **The encoding of a character is read as that character,** whatever follows it. -/
theorem reads_encode (c : Char) (rest : Bytes) : ∃ byte following,
    String.utf8EncodeChar c = byte :: following ∧
      Reads byte (following ++ rest) following.length c.toNat := by
  have range := toNat_range c
  unfold String.utf8EncodeChar Reads lead?
  simp only [show c.val.toNat = c.toNat from rfl]
  -- the cases are the numbers of bytes of the encoding
  split
  · refine ⟨_, _, rfl, ⟨c.toNat, 0, 0x80, 0xBF⟩, ?_, rfl, rfl⟩
    rw [toNat_byteOf (by omega)]
    exact if_pos (by omega)
  split
  · refine ⟨_, _, rfl, ⟨c.toNat / 64, 1, 0x80, 0xBF⟩, ?_, rfl, ?_⟩
    · rw [toNat_byteOf (by omega), if_neg (by omega), if_neg (by omega), if_pos (by omega),
        Nat.add_sub_cancel, Nat.mod_eq_of_lt (by omega)]
    · dsimp only [List.cons_append, List.nil_append]
      rw [readFollowing_byteOf (by omega) (by omega)]
      exact congrArg Except.ok (by omega)
  split
  · refine ⟨_, _, rfl, ⟨c.toNat / 4096, 2, if c.toNat / 4096 = 0 then 0xA0 else 0x80,
      if c.toNat / 4096 = 13 then 0x9F else 0xBF⟩, ?_, rfl, ?_⟩
    · have low : c.toNat / 4096 % 16 + 0xE0 = 0xE0 ↔ c.toNat / 4096 = 0 := by omega
      have high : c.toNat / 4096 % 16 + 0xE0 = 0xED ↔ c.toNat / 4096 = 13 := by omega
      rw [toNat_byteOf (by omega), if_neg (by omega), if_neg (by omega), if_neg (by omega),
        if_pos (by omega)]
      simp only [low, high]
      rw [Nat.add_sub_cancel, Nat.mod_eq_of_lt (by omega)]
    · dsimp only [List.cons_append, List.nil_append]
      rw [readFollowing_byteOf (by split <;> split <;> omega) (by omega),
        readFollowing_byteOf (by omega) (by omega)]
      exact congrArg Except.ok (by omega)
  · refine ⟨_, _, rfl, ⟨c.toNat / 262144, 3, if c.toNat / 262144 = 0 then 0x90 else 0x80,
      if c.toNat / 262144 = 4 then 0x8F else 0xBF⟩, ?_, rfl, ?_⟩
    · have low : c.toNat / 262144 % 8 + 0xF0 = 0xF0 ↔ c.toNat / 262144 = 0 := by omega
      have high : c.toNat / 262144 % 8 + 0xF0 = 0xF4 ↔ c.toNat / 262144 = 4 := by omega
      rw [toNat_byteOf (by omega), if_neg (by omega), if_neg (by omega), if_neg (by omega),
        if_neg (by omega), if_pos (by omega)]
      simp only [low, high]
      rw [Nat.add_sub_cancel, Nat.mod_eq_of_lt (by omega)]
    · dsimp only [List.cons_append, List.nil_append]
      rw [readFollowing_byteOf (by split <;> split <;> omega) (by omega),
        readFollowing_byteOf (by omega) (by omega), readFollowing_byteOf (by omega) (by omega)]
      exact congrArg Except.ok (by omega)

theorem encode_one (small : byte.toNat < 0x80) :
    String.utf8EncodeChar (Char.ofNat byte.toNat) = [byte] := by
  have spells : (Char.ofNat byte.toNat).val.toNat = byte.toNat := toNat_charOf (.inl (by omega))
  unfold String.utf8EncodeChar
  rw [spells]
  dsimp only
  rw [if_pos (by omega), byteOf_eq byte rfl]

/-- A first byte of two is no less than 0xC2: below it one byte would do. -/
theorem encode_two (least : 0xC2 ≤ byte.toNat) (most : byte.toNat < 0xE0)
    (tail : 0x80 ≤ second.toNat ∧ second.toNat ≤ 0xBF) :
    String.utf8EncodeChar (Char.ofNat ((byte.toNat - 0xC0) * 64 + (second.toNat - 0x80))) =
      [byte, second] := by
  obtain ⟨number, same⟩ :
    ∃ number, number = (byte.toNat - 0xC0) * 64 + (second.toNat - 0x80) := ⟨_, rfl⟩
  have spells : (Char.ofNat number).val.toNat = number := toNat_charOf (.inl (by omega))
  unfold String.utf8EncodeChar
  rw [← same, spells]
  dsimp only
  rw [if_neg (by omega), if_pos (by omega), byteOf_eq byte (by omega), byteOf_eq second (by omega)]

/-- The second byte of three is such that two bytes would not do, and that they are no surrogate. -/
theorem encode_three (least : 0xE0 ≤ byte.toNat) (most : byte.toNat < 0xF0)
    (tail : 0x80 ≤ second.toNat ∧ second.toNat ≤ 0xBF)
    (last : 0x80 ≤ third.toNat ∧ third.toNat ≤ 0xBF) (long : byte.toNat = 0xE0 → 0xA0 ≤ second.toNat)
    (scalar : byte.toNat = 0xED → second.toNat ≤ 0x9F) :
    String.utf8EncodeChar (Char.ofNat
      (((byte.toNat - 0xE0) * 64 + (second.toNat - 0x80)) * 64 + (third.toNat - 0x80))) =
        [byte, second, third] := by
  obtain ⟨number, same⟩ : ∃ number, number =
    ((byte.toNat - 0xE0) * 64 + (second.toNat - 0x80)) * 64 + (third.toNat - 0x80) := ⟨_, rfl⟩
  have valid : number.isValidChar := by
    unfold Nat.isValidChar
    omega
  have spells : (Char.ofNat number).val.toNat = number := toNat_charOf valid
  unfold String.utf8EncodeChar
  rw [← same, spells]
  dsimp only
  rw [if_neg (by omega), if_neg (by omega), if_pos (by omega), byteOf_eq byte (by omega),
    byteOf_eq second (by omega), byteOf_eq third (by omega)]

/-- The second byte of four is such that three bytes would not do, and that they are no more than
U+10FFFF. -/
theorem encode_four (least : 0xF0 ≤ byte.toNat) (most : byte.toNat < 0xF5)
    (tail : 0x80 ≤ second.toNat ∧ second.toNat ≤ 0xBF)
    (more : 0x80 ≤ third.toNat ∧ third.toNat ≤ 0xBF)
    (last : 0x80 ≤ fourth.toNat ∧ fourth.toNat ≤ 0xBF)
    (long : byte.toNat = 0xF0 → 0x90 ≤ second.toNat)
    (scalar : byte.toNat = 0xF4 → second.toNat ≤ 0x8F) :
    String.utf8EncodeChar (Char.ofNat
      ((((byte.toNat - 0xF0) * 64 + (second.toNat - 0x80)) * 64 + (third.toNat - 0x80)) * 64 +
        (fourth.toNat - 0x80))) = [byte, second, third, fourth] := by
  obtain ⟨number, same⟩ : ∃ number, number =
    (((byte.toNat - 0xF0) * 64 + (second.toNat - 0x80)) * 64 + (third.toNat - 0x80)) * 64 +
      (fourth.toNat - 0x80) := ⟨_, rfl⟩
  have valid : number.isValidChar := by
    unfold Nat.isValidChar
    omega
  have spells : (Char.ofNat number).val.toNat = number := toNat_charOf valid
  unfold String.utf8EncodeChar
  rw [← same, spells]
  dsimp only
  rw [if_neg (by omega), if_neg (by omega), if_neg (by omega), byteOf_eq byte (by omega),
    byteOf_eq second (by omega), byteOf_eq third (by omega), byteOf_eq fourth (by omega)]

/-- **What is read as a character is its encoding.** -/
theorem encode_of_reads (reads : Reads byte rest count code) :
    ∃ following others, rest = following ++ others ∧ following.length = count ∧
      String.utf8EncodeChar (Char.ofNat code) = byte :: following := by
  obtain ⟨lead, announced, rfl, read⟩ := reads
  unfold lead? at announced
  dsimp only at announced
  split at announced
  · cases announced
    cases read
    exact ⟨[], rest, rfl, rfl, encode_one ‹_›⟩
  split at announced
  · cases announced
  split at announced
  · obtain rfl := Option.some.inj announced
    obtain ⟨second, others, rfl, low, high, read⟩ := exists_of_readFollowing read
    rw [readFollowing, Except.ok.injEq] at read
    exact ⟨[second], others, rfl, rfl, read ▸ encode_two (by omega) (by omega) ⟨low, high⟩⟩
  split at announced
  · obtain rfl := Option.some.inj announced
    obtain ⟨second, others, rfl, low, high, read⟩ := exists_of_readFollowing read
    obtain ⟨third, others, rfl, least, most, read⟩ := exists_of_readFollowing read
    rw [readFollowing, Except.ok.injEq] at read
    refine ⟨[second, third], others, rfl, rfl,
      read ▸ encode_three (by omega) (by omega) ?_ ⟨least, most⟩ ?_ ?_⟩
    all_goals
      dsimp only at low high
      split at low <;> split at high <;> omega
  split at announced
  · obtain rfl := Option.some.inj announced
    obtain ⟨second, others, rfl, low, high, read⟩ := exists_of_readFollowing read
    obtain ⟨third, others, rfl, least, most, read⟩ := exists_of_readFollowing read
    obtain ⟨fourth, others, rfl, least', most', read⟩ := exists_of_readFollowing read
    rw [readFollowing, Except.ok.injEq] at read
    refine ⟨[second, third, fourth], others, rfl, rfl,
      read ▸ encode_four (by omega) (by omega) ?_ ⟨least, most⟩ ⟨least', most'⟩ ?_ ?_⟩
    all_goals
      dsimp only at low high
      split at low <;> split at high <;> omega
  · cases announced

/-! ### Texts -/

/-- The bytes that belong to the character before are passed over. -/
theorem decodeFrom_skip (position skip : Nat) (bytes : Bytes) :
    decodeFrom position skip bytes = decodeFrom (position + skip) 0 (bytes.drop skip) := by
  induction bytes generalizing position skip with
  | nil =>
    rw [List.drop_nil]
    rfl
  | cons byte rest hypothesis =>
    cases skip with
    | zero => rfl
    | succ skip =>
      rw [decodeFrom, hypothesis, List.drop_succ_cons]
      congr 1
      omega

/-- A character that is read comes before the text in the bytes after it. -/
theorem decodeFrom_reads (position : Nat) (reads : Reads byte rest count code) :
    decodeFrom position 0 (byte :: rest) =
      match decodeFrom (position + 1 + count) 0 (rest.drop count) with
      | .ok chars => .ok (Char.ofNat code :: chars)
      | .error fault => .error fault := by
  obtain ⟨lead, announced, rfl, read⟩ := reads
  have skipped := decodeFrom_skip (position + 1) lead.following rest
  rw [decodeFrom, announced]
  dsimp only
  rw [read]
  dsimp only
  cases decoded : decodeFrom (position + 1 + lead.following) 0 (rest.drop lead.following) with
  | ok chars => simp only [skipped.trans decoded]
  | error fault => simp only [skipped.trans decoded]

theorem decodeFrom_encode (position : Nat) (chars : List Char) :
    decodeFrom position 0 (encode chars) = .ok chars := by
  induction chars generalizing position with
  | nil => rfl
  | cons c chars hypothesis =>
    obtain ⟨byte, following, same, reads⟩ := reads_encode c (encode chars)
    have whole : encode (c :: chars) = byte :: (following ++ encode chars) := by
      show String.utf8EncodeChar c ++ encode chars = _
      rw [same, List.cons_append]
    rw [whole, decodeFrom_reads position reads, List.drop_left, hypothesis, Char.ofNat_toNat]

theorem encode_of_decodeFrom {position : Nat} {bytes : Bytes}
    (decoded : decodeFrom position 0 bytes = .ok chars) : encode chars = bytes := by
  induction chars generalizing position bytes with
  | nil =>
    cases bytes with
    | nil => rfl
    | cons byte rest =>
      rw [decodeFrom] at decoded
      split at decoded
      · cases decoded
      split at decoded
      · cases decoded
      · cases decoded
      · split at decoded <;> cases decoded
  | cons c chars hypothesis =>
    cases bytes with
    | nil => cases decoded
    | cons byte rest =>
      rw [decodeFrom] at decoded
      split at decoded
      · cases decoded
      rename_i lead announced
      split at decoded
      · cases decoded
      · cases decoded
      rename_i code read
      obtain ⟨following, others, rfl, length, same⟩ := encode_of_reads ⟨lead, announced, rfl, read⟩
      rw [decodeFrom_skip, ← length, List.drop_left] at decoded
      split at decoded
      · cases decoded
        rename_i later
        show String.utf8EncodeChar _ ++ encode chars = _
        rw [same, hypothesis later, List.cons_append]
      · cases decoded

/-- **A byte string is read as a text** if it is its encoding, and only then. -/
theorem decode_eq_ok_iff {bytes : Bytes} : decode bytes = .ok chars ↔ encode chars = bytes :=
  ⟨encode_of_decodeFrom, fun same => same ▸ decodeFrom_encode 0 chars⟩

end Utf8

/-! ### Units of two bytes -/

namespace Utf16

open Text

variable {high low : UInt8} {rest bytes : Bytes} {position : Nat} {chars : List Char}

/-- The unit in two bytes spells those bytes. -/
theorem ofBigEndian_unitOf (high low : UInt8) : Bytes.ofBigEndian 2 (unitOf high low) = [high, low] := by
  have small : low.toNat < 256 := low.toNat_lt
  have least : high.toNat < 256 := high.toNat_lt
  unfold unitOf
  show [UInt8.ofNat ((high.toNat * 256 + low.toNat) / 256 % 256),
    UInt8.ofNat ((high.toNat * 256 + low.toNat) % 256)] = _
  rw [byteOf_eq high (by omega), byteOf_eq low (by omega)]

/-- The bytes of a unit hold it. -/
theorem exists_ofBigEndian {unit : Nat} (small : unit < 0x10000) :
    ∃ high low, Bytes.ofBigEndian 2 unit = [high, low] ∧ unitOf high low = unit := by
  refine ⟨UInt8.ofNat (unit / 256 % 256), UInt8.ofNat (unit % 256), rfl, ?_⟩
  unfold unitOf
  rw [toNat_byteOf (by omega), toNat_byteOf (by omega)]
  omega

/-- A character that is one unit. -/
theorem units_one {unit : Nat} (scalar : unit < 0xD800 ∨ 0xDFFF < unit) (small : unit < 0x10000) :
    units (Char.ofNat unit) = [unit] := by
  have spells : (Char.ofNat unit).toNat = unit :=
    toNat_charOf (scalar.imp_right fun above => ⟨above, by omega⟩)
  unfold units
  rw [spells, if_pos small]

/-- A character that is a pair of units. -/
theorem units_two {first second : Nat} (first_high : 0xD800 ≤ first ∧ first < 0xDC00)
    (second_low : 0xDC00 ≤ second ∧ second ≤ 0xDFFF) :
    units (Char.ofNat (0x10000 + (first - 0xD800) * 0x400 + (second - 0xDC00))) = [first, second] := by
  obtain ⟨number, same⟩ :
    ∃ number, number = 0x10000 + (first - 0xD800) * 0x400 + (second - 0xDC00) := ⟨_, rfl⟩
  have spells : (Char.ofNat number).toNat = number := toNat_charOf (.inr ⟨by omega, by omega⟩)
  have one : 0xD800 + (number - 0x10000) / 0x400 = first := by omega
  have two : 0xDC00 + (number - 0x10000) % 0x400 = second := by omega
  unfold units
  rw [← same, spells, if_neg (by omega)]
  dsimp only
  rw [one, two]

/-- The encoding of a character comes before that of the others. -/
theorem encode_cons (c : Char) (chars : List Char) :
    encode (c :: chars) = (units c).flatMap (Bytes.ofBigEndian 2) ++ encode chars := by
  unfold encode
  rw [List.flatMap_cons, List.flatMap_append]

/-- A unit that is a character. -/
theorem decodeFrom_one (position : Nat) (rest : Bytes)
    (scalar : unitOf high low < 0xD800 ∨ 0xDFFF < unitOf high low) :
    decodeFrom position (high :: low :: rest) =
      prepend (Char.ofNat (unitOf high low)) (decodeFrom (position + 2) rest) := by
  rw [decodeFrom.eq_def]
  exact if_pos scalar

theorem decodeFrom_encode (position : Nat) (chars : List Char) :
    decodeFrom position (encode chars) = .ok chars := by
  induction chars generalizing position with
  | nil =>
    rw [encode, List.flatMap_nil, List.flatMap_nil, decodeFrom]
  | cons c chars hypothesis =>
    have range := toNat_range c
    rw [encode_cons]
    unfold units
    split
    · rename_i small
      obtain ⟨high, low, same, holds⟩ := exists_ofBigEndian small
      rw [List.flatMap_singleton, same, List.cons_append, List.cons_append, List.nil_append,
        decodeFrom_one _ _ (by omega), holds, hypothesis, prepend, Char.ofNat_toNat]
    · have first : 0xD800 + (c.toNat - 0x10000) / 0x400 < 0x10000 := by omega
      have second : 0xDC00 + (c.toNat - 0x10000) % 0x400 < 0x10000 := by omega
      obtain ⟨high, low, same, holds⟩ := exists_ofBigEndian first
      obtain ⟨nextHigh, nextLow, next, keeps⟩ := exists_ofBigEndian second
      have whole : 0x10000 + (0xD800 + (c.toNat - 0x10000) / 0x400 - 0xD800) * 0x400 +
          (0xDC00 + (c.toNat - 0x10000) % 0x400 - 0xDC00) = c.toNat := by omega
      rw [List.flatMap_cons, List.flatMap_singleton, same, next]
      show decodeFrom position (high :: low :: nextHigh :: nextLow :: encode chars) = _
      rw [decodeFrom]
      dsimp only
      rw [holds, keeps, if_neg (by omega), if_neg (by omega), if_pos (by omega), hypothesis, prepend,
        whole, Char.ofNat_toNat]

theorem exists_of_prepend {c : Char} {result : Except TextFault (List Char)}
    (prepended : prepend c result = .ok chars) : ∃ others, result = .ok others ∧ chars = c :: others := by
  cases result with
  | error fault => cases prepended
  | ok others => exact ⟨others, rfl, (Except.ok.inj prepended).symm⟩

theorem encode_of_decodeFrom (decoded : decodeFrom position bytes = .ok chars) :
    encode chars = bytes := by
  fun_induction decodeFrom position bytes generalizing chars with
  | case1 => cases decoded; rfl
  | case2 => cases decoded
  | case3 position high low rest unit scalar =>
    rename_i hypothesis
    obtain ⟨others, later, rfl⟩ := exists_of_prepend decoded
    have small : unit < 0x10000 := by
      have := high.toNat_lt
      have := low.toNat_lt
      show high.toNat * 256 + low.toNat < 0x10000
      omega
    rw [encode_cons, units_one scalar small, List.flatMap_singleton, hypothesis later,
      ofBigEndian_unitOf]
    rfl
  | case4 => cases decoded
  | case5 => cases decoded
  | case6 => cases decoded
  | case7 position high low unit first second nextHigh nextLow after next pair =>
    rename_i hypothesis
    obtain ⟨others, later, rfl⟩ := exists_of_prepend decoded
    rw [encode_cons, units_two (by omega) pair, List.flatMap_cons, List.flatMap_singleton,
      hypothesis later, ofBigEndian_unitOf, ofBigEndian_unitOf]
    rfl
  | case8 => cases decoded

/-- **A byte string is read as a text** if it is its encoding, and only then. -/
theorem decode_eq_ok_iff : decode bytes = .ok chars ↔ encode chars = bytes :=
  ⟨encode_of_decodeFrom, fun same => same ▸ decodeFrom_encode 0 chars⟩

/-- Every unit is two bytes. -/
theorem length_encode (chars : List Char) :
    (encode chars).length = (chars.flatMap units).length * 2 := by
  unfold encode
  induction chars.flatMap units with
  | nil => rfl
  | cons unit units hypothesis =>
    rw [List.flatMap_cons, List.length_append, hypothesis, List.length_cons, Nat.add_mul, Nat.add_comm]
    rfl

end Utf16

end WireProgram
