/-
**Integers in groups of seven bits.**

A variable-length integer comes in groups of seven bits, least significant first; a byte with the high
bit has another group after it. An integer of so many bits is read from no more bytes than its bits need
groups: it is refused as soon as so many groups have come without the last one, and if the last one has
come and the number does not fit. The main definitions and statements:

* `Leb128.value` and `Leb128.length?`, the number that groups make and where they end;
* `Leb128.encode`, the groups of a number, as few as there can be;
* `Leb128.Fits` and `Leb128.Excessive`, the byte strings that are read and those that are refused;
* `run_readGroups_high` and `run_readGroups_front`, one group that is not the last one and any number of
  them;
* `ForeignType.decode_varint`, the integers that are read from a view.
-/

import Mathlib.Data.Nat.Digits.Defs
import WireProgram.Capability
import WireProgram.Proofs.Stream.Offer

namespace WireProgram

/-! ### Groups of seven bits -/

namespace Leb128

/-- The number that groups of seven bits make, least significant first. -/
def value (groups : Bytes) : Nat :=
  Nat.ofDigits 128 (groups.map fun byte => byte.toNat % 128)

/-- The number of bytes up to the first one without the high bit, and with it. -/
def length? (content : Bytes) : Option Nat :=
  (content.findIdx? fun byte => byte.toNat < 128).map (· + 1)

/-- The groups of a number, without any zeros in front of it. -/
def encode (number : Nat) : Bytes :=
  if number < 128 then [UInt8.ofNat number]
  else UInt8.ofNat (128 + number % 128) :: encode (number / 128)

/-- The groups end after so many bytes, which are not too many, and make a number of so many bits. -/
structure Fits (bits : Nat) (content : Bytes) (count : Nat) : Prop where
  ends : length? content = some count
  soon : count ≤ varintLimit bits
  below : value (content.take count) < 2 ^ bits

/-- The groups make a number of more bits, or so many have come that another one is too many. -/
def Excessive (bits : Nat) (content : Bytes) : Prop :=
  (∃ count, length? content = some count ∧ count ≤ varintLimit bits ∧
    2 ^ bits ≤ value (content.take count)) ∨
  varintLimit bits ≤ content.length ∧
    ∀ byte ∈ content.take (varintLimit bits), 128 ≤ byte.toNat

variable {content front rest : Bytes} {last : UInt8} {bits number count : Nat}

theorem value_append (front rest : Bytes) :
    value (front ++ rest) = value front + 128 ^ front.length * value rest := by
  unfold value
  rw [List.map_append, Nat.ofDigits_append, List.length_map]

theorem value_cons (byte : UInt8) (rest : Bytes) :
    value (byte :: rest) = byte.toNat % 128 + 128 * value rest :=
  Nat.ofDigits_cons

/-- Groups that are not the last one. -/
theorem length?_append (high : ∀ byte ∈ front, 128 ≤ byte.toNat) (rest : Bytes) :
    length? (front ++ rest) = (length? rest).map (front.length + ·) := by
  have passed : front.findIdx? (fun byte => byte.toNat < 128) = none := by
    simpa [List.findIdx?_eq_none_iff] using high
  unfold length?
  rw [List.findIdx?_append, passed, Option.none_or, Option.map_map, Option.map_map]
  congr 1
  funext count
  simp only [Function.comp_apply]
  omega

theorem length?_low (low : last.toNat < 128) (rest : Bytes) : length? (last :: rest) = some 1 := by
  unfold length?
  rw [List.findIdx?_cons]
  simp [low]

/-- Where the groups end, the last one stands after others that are not. -/
theorem exists_of_length? (ends : length? content = some count) :
    ∃ front last rest, content = front ++ last :: rest ∧ (∀ byte ∈ front, 128 ≤ byte.toNat) ∧
      last.toNat < 128 ∧ count = front.length + 1 := by
  obtain ⟨index, found, rfl⟩ := Option.map_eq_some_iff.mp ends
  obtain ⟨inside, low, high⟩ := List.findIdx?_eq_some_iff_getElem.mp found
  refine ⟨content.take index, content[index], content.drop (index + 1), ?_, fun byte member => ?_,
    by simpa using low, by rw [List.length_take, Nat.min_eq_left (Nat.le_of_lt inside)]⟩
  · rw [List.getElem_cons_drop, List.take_append_drop]
  · obtain ⟨place, before, rfl⟩ := List.mem_take_iff_getElem.mp member
    simpa using high place (Nat.lt_of_lt_of_le before (Nat.min_le_left _ _))

/-- The groups end in time, or so many have come without a last one, or there are fewer. -/
theorem ends_or_goesOn (limit : Nat) (content : Bytes) :
    (∃ count, length? content = some count ∧ count ≤ limit) ∨
      (limit ≤ content.length ∧ ∀ byte ∈ content.take limit, 128 ≤ byte.toNat) ∨
      content.length < limit ∧ ∀ byte ∈ content, 128 ≤ byte.toNat := by
  cases ends : length? content with
  | none =>
    have high : ∀ byte ∈ content, 128 ≤ byte.toNat := by
      simpa [length?, List.findIdx?_eq_none_iff] using ends
    rcases Nat.lt_or_ge content.length limit with short | long
    · exact .inr (.inr ⟨short, high⟩)
    · exact .inr (.inl ⟨long, fun byte member => high byte (List.mem_of_mem_take member)⟩)
  | some count =>
    by_cases soon : count ≤ limit
    · exact .inl ⟨count, rfl, soon⟩
    · obtain ⟨front, last, rest, rfl, high, -, rfl⟩ := exists_of_length? ends
      have within : limit ≤ front.length := by omega
      refine .inr (.inl ⟨by rw [List.length_append]; omega, fun byte member => ?_⟩)
      rw [List.take_append_of_le_length within] at member
      exact high byte (List.mem_of_mem_take member)

/-- Among the bytes up to the last group there is one without the high bit. -/
theorem not_goesOn {limit : Nat} (ends : length? content = some count) (soon : count ≤ limit) :
    ¬∀ byte ∈ content.take limit, 128 ≤ byte.toNat := by
  obtain ⟨front, last, rest, rfl, -, low, rfl⟩ := exists_of_length? ends
  intro high
  obtain ⟨more, rfl⟩ := Nat.exists_eq_add_of_le soon
  have member : last ∈ (front ++ last :: rest).take (front.length + 1 + more) := by
    rw [Nat.add_assoc, List.take_length_add_append, Nat.add_comm 1, List.take_succ_cons]
    simp
  exact Nat.not_le_of_lt low (high last member)

/-! ### Encoded numbers -/

/-- The last group of an encoded number is the first one without the high bit. -/
theorem exists_encode (number : Nat) :
    ∃ front last, encode number = front ++ [last] ∧ (∀ byte ∈ front, 128 ≤ byte.toNat) ∧
      last.toNat < 128 ∧ value (front ++ [last]) = number := by
  induction number using Nat.strongRecOn with
  | ind number hypothesis =>
    unfold encode
    by_cases small : number < 128
    · rw [if_pos small]
      have same : (UInt8.ofNat number).toNat = number := by simp; omega
      refine ⟨[], UInt8.ofNat number, rfl, nofun, same.symm ▸ small, ?_⟩
      simp [value, small]
    · rw [if_neg small]
      obtain ⟨front, last, encoded, high, low, whole⟩ := hypothesis (number / 128) (by omega)
      have same : (UInt8.ofNat (128 + number % 128)).toNat = 128 + number % 128 := by simp; omega
      refine ⟨UInt8.ofNat (128 + number % 128) :: front, last, by rw [encoded]; rfl,
        List.forall_mem_cons.mpr ⟨by omega, high⟩, low, ?_⟩
      rw [List.cons_append, value_cons, whole, same]
      omega

theorem length_encode_le (positive : 0 < count) (below : number < 128 ^ count) :
    (encode number).length ≤ count := by
  induction count generalizing number with
  | zero => cases positive
  | succ count hypothesis =>
    unfold encode
    split
    · simp
    · rename_i large
      have some : 0 < count := by
        refine Nat.pos_of_ne_zero ?_
        rintro rfl
        omega
      have fewer : number / 128 < 128 ^ count := by
        rw [Nat.div_lt_iff_lt_mul (by omega), ← pow_succ]
        exact below
      rw [List.length_cons]
      exact Nat.succ_le_succ (hypothesis some fewer)

/-- **An encoded number** of so many bits fits, whatever comes after it. -/
theorem fits_encode (positive : 0 < bits) (below : number < 2 ^ bits) (suffix : Bytes) :
    Fits bits (encode number ++ suffix) (encode number).length ∧
      value ((encode number ++ suffix).take (encode number).length) = number := by
  obtain ⟨front, last, encoded, high, low, whole⟩ := exists_encode number
  have read : value ((encode number ++ suffix).take (encode number).length) = number := by
    rw [List.take_left, encoded, whole]
  refine ⟨⟨?_, ?_, read.symm ▸ below⟩, read⟩
  · rw [encoded, List.append_assoc, length?_append high, List.singleton_append, length?_low low]
    simp
  · refine length_encode_le (by unfold varintLimit; omega) (Nat.lt_of_lt_of_le below ?_)
    rw [show (128 : Nat) = 2 ^ 7 from rfl, ← pow_mul]
    refine Nat.pow_le_pow_right (by omega) ?_
    unfold varintLimit
    omega

end Leb128

/-- The reading of a number of so many bits as a signed one is that of a bit vector. -/
theorem twosComplement_eq_toInt {bits value : Nat} (below : value < 2 ^ bits) :
    twosComplement bits value = (BitVec.ofNat bits value).toInt := by
  rw [BitVec.toInt_eq_toNat_cond, BitVec.toNat_ofNat, Nat.mod_eq_of_lt below]
  unfold twosComplement
  show (if value < 2 ^ (bits - 1) then _ else _ - ((2 ^ bits : Nat) : Int)) = _
  cases bits with
  | zero =>
    obtain rfl : value = 0 := by simpa using below
    rfl
  | succ bits =>
    rw [Nat.add_sub_cancel, Nat.pow_succ]
    exact if_congr (by omega) rfl rfl

/-! ### Reading groups -/

section Groups

variable {view : View} {streams : Streams Codec} {byte : UInt8} {front rest content : Bytes}

/-- The first byte of those that a view offers. -/
theorem View.Offers.readOne (offers : view.Offers (byte :: rest) streams) :
    ∃ after, (view.readExact 1).run streams = (.ok [byte], after) ∧ view.Gave 1 streams after := by
  have one := offers.readExact 1
  unfold View.exactly View.spentBy at one
  simpa using one

/-- **A group that is not the last one** adds its bits to the number, and the others are read. -/
theorem run_readGroups_high (name : String) (bits left index total : Nat)
    (offers : view.Offers (byte :: rest) streams) (high : 128 ≤ byte.toNat) :
    ∃ after, (readGroups name bits view (left + 1) index total).run streams =
        (readGroups name bits view left (index + 1)
          (total + 2 ^ (7 * index) * (byte.toNat % 128))).run after ∧
      view.Gave 1 streams after := by
  obtain ⟨after, ran, gave⟩ := offers.readOne
  refine ⟨after, ?_, gave⟩
  rw [readGroups, run_bind_ok ran, Nat.mul_comm (2 ^ (7 * index))]
  dsimp only [List.headD_cons]
  rw [if_pos high]
  rfl

/-- The last group. -/
theorem run_readGroups_low (name : String) (bits left index total : Nat)
    (offers : view.Offers (byte :: rest) streams) (low : byte.toNat < 128) :
    ∃ after, (readGroups name bits view (left + 1) index total).run streams =
        (if total + 2 ^ (7 * index) * (byte.toNat % 128) < 2 ^ bits then
            .ok (.int (twosComplement bits (total + 2 ^ (7 * index) * (byte.toNat % 128))))
          else .error (.decode (.varintOverflow name bits)), after) ∧
      view.Gave 1 streams after := by
  obtain ⟨after, ran, gave⟩ := offers.readOne
  refine ⟨after, ?_, gave⟩
  rw [readGroups, run_bind_ok ran, Nat.mul_comm (2 ^ (7 * index))]
  show (if 128 ≤ byte.toNat then _
    else if total + byte.toNat % 128 * 2 ^ (7 * index) < 2 ^ bits then _ else _ :
      StreamStep Codec Value).run after = _
  rw [if_neg (Nat.not_le_of_lt low)]
  split <;> rfl

/-- No group comes from a view at its end. -/
theorem run_readGroups_nil (name : String) (bits left index total : Nat)
    (offers : view.Offers [] streams) :
    ∃ after, (readGroups name bits view (left + 1) index total).run streams =
        (.error (.decode (.shortRead 1 0)), after) ∧
      view.Gave 0 streams after := by
  obtain ⟨after, ran, gave⟩ := offers.readExact 1
  refine ⟨after, ?_, gave⟩
  rw [readGroups]
  exact run_bind_error ran

/-- **Any number of groups** that are not the last one. -/
theorem run_readGroups_front (name : String) (bits left index total : Nat)
    (offers : view.Offers (front ++ rest) streams) (high : ∀ byte ∈ front, 128 ≤ byte.toNat) :
    ∃ after, (readGroups name bits view (front.length + left) index total).run streams =
        (readGroups name bits view left (index + front.length)
          (total + 2 ^ (7 * index) * Leb128.value front)).run after ∧
      view.Gave front.length streams after := by
  induction front generalizing streams index total with
  | nil => exact ⟨streams, by simp [Leb128.value], .refl offers.ready⟩
  | cons byte others hypothesis =>
    obtain ⟨here, later⟩ := List.forall_mem_cons.mp high
    obtain ⟨middle, first, gave⟩ :=
      run_readGroups_high name bits (others.length + left) index total offers here
    obtain ⟨after, rest, gave'⟩ := hypothesis (index + 1)
      (total + 2 ^ (7 * index) * (byte.toNat % 128)) (gave.offers offers) later
    refine ⟨after, ?_, ?_⟩
    · rw [List.length_cons, Nat.add_right_comm, first, rest, Leb128.value_cons, Nat.mul_add 7,
        Nat.pow_add, Nat.mul_add (2 ^ (7 * index)), Nat.add_assoc total, Nat.mul_assoc,
        Nat.add_right_comm index, Nat.add_assoc index]
    · rw [List.length_cons, Nat.add_comm]
      exact gave.trans gave'

/-- Groups that end in time. -/
theorem run_readGroups_ends (name : String) (bits : Nat) {limit count : Nat}
    (offers : view.Offers content streams) (ends : Leb128.length? content = some count)
    (soon : count ≤ limit) :
    ∃ after, (readGroups name bits view limit 0 0).run streams =
        (if Leb128.value (content.take count) < 2 ^ bits then
            .ok (.int (twosComplement bits (Leb128.value (content.take count))))
          else .error (.decode (.varintOverflow name bits)), after) ∧
      view.Gave count streams after := by
  obtain ⟨front, last, rest, rfl, high, low, rfl⟩ := Leb128.exists_of_length? ends
  obtain ⟨more, rfl⟩ := Nat.exists_eq_add_of_le soon
  obtain ⟨middle, first, gave⟩ := run_readGroups_front name bits (1 + more) 0 0 offers high
  have left := gave.offers offers
  rw [List.drop_left] at left
  obtain ⟨after, final, gave'⟩ := run_readGroups_low name bits more (0 + front.length)
    (0 + 2 ^ (7 * 0) * Leb128.value front) left low
  have whole : 0 + 2 ^ (7 * 0) * Leb128.value front + 2 ^ (7 * (0 + front.length)) * (last.toNat % 128) =
      Leb128.value ((front ++ last :: rest).take (front.length + 1)) := by
    rw [List.take_length_add_append, List.take_succ_cons, List.take_zero, Leb128.value_append,
      Leb128.value_cons, show (128 : Nat) = 2 ^ 7 from rfl, ← Nat.pow_mul]
    simp [Leb128.value]
  rw [Nat.add_comm 1 more] at first
  rw [whole] at final
  exact ⟨after, by rw [Nat.add_assoc, Nat.add_comm 1 more]; exact first.trans final, gave.trans gave'⟩

/-- So many groups have come that another one is too many. -/
theorem run_readGroups_long (name : String) (bits : Nat) {limit : Nat}
    (offers : view.Offers content streams) (long : limit ≤ content.length)
    (high : ∀ byte ∈ content.take limit, 128 ≤ byte.toNat) :
    ∃ after, (readGroups name bits view limit 0 0).run streams =
        (.error (.decode (.varintTooLong name (varintLimit bits))), after) ∧
      view.Gave limit streams after := by
  rw [← List.take_append_drop limit content] at offers
  obtain ⟨after, ran, gave⟩ := run_readGroups_front name bits 0 0 0 offers high
  rw [List.length_take_of_le long] at ran gave
  exact ⟨after, ran, gave⟩

/-- The view ends before the last group. -/
theorem run_readGroups_short (name : String) (bits : Nat) {limit : Nat}
    (offers : view.Offers content streams) (short : content.length < limit)
    (high : ∀ byte ∈ content, 128 ≤ byte.toNat) :
    ∃ after, (readGroups name bits view limit 0 0).run streams =
        (.error (.decode (.shortRead 1 0)), after) ∧
      view.Gave content.length streams after := by
  obtain ⟨more, rfl⟩ := Nat.exists_eq_add_of_lt short
  have whole := offers
  rw [← List.append_nil content] at whole
  obtain ⟨middle, first, gave⟩ := run_readGroups_front name bits (more + 1) 0 0 whole high
  have left := gave.offers offers
  rw [List.drop_length] at left
  obtain ⟨after, final, gave'⟩ := run_readGroups_nil name bits more (0 + content.length)
    (0 + 2 ^ (7 * 0) * Leb128.value content) left
  exact ⟨after, by rw [Nat.add_assoc]; exact first.trans final, gave.trans gave'⟩

/-- **Reading groups** from their start: they make an integer, or they are refused, or the view falls
short. -/
theorem run_readGroups (name : String) (bits : Nat) (offers : view.Offers content streams) :
    ∃ result after used,
      (readGroups name bits view (varintLimit bits) 0 0).run streams = (result, after) ∧
      used ≤ varintLimit bits ∧ view.Gave used streams after ∧
      (∀ count, Leb128.Fits bits content count → used = count ∧
        result = .ok (.int (BitVec.ofNat bits (Leb128.value (content.take count))).toInt)) ∧
      (Leb128.Excessive bits content → ∃ cause, result = .error (.decode cause) ∧
        cause.family = .conversion) ∧
      ((∀ count, ¬Leb128.Fits bits content count) → ¬Leb128.Excessive bits content →
        ∃ cause, result = .error (.decode cause) ∧ cause.family = .io) := by
  rcases Leb128.ends_or_goesOn (varintLimit bits) content with
    ⟨count, ends, soon⟩ | ⟨long, high⟩ | ⟨short, high⟩
  · obtain ⟨after, ran, gave⟩ := run_readGroups_ends name bits offers ends soon
    have unique : ∀ other, Leb128.length? content = some other → other = count := fun other found =>
      Option.some.inj (found.symm.trans ends)
    refine ⟨_, after, count, ran, soon, gave, fun other fits => ?_, fun excessive => ?_,
      fun unfit calm => ?_⟩
    · obtain rfl := unique other fits.ends
      rw [if_pos fits.below, twosComplement_eq_toInt fits.below]
      exact ⟨rfl, rfl⟩
    · rcases excessive with ⟨other, found, -, above⟩ | ⟨-, high⟩
      · obtain rfl := unique other found
        rw [if_neg (Nat.not_lt_of_le above)]
        exact ⟨_, rfl, rfl⟩
      · exact absurd high (Leb128.not_goesOn ends soon)
    · by_cases below : Leb128.value (content.take count) < 2 ^ bits
      · exact absurd ⟨ends, soon, below⟩ (unfit count)
      · exact absurd (.inl ⟨count, ends, soon, Nat.le_of_not_lt below⟩) calm
  · obtain ⟨after, ran, gave⟩ := run_readGroups_long name bits offers long high
    exact ⟨_, after, _, ran, Nat.le_refl _, gave,
      fun count fits => absurd high (Leb128.not_goesOn fits.ends fits.soon),
      fun _ => ⟨_, rfl, rfl⟩, fun _ calm => absurd (.inr ⟨long, high⟩) calm⟩
  · obtain ⟨after, ran, gave⟩ := run_readGroups_short name bits offers short high
    have never : ∀ count, Leb128.length? content ≠ some count := fun count ends =>
      Leb128.not_goesOn ends (Nat.le_refl _) fun byte member => high byte (List.mem_of_mem_take member)
    refine ⟨_, after, _, ran, Nat.le_of_lt short, gave, fun count fits => absurd fits.ends (never _),
      fun excessive => ?_, fun _ _ => ⟨_, rfl, rfl⟩⟩
    rcases excessive with ⟨count, ends, -⟩ | ⟨long, -⟩
    · exact absurd ends (never count)
    · exact absurd long (Nat.not_le_of_lt short)

/-- **Integers of so many bits.** The groups that a view offers are read up to the last one. If they
make a number of so many bits, this is the integer, read as a signed one; the groups are refused if they
make a greater number, or if so many have come that another one is too many; and the view falls short if
it ends before. An encoded number is read back, and what comes after it is left. -/
theorem ForeignType.decode_varint (name mode : String) (bits : Nat) (ready : view.Ready streams)
    (gives : (view.readToEnd.run streams).1 = .ok content) :
    ∃ result after used,
      (ForeignType.decode ⟨name, .varint bits⟩ view [] mode).run streams = (result, after) ∧
      used ≤ varintLimit bits ∧ view.position after = view.position streams + used ∧
      (view.readToEnd.run after).1 = .ok (content.drop used) ∧
      (∀ count, Leb128.Fits bits content count → used = count ∧
        result = .ok (.int (BitVec.ofNat bits (Leb128.value (content.take count))).toInt)) ∧
      (Leb128.Excessive bits content → ∃ cause, result = .error (.decode cause) ∧
        cause.family = .conversion) ∧
      ((∀ count, ¬Leb128.Fits bits content count) → ¬Leb128.Excessive bits content →
        ∃ cause, result = .error (.decode cause) ∧ cause.family = .io) ∧
      (∀ (number : Int) (suffix : Bytes), 0 < bits → -2 ^ (bits - 1) ≤ number →
        number < 2 ^ (bits - 1) →
        content = Leb128.encode (number % 2 ^ bits).toNat ++ suffix →
        result = .ok (.int number) ∧ content.drop used = suffix) := by
  have offers := View.offers_of_gives ready gives
  obtain ⟨result, after, used, ran, soon, gave, fits, excessive, otherwise⟩ :=
    run_readGroups name bits offers
  refine ⟨result, after, used, ran, soon, gave.position, (gave.offers offers).gives, fits, excessive,
    otherwise, fun number suffix positive least most same => ?_⟩
  have range : 0 < (2 : Int) ^ bits := by positivity
  have below : (number % 2 ^ bits).toNat < 2 ^ bits := by
    have small := Int.emod_lt_of_pos number range
    have natural := Int.emod_nonneg number (Int.ne_of_gt range)
    zify
    omega
  obtain ⟨fitting, read⟩ := Leb128.fits_encode positive below suffix
  rw [← same] at fitting read
  obtain ⟨rfl, found⟩ := fits _ fitting
  have wraps : BitVec.ofNat bits (number % 2 ^ bits).toNat = BitVec.ofInt bits number :=
    BitVec.eq_of_toNat_eq (by simp [Nat.mod_eq_of_lt below])
  refine ⟨?_, by rw [same, List.drop_left]⟩
  rw [found, read, wraps, BitVec.toInt_ofInt_eq_self positive least most]

end Groups

/-- An integer of sixteen bits in three bytes that come in two pieces, with another byte after it. -/
def splitVarint : Streams Codec :=
  (Streams.openSource {} .blocking ⟨[.bytes [254, 255], .bytes [3, 7]], 0⟩).2.openTake
    (.source .blocking 0) 2 |>.2

/-- The integer is negative. Read as one of fifteen bits it is too great, and in a region of two bytes
it falls short. -/
theorem ForeignType.decode_varint_of_splitVarint :
    let read (bits : Nat) (view : View) :=
      (ForeignType.decode ⟨"integer", .varint bits⟩ view [] "blocking").run splitVarint
    (∃ after, read 16 (.source .blocking 0) = (.ok (.int (-2)), after) ∧
      ((View.source .blocking 0).readToEnd.run after).1 = .ok [7]) ∧
    (∃ cause after, read 15 (.source .blocking 0) = (.error (.decode cause), after) ∧
      cause.family = .conversion) ∧
    ∃ cause after, read 16 (.take 0 (.source .blocking 0)) = (.error (.decode cause), after) ∧
      cause.family = .io := by
  have ready : (View.source .blocking 0).Ready splitVarint := trivial
  have gives : ((View.source .blocking 0).readToEnd.run splitVarint).1 = .ok [254, 255, 3, 7] :=
    View.Offers.gives ⟨ready, rfl, rfl⟩
  refine ⟨?_, ?_, ?_⟩
  · obtain ⟨result, after, used, ran, -, -, left, -, -, -, encoded⟩ :=
      ForeignType.decode_varint "integer" "blocking" 16 ready gives
    obtain ⟨rfl, suffix⟩ := encoded (-2) [7] (by decide) (by decide) (by decide)
      (by simp [Leb128.encode])
    exact ⟨after, ran, by rw [left, suffix]⟩
  · obtain ⟨result, after, used, ran, -, -, -, -, excessive, -⟩ :=
      ForeignType.decode_varint "integer" "blocking" 15 ready gives
    obtain ⟨cause, rfl, family⟩ := excessive (.inl ⟨3, by decide, by decide, by decide⟩)
    exact ⟨cause, after, ran, family⟩
  · have ready : (View.take 0 (.source .blocking 0)).Ready splitVarint := ⟨nofun, trivial⟩
    have gives : ((View.take 0 (.source .blocking 0)).readToEnd.run splitVarint).1 = .ok [254, 255] :=
      View.Offers.gives ⟨ready, rfl, rfl⟩
    obtain ⟨result, after, used, ran, -, -, -, -, -, otherwise, -⟩ :=
      ForeignType.decode_varint "integer" "blocking" 16 ready gives
    have never : Leb128.length? [254, 255] = none := by decide
    obtain ⟨cause, rfl, family⟩ := otherwise
      (fun count fits => by have ends := fits.ends; rw [never] at ends; cases ends)
      (by
        rintro (⟨count, ends, -⟩ | ⟨long, -⟩)
        · rw [never] at ends
          cases ends
        · exact absurd long (by decide))
    exact ⟨cause, after, ran, family⟩

end WireProgram
