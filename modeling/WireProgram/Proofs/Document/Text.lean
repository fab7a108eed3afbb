/-
**Strings and numbers as text.**

A string is written with escapes and a number with its digits. Both are read as they were written: a
string if it keeps no half of a pair, and a whole number if it has no more digits than the reader
takes. The main definitions and statements:

* `Text.Plain`, strings that keep no half of a pair, and `Json.readString_render`;
* `Json.Closes`, what may stand after a part of a document, and `Json.readNumber_render`.
-/

import Mathlib.Data.Nat.Digits.Defs
import Mathlib.Data.String.Basic
import WireProgram.Json.Printer
import WireProgram.Json.Reader

namespace WireProgram

/-! ### Escapes -/

/-- A text that keeps no half of a pair. -/
def Text.Plain (text : String) : Prop :=
  ∀ c ∈ text.toList, Text.loneSurrogate? c = none

/-- Whether a text is plain. Its own characters are tried, not all that there are. -/
def Text.decidePlain (text : String) : Decidable (Text.Plain text) :=
  List.decidableBAll (fun c => Text.loneSurrogate? c = none) text.toList

namespace Json

theorem hexPadded_four {value : Nat} (small : value < 65536) :
    Text.hexPadded 4 value = [Nat.digitChar (value / 4096), Nat.digitChar (value / 256 % 16),
      Nat.digitChar (value / 16 % 16), Nat.digitChar (value % 16)] := by
  have step : ∀ n, Nat.toDigits 16 n =
      if n < 16 then [n.digitChar] else Nat.toDigits 16 (n / 16) ++ [(n % 16).digitChar] :=
    fun n => Nat.toDigits_eq_if (by decide)
  have zero : ∀ {n}, n = 0 → Nat.digitChar n = '0' := by
    rintro n rfl
    rfl
  unfold Text.hexPadded
  by_cases one : value < 16
  · rw [step, if_pos one, zero (n := value / 4096) (by omega),
      zero (n := value / 256 % 16) (by omega),
      zero (n := value / 16 % 16) (by omega), Nat.mod_eq_of_lt one]
    rfl
  by_cases two : value < 256
  · rw [step, if_neg one, step, if_pos (by omega), zero (n := value / 4096) (by omega),
      zero (n := value / 256 % 16) (by omega), Nat.mod_eq_of_lt (show value / 16 < 16 by omega)]
    rfl
  have second : value / 16 / 16 = value / 256 := by omega
  by_cases three : value < 4096
  · rw [step, if_neg one, step, if_neg (by omega), step, if_pos (by omega), second,
      zero (n := value / 4096) (by omega), Nat.mod_eq_of_lt (show value / 256 < 16 by omega)]
    rfl
  have third : value / 256 / 16 = value / 4096 := by omega
  rw [step, if_neg one, step, if_neg (by omega), step, if_neg (by omega), second, step,
    if_pos (by omega), third]
  rfl

theorem hexValue?_digitChar : ∀ value < 16, Bytes.hexValue? (Nat.digitChar value) = some value := by
  decide

/-- The escape of a unit is read as the unit. -/
theorem readPoints_unitEscape {unit : Nat} (small : unit < 65536) (rest : List Char) :
    readPoints (unitEscape unit ++ rest) =
      (readPoints rest).map fun read => (unit :: read.1, read.2) := by
  have spelled : unit? (Nat.digitChar (unit / 4096)) (Nat.digitChar (unit / 256 % 16))
      (Nat.digitChar (unit / 16 % 16)) (Nat.digitChar (unit % 16)) = some unit := by
    unfold unit?
    rw [hexValue?_digitChar _ (by omega), hexValue?_digitChar _ (by omega),
      hexValue?_digitChar _ (by omega), hexValue?_digitChar _ (by omega)]
    refine congrArg some ?_
    omega
  unfold unitEscape
  rw [hexPadded_four small]
  show readPoints ('\\' :: 'u' :: _ :: _ :: _ :: _ :: rest) = _
  rw [readPoints, spelled]
  cases readPoints rest <;> rfl

/-- A short escape is read as the character that it stands for. -/
theorem readPoints_short {mark c : Char} (apart : mark ≠ 'u') (short : shortEscape? mark = some c)
    (rest : List Char) :
    readPoints ('\\' :: mark :: rest) =
      (readPoints rest).map fun read => (c.toNat :: read.1, read.2) := by
  rw [readPoints, short]
  · cases readPoints rest <;> rfl
  · exact fun _ _ _ _ _ same => absurd same apart

/-- A character that needs no escape is read as itself. -/
theorem readPoints_plain {c : Char} (quote : c ≠ '"') (escape : c ≠ '\\') (printed : 0x20 ≤ c.toNat)
    (rest : List Char) :
    readPoints (c :: rest) = (readPoints rest).map fun read => (c.toNat :: read.1, read.2) := by
  rw [readPoints]
  · rw [if_neg (Nat.not_lt.mpr printed)]
    cases readPoints rest <;> rfl
  · exact quote
  · exact fun _ _ _ _ _ same => absurd same escape
  · exact fun _ _ same => absurd same escape

/-- The code points and units that a character is written as. -/
def pointsOf (c : Char) : List Nat :=
  if c.toNat < 0x10000 then [c.toNat]
  else [0xD800 + (c.toNat - 0x10000) / 0x400, 0xDC00 + (c.toNat - 0x10000) % 0x400]

/-- **A character is read as it was written.** -/
theorem readPoints_escape {c : Char} (plain : Text.loneSurrogate? c = none) (rest : List Char) :
    readPoints (escape c ++ rest) =
      (readPoints rest).map fun read => (pointsOf c ++ read.1, read.2) := by
  unfold escape
  split
  · subst c
    exact readPoints_short (by decide) rfl rest
  split
  · subst c
    exact readPoints_short (by decide) rfl rest
  split
  · subst c
    exact readPoints_short (by decide) rfl rest
  split
  · subst c
    exact readPoints_short (by decide) rfl rest
  split
  · subst c
    exact readPoints_short (by decide) rfl rest
  split
  · subst c
    exact readPoints_short (by decide) rfl rest
  split
  · subst c
    exact readPoints_short (by decide) rfl rest
  rename_i quote escape _ _ _ _ _
  unfold pointsOf
  split
  · rename_i printed
    rw [if_pos (by omega)]
    exact readPoints_plain quote escape printed.1 rest
  split
  · exact readPoints_unitEscape ‹_› rest
  · rename_i beyond
    have limit : c.toNat < 0x110000 := by
      have valid := c.valid
      rcases valid with valid | valid
      · exact Nat.lt_trans valid (by decide)
      · exact valid.2
    rw [plain]
    dsimp only
    rw [List.append_assoc, readPoints_unitEscape (by omega), readPoints_unitEscape (by omega)]
    cases readPoints rest <;> rfl

theorem readPoints_text {text : List Char} (plain : ∀ c ∈ text, Text.loneSurrogate? c = none)
    (rest : List Char) :
    readPoints (text.flatMap escape ++ '"' :: rest) = .ok (text.flatMap pointsOf, rest) := by
  induction text with
  | nil => rfl
  | cons c text hypothesis =>
    obtain ⟨here, others⟩ := List.forall_mem_cons.mp plain
    rw [List.flatMap_cons, List.flatMap_cons, List.append_assoc, readPoints_escape here,
      hypothesis others]
    rfl

/-! ### Pairs -/

theorem isSurrogate_eq_false (c : Char) :
    Text.isHighSurrogate c.toNat = false ∧ Text.isLowSurrogate c.toNat = false := by
  have valid : c.toNat < 0xD800 ∨ 0xDFFF < c.toNat := c.valid.imp_right And.left
  unfold Text.isHighSurrogate Text.isLowSurrogate
  constructor
  · exact decide_eq_false (by omega)
  · exact decide_eq_false (by omega)

theorem charOfPoint_toNat (c : Char) : charOfPoint c.toNat = c := by
  obtain ⟨high, low⟩ := isSurrogate_eq_false c
  unfold charOfPoint
  rw [high, low, if_neg (by decide)]
  exact Char.ofNat_toNat c

/-- The units of a character are joined to it. -/
theorem joinPairs_pointsOf (c : Char) (points : List Nat) :
    joinPairs (pointsOf c ++ points) = c :: joinPairs points := by
  unfold pointsOf
  split
  · cases points with
    | nil => exact congrArg (fun c => [c]) (charOfPoint_toNat c)
    | cons next rest =>
      show joinPairs (c.toNat :: next :: rest) = _
      rw [joinPairs, (isSurrogate_eq_false c).1, if_neg (by simp), charOfPoint_toNat]
  · rename_i beyond
    have limit : c.toNat < 0x110000 := by
      have valid := c.valid
      rcases valid with valid | valid
      · exact Nat.lt_trans valid (by decide)
      · exact valid.2
    have high : Text.isHighSurrogate (0xD800 + (c.toNat - 0x10000) / 0x400) = true :=
      decide_eq_true (by omega)
    have low : Text.isLowSurrogate (0xDC00 + (c.toNat - 0x10000) % 0x400) = true :=
      decide_eq_true (by omega)
    have whole : 0x10000 + (0xD800 + (c.toNat - 0x10000) / 0x400 - 0xD800) * 0x400 +
        (0xDC00 + (c.toNat - 0x10000) % 0x400 - 0xDC00) = c.toNat := by omega
    show joinPairs (_ :: _ :: points) = _
    rw [joinPairs, high, low, if_pos (Bool.and_self true), whole, Char.ofNat_toNat]

theorem joinPairs_text (text : List Char) : joinPairs (text.flatMap pointsOf) = text := by
  induction text with
  | nil => rfl
  | cons c text hypothesis => rw [List.flatMap_cons, joinPairs_pointsOf, hypothesis]

/-- **A string is read as it was written.** -/
theorem readString_render {text : String} (plain : Text.Plain text) (rest : List Char) :
    readString ((renderString text).toList ++ rest) = .ok (text, rest) := by
  unfold renderString
  rw [String.toList_ofList, List.cons_append, List.cons_append, List.append_assoc,
    List.singleton_append, readString, readPoints_text plain]
  dsimp only
  rw [joinPairs_text, String.ofList_toList]

/-! ### Numbers -/

/-- What may stand after a part of a document: nothing, or what ends the part. -/
def Closes (rest : List Char) : Prop :=
  ∀ c more, rest = c :: more → c = ',' ∨ c = '\n' ∨ c = ']' ∨ c = '\x7d'

theorem closes_nil : Closes [] := nofun

theorem closes_cons {c : Char} {more : List Char}
    (closes : c = ',' ∨ c = '\n' ∨ c = ']' ∨ c = '\x7d') : Closes (c :: more) := by
  rintro _ _ ⟨⟩
  exact closes

/-- The digits of a number. -/
theorem isDigit_of_mem {size : Nat} {c : Char} (member : c ∈ Nat.toDigits 10 size) :
    isDigit c = true := by
  have digit := Nat.isDigit_of_mem_toDigits (by decide) (by decide) member
  unfold isDigit
  unfold Char.isDigit at digit
  rw [Bool.and_eq_true, decide_eq_true_eq, decide_eq_true_eq] at digit
  exact decide_eq_true ⟨digit.1, digit.2⟩

theorem digitsValue_toDigits (size : Nat) : digitsValue (Nat.toDigits 10 size) = size := by
  have value := @Nat.ofDigitChars_ten_toDigits size
  rw [Nat.ofDigitChars_eq_foldl] at value
  unfold digitsValue
  simpa only [Nat.mul_comm, show '0'.toNat = 48 from rfl] using value

/-- A number but zero starts with another digit than zero. -/
theorem toDigits_head {size : Nat} (positive : 0 < size) (more : List Char) :
    Nat.toDigits 10 size ≠ '0' :: more := by
  induction size using Nat.strongRecOn generalizing more with
  | ind size hypothesis =>
    intro same
    by_cases small : size < 10
    · rw [Nat.toDigits_of_lt_base small] at same
      obtain ⟨zero, -⟩ := List.cons.inj same
      have nonzero : ∀ value < 10, 0 < value → Nat.digitChar value ≠ '0' := by decide
      exact nonzero size small positive zero
    · have large : 10 ≤ size := Nat.le_of_not_lt small
      rw [Nat.toDigits_of_base_le (by decide) large] at same
      cases front : Nat.toDigits 10 (size / 10) with
      | nil => exact Nat.toDigits_ne_nil front
      | cons c others =>
        rw [front, List.cons_append] at same
        obtain ⟨rfl, -⟩ := List.cons.inj same
        exact hypothesis (size / 10) (by omega) (by omega) others front

/-- The digits in front of what closes a part are read as a whole. -/
theorem spanDigits_append {digits rest : List Char} (all : ∀ c ∈ digits, isDigit c = true)
    (closes : Closes rest) : spanDigits (digits ++ rest) = (digits, rest) := by
  have stops : rest.takeWhile isDigit = [] ∧ rest.dropWhile isDigit = rest := by
    cases rest with
    | nil => exact ⟨rfl, rfl⟩
    | cons c more => rcases closes c more rfl with rfl | rfl | rfl | rfl <;> exact ⟨rfl, rfl⟩
  unfold spanDigits
  rw [List.takeWhile_append_of_pos all, List.dropWhile_append_of_pos all, stops.1, stops.2,
    List.append_nil]

theorem readWhole_digits (size : Nat) {rest : List Char} (closes : Closes rest) :
    readWhole (Nat.toDigits 10 size ++ rest) = .ok (Nat.toDigits 10 size, rest) := by
  rcases Nat.eq_zero_or_pos size with rfl | positive
  · rfl
  · have spanned := spanDigits_append (fun c (member : c ∈ Nat.toDigits 10 size) =>
      isDigit_of_mem member) closes
    cases front : Nat.toDigits 10 size with
    | nil => exact absurd front Nat.toDigits_ne_nil
    | cons c others =>
      rw [front] at spanned
      have first : c ≠ '0' := by
        rintro rfl
        exact toDigits_head positive others front
      rw [List.cons_append] at spanned ⊢
      rw [readWhole, spanned]
      exact fun _ same => absurd (List.cons.inj same).1 first

/-- **The digits of a number are read as the number.** -/
theorem readUnsigned_digits (negative : Bool) {size : Nat} (small : size < 10 ^ digitLimit)
    {rest : List Char} (closes : Closes rest) :
    readUnsigned negative (Nat.toDigits 10 size ++ rest) =
      .ok (.int (if negative then -(size : Int) else size), rest) := by
  have fraction : readFraction rest = ([], rest) := by
    cases rest with
    | nil => rfl
    | cons c more => rcases closes c more rfl with rfl | rfl | rfl | rfl <;> rfl
  have exponent : readExponent rest = (none, rest) := by
    cases rest with
    | nil => rfl
    | cons c more => rcases closes c more rfl with rfl | rfl | rfl | rfl <;> rfl
  have short : ¬digitLimit < (Nat.toDigits 10 size).length :=
    Nat.not_lt.mpr ((Nat.length_toDigits_le_iff (by decide) (by decide)).mpr small)
  unfold readUnsigned
  rw [readWhole_digits size closes]
  simp only [bind, Except.bind, fraction, exponent]
  rw [if_pos ⟨rfl, rfl⟩, if_neg short, digitsValue_toDigits]

end Json

end WireProgram
