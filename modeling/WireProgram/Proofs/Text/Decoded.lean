/-
**Texts that are read from a view.**

A type of texts reads as many units as its length says, or all there are, and gives the text that those
bytes encode. So a text is read back from its encoding and what follows it is left; what is read as a text
was its encoding; and bytes that are no encoding fail as such. A length counts bytes in the one encoding
and units of two bytes in the other. The main definitions and statements:

* `TextEncoding`, the two encodings, with `TextEncoding.encode` and `TextEncoding.length`;
* `TextEncoding.run_decode`, reading and decoding in either of them;
* `View.readLength_course`, the bytes that are read;
* `ForeignType.decode_text`, the texts that are read from a view.
-/

import WireProgram.Capability
import WireProgram.Proofs.Stream.Offer
import WireProgram.Proofs.Text.WellFormed

namespace WireProgram

variable {view : View} {streams after : Streams Codec} {bytes : Bytes} {name mode : String}

/-! ### Encodings -/

/-- The encodings of text that there are types for. -/
inductive TextEncoding where
  /-- One to four bytes a character. -/
  | utf8
  /-- Units of two bytes, most significant byte first. -/
  | utf16

namespace TextEncoding

variable {encoding : TextEncoding} {text : String} {value : Value}

/-- What a type of texts in an encoding reads. -/
def action : TextEncoding → ForeignAction
  | .utf8 => .utf8
  | .utf16 => .utf16

/-- The bytes of a text. -/
def encode : TextEncoding → String → Bytes
  | .utf8, text => Utf8.encode text.toList
  | .utf16, text => Utf16.encode text.toList

/-- The number of bytes that are counted as one. -/
def width : TextEncoding → Nat
  | .utf8 => 1
  | .utf16 => 2

/-- The length of a text: its bytes, or its units of two bytes. -/
def length : TextEncoding → String → Nat
  | .utf8, text => (Utf8.encode text.toList).length
  | .utf16, text => (text.toList.flatMap Utf16.units).length

theorem length_encode (encoding : TextEncoding) (text : String) :
    (encoding.encode text).length = encoding.length text * encoding.width := by
  cases encoding with
  | utf8 => exact (Nat.mul_one _).symm
  | utf16 => exact Utf16.length_encode _

/-- The characters that a byte string encodes. -/
def charsOf : TextEncoding → Bytes → Except Text.TextFault (List Char)
  | .utf8 => Utf8.decode
  | .utf16 => Utf16.decode

/-- How a fault among the bytes of a text is reported. -/
def malformed : TextEncoding → Text.TextFault → DecodeFault
  | .utf8 => .malformedUtf8
  | .utf16 => .malformedUtf16

/-- The text that a byte string encodes. -/
def textOf (encoding : TextEncoding) (bytes : Bytes) : Except Fault Value :=
  match encoding.charsOf bytes with
  | .ok chars => .ok (.text (String.ofList chars))
  | .error fault => .error (.decode (encoding.malformed fault))

theorem charsOf_eq_ok_iff {chars : List Char} :
    encoding.charsOf bytes = .ok chars ↔ encoding.encode (String.ofList chars) = bytes := by
  cases encoding with
  | utf8 =>
    rw [encode, String.toList_ofList]
    exact Utf8.decode_eq_ok_iff
  | utf16 =>
    rw [encode, String.toList_ofList]
    exact Utf16.decode_eq_ok_iff

/-- The text of its encoding. -/
theorem textOf_encode (encoding : TextEncoding) (text : String) :
    encoding.textOf (encoding.encode text) = .ok (.text text) := by
  have chars : encoding.charsOf (encoding.encode text) = .ok text.toList :=
    charsOf_eq_ok_iff.mpr (congrArg encoding.encode String.ofList_toList)
  unfold textOf
  rw [chars]
  exact congrArg (fun text => Except.ok (Value.text text)) String.ofList_toList

/-- What has a text is its encoding. -/
theorem exists_of_textOf (found : encoding.textOf bytes = .ok value) :
    ∃ text, value = .text text ∧ encoding.encode text = bytes := by
  unfold textOf at found
  cases chars : encoding.charsOf bytes with
  | error fault =>
    rw [chars] at found
    cases found
  | ok chars =>
    rw [‹encoding.charsOf bytes = _›] at found
    cases found
    exact ⟨_, rfl, charsOf_eq_ok_iff.mp ‹_›⟩

/-- What is no encoding cannot be read as a text. -/
theorem textOf_malformed (none : ∀ text, encoding.encode text ≠ bytes) :
    ∃ cause : DecodeFault, encoding.textOf bytes = .error (.decode cause) ∧
      cause.family = .conversion := by
  unfold textOf
  cases chars : encoding.charsOf bytes with
  | ok chars => exact absurd (charsOf_eq_ok_iff.mp ‹_›) (none _)
  | error fault => cases encoding <;> exact ⟨_, rfl, rfl⟩

/-- Reading a text: the length, the bytes and what they encode. -/
theorem decode_eq (encoding : TextEncoding) (name : String) (view : View) (arguments : List Value)
    (mode : String) :
    ForeignType.decode ⟨name, encoding.action⟩ view arguments mode = (do
      let length ← StreamStep.ofExcept (textLength? name arguments)
      let bytes ← readLength view (length.map (· * encoding.width))
      StreamStep.ofExcept (encoding.textOf bytes)) := by
  cases encoding with
  | utf8 =>
    have counted : ∀ length : Option Nat, length.map (· * width .utf8) = length := fun length => by
      cases length with
      | none => rfl
      | some length => exact congrArg some (Nat.mul_one length)
    have found : ∀ bytes, textOf .utf8 bytes = match Utf8.decode bytes with
      | .ok chars => .ok (.text (String.ofList chars))
      | .error fault => .error (.decode (.malformedUtf8 fault)) := fun _ => rfl
    unfold ForeignType.decode
    dsimp only [action]
    simp only [counted]
    refine bind_congr fun length => bind_congr fun bytes => ?_
    rw [found]
    cases Utf8.decode bytes <;> rfl
  | utf16 =>
    have found : ∀ bytes, textOf .utf16 bytes = match Utf16.decode bytes with
      | .ok chars => .ok (.text (String.ofList chars))
      | .error fault => .error (.decode (.malformedUtf16 fault)) := fun _ => rfl
    unfold ForeignType.decode
    dsimp only [action]
    refine bind_congr fun length => bind_congr fun bytes => ?_
    rw [found]
    cases Utf16.decode bytes <;> rfl

end TextEncoding

/-! ### Lengths -/

/-- No argument asks for all bytes. -/
theorem textLength?_nil (name : String) : textLength? name [] = .ok none := rfl

/-- A natural number asks for so many units. -/
theorem textLength?_natural {argument : Value} {count : Nat}
    (natural : argument.toInteger? = some (count : Int)) :
    textLength? name [argument] = .ok (some count) := by
  simp only [textLength?, natural]
  exact if_neg (Int.not_lt.mpr (Int.natCast_nonneg count))

/-! ### Reading -/

/-- **The bytes that are read** are those that come next: so many as were asked for, or all of them. -/
theorem View.readLength_course (ready : view.Ready streams) {length : Option Nat}
    (ran : (readLength view length).run streams = (.ok bytes, after)) :
    (view.course streams).bytes = bytes ++ (view.course after).bytes ∧
      view.position after = view.position streams + bytes.length ∧
      match length with
      | none => (view.course streams).fault = none ∧ view.atEnd after = true
      | some count => bytes.length = count := by
  cases length with
  | none =>
    have gives : (view.readToEnd.run streams).1 = .ok bytes := congrArg Prod.fst ran
    have offers := offers_of_gives ready gives
    obtain ⟨last, drained, gave⟩ := offers.readToEnd
    obtain ⟨result, final, ends, others⟩ := readToEnd_decoded ready
    have same : ((.ok bytes : Except Fault Bytes), last) = (.ok bytes, after) := drained.symm.trans ran
    have same' : (result, final) = (.ok bytes, after) := ends.symm.trans ran
    cases same
    cases same'
    rcases others with ⟨fault, -, wrong⟩ | ⟨-, sound, -, past⟩
    · cases wrong
    · refine ⟨?_, gave.position, sound, past⟩
      rw [gave.bytes, offers.bytes, List.drop_length, List.append_nil]
  | some count =>
    obtain ⟨result, last, read, reads⟩ := readExact_gave ready count
    have same : (result, last) = (.ok bytes, after) := read.symm.trans ran
    cases same
    obtain ⟨within, rfl, gave⟩ := reads
    have full : ((view.course streams).bytes.take count).length = count := List.length_take_of_le within
    refine ⟨?_, ?_, full⟩
    · rw [gave.bytes, List.take_append_drop]
    · rw [gave.position, full]

/-- The bytes that are there are read. -/
theorem View.Offers.readLength {content rest : Bytes} (offers : view.Offers (content ++ rest) streams)
    {length : Option Nat} (asks : length = some content.length ∨ length = none ∧ rest = []) :
    ∃ after, (WireProgram.readLength view length).run streams = (.ok content, after) ∧
      view.Offers rest after := by
  rcases asks with rfl | ⟨rfl, rfl⟩
  · obtain ⟨after, ran, gave⟩ := offers.readExact content.length
    have within : content.length ≤ (content ++ rest).length := by
      rw [List.length_append]
      exact Nat.le_add_right _ _
    have left := gave.offers offers
    rw [View.spentBy, if_pos within, List.drop_left] at left
    rw [View.exactly, if_pos within, List.take_left] at ran
    exact ⟨after, ran, left⟩
  · obtain ⟨after, ran, gave⟩ := offers.readToEnd
    have left := gave.offers offers
    rw [List.drop_length] at left
    rw [List.append_nil] at ran
    exact ⟨after, ran, left⟩

/-! ### Texts -/

section Texts

variable (encoding : TextEncoding)

/-- Reading a text once its length is known and its bytes were read. -/
theorem run_decode_text {arguments : List Value} {length : Option Nat}
    (asked : textLength? name arguments = .ok length)
    (read : (readLength view (length.map (· * encoding.width))).run streams = (.ok bytes, after)) :
    (ForeignType.decode ⟨name, encoding.action⟩ view arguments mode).run streams =
      (encoding.textOf bytes, after) := by
  have known : (StreamStep.ofExcept (textLength? name arguments)).run streams =
      (.ok length, streams) := congrArg (·, streams) asked
  rw [encoding.decode_eq, run_bind_ok known, run_bind_ok read]
  rfl

/-- The encoding of a text is read as that text. -/
theorem run_decode_encoded {text : String} {suffix : Bytes} {arguments : List Value}
    {length : Option Nat} (offers : view.Offers (encoding.encode text ++ suffix) streams)
    (asked : textLength? name arguments = .ok length)
    (fits : length = some (encoding.length text) ∨ length = none ∧ suffix = []) :
    ∃ after, (ForeignType.decode ⟨name, encoding.action⟩ view arguments mode).run streams =
      (.ok (.text text), after) ∧ view.Offers suffix after := by
  have asks : length.map (· * encoding.width) = some (encoding.encode text).length ∨
      length.map (· * encoding.width) = none ∧ suffix = [] := by
    rcases fits with rfl | ⟨rfl, rest⟩
    · exact .inl (congrArg some (encoding.length_encode text).symm)
    · exact .inr ⟨rfl, rest⟩
  obtain ⟨after, ran, left⟩ := offers.readLength asks
  refine ⟨after, ?_, left⟩
  rw [run_decode_text encoding asked ran, encoding.textOf_encode]

/-- What is read as a text was its encoding. -/
theorem encoded_of_run_decode (ready : view.Ready streams) {arguments : List Value} {value : Value}
    (ran : (ForeignType.decode ⟨name, encoding.action⟩ view arguments mode).run streams =
      (.ok value, after)) :
    ∃ text, value = .text text ∧
      (view.course streams).bytes = encoding.encode text ++ (view.course after).bytes ∧
      view.position after = view.position streams + (encoding.encode text).length ∧
      (arguments = [] → view.atEnd after = true) := by
  rw [encoding.decode_eq] at ran
  obtain ⟨length, middle, asked, ran⟩ := run_bind_eq_ok ran
  obtain ⟨bytes, last, read, found⟩ := run_bind_eq_ok ran
  have asked' : (textLength? name arguments, streams) = (.ok length, middle) := asked
  have found' : (encoding.textOf bytes, last) = (.ok value, after) := found
  obtain ⟨known, rfl⟩ := Prod.mk.inj asked'
  obtain ⟨decoded, rfl⟩ := Prod.mk.inj found'
  obtain ⟨text, rfl, rfl⟩ := TextEncoding.exists_of_textOf decoded
  obtain ⟨front, position, stops⟩ := View.readLength_course ready read
  refine ⟨text, rfl, front, position, ?_⟩
  rintro rfl
  obtain rfl : length = none := (Except.ok.inj known).symm
  exact stops.2

/-- Bytes that are no encoding are refused. -/
theorem run_decode_malformed {arguments : List Value} {length : Option Nat}
    (asked : textLength? name arguments = .ok length)
    (read : (readLength view (length.map (· * encoding.width))).run streams = (.ok bytes, after))
    (none : ∀ text, encoding.encode text ≠ bytes) :
    ∃ cause : DecodeFault,
      (ForeignType.decode ⟨name, encoding.action⟩ view arguments mode).run streams =
        (.error (.decode cause), after) ∧ cause.family = .conversion := by
  obtain ⟨cause, refused, family⟩ := TextEncoding.textOf_malformed none
  refine ⟨cause, ?_, family⟩
  rw [run_decode_text encoding asked read, refused]

/-- **The texts that are read from a view.** If the encoding of a text comes first, it is read back with
its length, and what follows it is left; without a length it is read back if nothing follows it, and the
view is at its end. Whatever the arguments, a value that is read is a text, and the bytes that were
consumed are its encoding. Bytes that are the encoding of no text cannot be read as one. -/
theorem ForeignType.decode_text (name mode : String) (ready : view.Ready streams) :
    let read (arguments : List Value) :=
      (ForeignType.decode ⟨name, encoding.action⟩ view arguments mode).run streams
    (∀ text suffix argument,
      (view.readToEnd.run streams).1 = .ok (encoding.encode text ++ suffix) →
      argument.toInteger? = some (encoding.length text : Int) →
      ∃ after, read [argument] = (.ok (.text text), after) ∧
        (view.readToEnd.run after).1 = .ok suffix) ∧
    (∀ text, (view.readToEnd.run streams).1 = .ok (encoding.encode text) →
      ∃ after, read [] = (.ok (.text text), after) ∧ view.atEnd after = true ∧
        (view.readToEnd.run after).1 = .ok []) ∧
    (∀ arguments value after, read arguments = (.ok value, after) →
      ∃ text, value = .text text ∧
        (view.course streams).bytes = encoding.encode text ++ (view.course after).bytes ∧
        view.position after = view.position streams + (encoding.encode text).length) ∧
    (∀ argument (count : Nat), argument.toInteger? = some (count : Int) →
      count * encoding.width ≤ (view.course streams).bytes.length →
      (∀ text, encoding.encode text ≠ (view.course streams).bytes.take (count * encoding.width)) →
      ∃ cause : DecodeFault, (read [argument]).1 = .error (.decode cause) ∧
        cause.family = .conversion) ∧
    ∀ content, (view.readToEnd.run streams).1 = .ok content →
      (∀ text, encoding.encode text ≠ content) →
      ∃ cause : DecodeFault, (read []).1 = .error (.decode cause) ∧ cause.family = .conversion := by
  intro read
  refine ⟨fun text suffix argument gives natural => ?_, fun text gives => ?_,
    fun arguments value after ran => ?_, fun argument count natural within none => ?_,
    fun content gives none => ?_⟩
  · obtain ⟨after, ran, left⟩ := run_decode_encoded encoding (View.offers_of_gives ready gives)
      (textLength?_natural natural) (.inl rfl)
    exact ⟨after, ran, left.gives⟩
  · rw [← List.append_nil (encoding.encode text)] at gives
    obtain ⟨after, ran, left⟩ := run_decode_encoded encoding (View.offers_of_gives ready gives)
      (textLength?_nil name) (.inr ⟨rfl, rfl⟩)
    obtain ⟨-, -, -, -, past⟩ := encoded_of_run_decode encoding ready ran
    exact ⟨after, ran, past rfl, left.gives⟩
  · obtain ⟨text, same, front, position, -⟩ := encoded_of_run_decode encoding ready ran
    exact ⟨text, same, front, position⟩
  · obtain ⟨result, after, ran, reads⟩ := View.readExact_gave ready (count * encoding.width)
    cases result with
    | error fault => exact absurd reads.1 (Nat.not_lt.mpr within)
    | ok bytes =>
      obtain ⟨-, rfl, -⟩ := reads
      obtain ⟨cause, refused, family⟩ := run_decode_malformed encoding
        (textLength?_natural natural) ran none
      exact ⟨cause, congrArg Prod.fst refused, family⟩
  · obtain ⟨after, ran, -⟩ := (View.offers_of_gives ready gives).readToEnd
    obtain ⟨cause, refused, family⟩ := run_decode_malformed encoding (textLength?_nil name) ran none
    exact ⟨cause, congrArg Prod.fst refused, family⟩

/-- A text with characters of two, three and four bytes that comes in pieces cut inside its characters,
with two more bytes that are no character; and the same text in units of two bytes with half a pair after
it. -/
def splitTexts : Streams Codec :=
  ((Streams.openSource {} .blocking
    ⟨[.bytes [0xC3], .bytes [0xA9, 0xE2, 0x82], .bytes [0xAC, 0xF0, 0x9F, 0x98, 0x80, 0xC0, 0x80]],
      0⟩).2.openSource .blocking
    ⟨[.bytes [0, 0xE9, 0x20], .bytes [0xAC, 0xD8, 0x3D, 0xDE], .bytes [0, 0xD8, 0x3D]], 0⟩).2

/-- With its length the text is read in both encodings; with all the bytes it is refused. -/
theorem ForeignType.decode_text_of_splitTexts :
    let read (encoding : TextEncoding) (cell : Nat) (arguments : List Value) :=
      (ForeignType.decode ⟨"text", encoding.action⟩ (.source .blocking cell) arguments
        "blocking").run splitTexts
    ((∃ after, read .utf8 0 [.int 9] = (.ok (.text "é€😀"), after) ∧
        ((View.source .blocking 0).readToEnd.run after).1 = .ok [0xC0, 0x80]) ∧
      ∃ cause : DecodeFault, (read .utf8 0 []).1 = .error (.decode cause) ∧
        cause.family = .conversion) ∧
    (∃ after, read .utf16 1 [.int 4] = (.ok (.text "é€😀"), after) ∧
        ((View.source .blocking 1).readToEnd.run after).1 = .ok [0xD8, 0x3D]) ∧
      ∃ cause : DecodeFault, (read .utf16 1 [.int 5]).1 = .error (.decode cause) ∧
        cause.family = .conversion := by
  have ready : ∀ cell, (View.source .blocking cell).Ready splitTexts := fun _ => trivial
  have gives : ((View.source .blocking 0).readToEnd.run splitTexts).1 =
      .ok (TextEncoding.utf8.encode "é€😀" ++ [0xC0, 0x80]) :=
    View.Offers.gives ⟨ready 0, by decide +kernel, by decide +kernel⟩
  have gives' : ((View.source .blocking 1).readToEnd.run splitTexts).1 =
      .ok (TextEncoding.utf16.encode "é€😀" ++ [0xD8, 0x3D]) :=
    View.Offers.gives ⟨ready 1, by decide +kernel, by decide +kernel⟩
  obtain ⟨bounded, -, -, -, unbounded⟩ := ForeignType.decode_text .utf8 "text" "blocking" (ready 0)
  obtain ⟨bounded', -, -, refused, -⟩ := ForeignType.decode_text .utf16 "text" "blocking" (ready 1)
  refine ⟨⟨bounded _ _ (.int 9) gives (by decide +kernel), unbounded _ gives fun text same => ?_⟩,
    bounded' _ _ (.int 4) gives' (by decide +kernel),
    refused (.int 5) 5 rfl (by decide +kernel) fun text same => ?_⟩
  · have decoded := Utf8.decode_eq_ok_iff.mpr same
    have none : (Utf8.decode (TextEncoding.utf8.encode "é€😀" ++ [0xC0, 0x80])).isOk = false := by
      decide +kernel
    rw [decoded] at none
    cases none
  · have decoded := Utf16.decode_eq_ok_iff.mpr same
    have none : (Utf16.decode (((View.source .blocking 1).course splitTexts).bytes.take 10)).isOk =
        false := by decide +kernel
    rw [show 5 * TextEncoding.utf16.width = 10 from rfl] at decoded
    rw [decoded] at none
    cases none

end Texts

end WireProgram
