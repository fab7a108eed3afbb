/-
**Text in the alphabet of sixty-four characters, cut into pieces.**

The codec of such text decodes the whole groups of four that it has and keeps the characters of an
unfinished one. Padding that completed a group in an earlier piece is forgotten, so it is not faithful
to the reading of the text at once: what follows padding may be taken, and padding in excess may be
refused. But wherever it comes to the end, it gave the bytes that the characters stand for. The main
definitions and statements:

* `Base64.plain`, the bytes that the characters of a text stand for, and `Base64.decode_plain`;
* `Base64.WellFormed`, a text in whole groups with padding at its end only;
* `Codec.readToEnd_base64`, any cut of any text: the bytes that it stands for, or a refusal;
* `Codec.readToEnd_wellFormed`, any cut of a well-formed text: the bytes of its reading at once.
-/

import WireProgram.Proofs.Stream.Decoded

namespace WireProgram

/-! ### What characters stand for -/

namespace Base64

variable {text first second digits out : Bytes} {place carry pads count : Nat}

/-- The bytes that characters complete, from a place in a group on. A character that is not in the
alphabet only takes a place. -/
def plainFrom : (place carry : Nat) → Bytes → Bytes
  | _, _, [] => []
  | place, carry, next :: rest =>
    match digit? next with
    | none => plainFrom ((place + 1) % 4) 0 rest
    | some digit =>
      (join place carry digit).1 ++ plainFrom ((place + 1) % 4) (join place carry digit).2 rest

/-- The bytes that the characters of a text stand for. -/
def plain (text : Bytes) : Bytes :=
  plainFrom 0 0 text

theorem digit?_padding : digit? padding = none := by decide

/-- Padding stands for nothing. -/
theorem plainFrom_padding (place carry : Nat) (pads : ∀ character ∈ text, character = padding) :
    plainFrom place carry text = [] := by
  induction text generalizing place carry with
  | nil => rfl
  | cons next rest hypothesis =>
    rw [plainFrom, pads next (List.mem_cons_self ..), digit?_padding]
    exact hypothesis _ _ fun character member => pads character (List.mem_cons_of_mem _ member)

/-- A text that is cut at the end of a group. -/
theorem plainFrom_append (second : Bytes) (aligned : (place + first.length) % 4 = 0)
    (inside : place < 4) :
    plainFrom place carry (first ++ second) = plainFrom place carry first ++ plain second := by
  induction first generalizing place carry with
  | nil =>
    obtain rfl : place = 0 := by
      rw [List.length_nil] at aligned
      omega
    -- at the start of a group nothing is carried
    cases second with
    | nil => rfl
    | cons next rest =>
      show plainFrom 0 carry (next :: rest) = plainFrom 0 0 (next :: rest)
      rw [plainFrom, plainFrom]
      cases digit? next <;> rfl
  | cons next rest hypothesis =>
    rw [List.length_cons] at aligned
    have later : ((place + 1) % 4 + rest.length) % 4 = 0 := by omega
    rw [List.cons_append, plainFrom, plainFrom]
    cases digit? next with
    | none => exact hypothesis later (Nat.mod_lt _ (by decide))
    | some digit =>
      dsimp only
      rw [hypothesis later (Nat.mod_lt _ (by decide)), List.append_assoc]

theorem plain_append (second : Bytes) (aligned : 4 ∣ first.length) :
    plain (first ++ second) = plain first ++ plain second :=
  plainFrom_append second (by omega) (by decide)

/-- After padding nothing but padding is taken, and it gives no bytes. -/
theorem read_padded {progress : Progress} (padded : progress.padded = true)
    (took : read progress text = .ok out) :
    out = [] ∧ ∀ character ∈ text, character = padding := by
  induction text generalizing progress with
  | nil =>
    refine ⟨?_, fun _ wrong => by cases wrong⟩
    unfold read at took
    split at took
    · exact (Except.ok.inj took).symm
    · split at took <;> cases took
  | cons next rest hypothesis =>
    rw [read] at took
    by_cases isPad : next = padding
    · rw [if_pos isPad] at took
      have all : out = [] ∧ ∀ character ∈ rest, character = padding := by
        split at took
        · split at took
          · split at took
            · rename_i last
              rw [List.isEmpty_iff.mp last]
              exact ⟨(Except.ok.inj took).symm, fun _ wrong => by cases wrong⟩
            · cases took
          · exact hypothesis rfl took
        · exact hypothesis rfl took
      exact ⟨all.1, List.forall_mem_cons.mpr ⟨isPad, all.2⟩⟩
    · rw [if_neg isPad] at took
      cases found : digit? next with
      | none =>
        rw [found] at took
        cases took
      | some digit =>
        simp only [found, padded, if_true] at took
        cases took

/-- A reading that ends gives the bytes that the characters stand for. -/
theorem read_plain {progress : Progress} (fresh : progress.padded = false)
    (took : read progress text = .ok out) :
    out = plainFrom progress.place progress.carry text := by
  induction text generalizing progress out with
  | nil =>
    unfold read at took
    split at took
    · exact (Except.ok.inj took).symm
    · split at took <;> cases took
  | cons next rest hypothesis =>
    rw [read] at took
    by_cases isPad : next = padding
    · rw [if_pos isPad] at took
      have all : out = [] ∧ ∀ character ∈ rest, character = padding := by
        split at took
        · split at took
          · split at took
            · rename_i last
              rw [List.isEmpty_iff.mp last]
              exact ⟨(Except.ok.inj took).symm, fun _ wrong => by cases wrong⟩
            · cases took
          · exact read_padded rfl took
        · exact read_padded rfl took
      rw [all.1, plainFrom_padding _ _ (List.forall_mem_cons.mpr ⟨isPad, all.2⟩)]
    · rw [if_neg isPad] at took
      rw [plainFrom]
      cases found : digit? next with
      | none =>
        rw [found] at took
        cases took
      | some digit =>
        simp only [found, fresh, Bool.false_eq_true, if_false] at took ⊢
        cases later : read ⟨(progress.place + 1) % 4, (join progress.place progress.carry digit).2,
            0, progress.count + 1, false⟩ rest with
        | error fault =>
          rw [later] at took
          cases took
        | ok others =>
          rw [later] at took
          rw [← hypothesis rfl later]
          exact (Except.ok.inj took).symm

/-- A text that is accepted as a whole gives the bytes that its characters stand for. -/
theorem decode_plain (took : decode text = .ok out) : out = plain text := by
  unfold decode at took
  split at took
  · cases took
  · exact read_plain rfl took

/-! ### Well-formed text -/

/-- A text in whole groups of four whose characters are in the alphabet, but for padding of at most
two characters at its end. -/
structure WellFormed (text : Bytes) : Prop where
  aligned : 4 ∣ text.length
  shape : ∃ digits pads, pads ≤ 2 ∧ text = digits ++ List.replicate pads padding ∧
    ∀ character ∈ digits, (digit? character).isSome

/-- Reading characters of the alphabet, and then the rest. -/
theorem read_digits (place carry pads count : Nat) (rest : Bytes)
    (all : ∀ character ∈ digits, (digit? character).isSome) :
    ∃ carry' count', read ⟨place, carry, pads, count, false⟩ (digits ++ rest) =
      if digits = [] then read ⟨place, carry, pads, count, false⟩ rest
      else (read ⟨(place + digits.length) % 4, carry', 0, count', false⟩ rest).map
        (plainFrom place carry digits ++ ·) := by
  induction digits generalizing place carry pads count with
  | nil => exact ⟨0, 0, rfl⟩
  | cons next others hypothesis =>
    obtain ⟨digit, found⟩ := Option.isSome_iff_exists.mp (all next (List.mem_cons_self ..))
    have isDigit : next ≠ padding := by
      rintro rfl
      rw [digit?_padding] at found
      cases found
    obtain ⟨carry', count', later⟩ := hypothesis ((place + 1) % 4)
      (join place carry digit).2 0 (count + 1) fun character member =>
        all character (List.mem_cons_of_mem _ member)
    rw [List.cons_append, read, if_neg isDigit, plainFrom]
    simp only [found, Bool.false_eq_true, if_false, reduceCtorEq]
    rw [later]
    by_cases last : others = []
    · refine ⟨(join place carry digit).2, count + 1, ?_⟩
      subst last
      rw [if_pos rfl, List.length_singleton, plainFrom, List.append_nil]
      cases read ⟨(place + 1) % 4, (join place carry digit).2, 0, count + 1, false⟩ rest <;> rfl
    · refine ⟨carry', count', ?_⟩
      have here : ((place + 1) % 4 + others.length) % 4 = (place + (next :: others).length) % 4 := by
        rw [List.length_cons]
        omega
      rw [if_neg last, here]
      cases read ⟨(place + (next :: others).length) % 4, carry', 0, count', false⟩ rest with
      | error fault => rfl
      | ok bytes => exact congrArg Except.ok (List.append_assoc _ _ _).symm

/-- **A well-formed text is accepted.** -/
theorem WellFormed.decode (wellFormed : WellFormed text) : decode text = .ok (plain text) := by
  obtain ⟨aligned, digits, pads, few, rfl, all⟩ := wellFormed
  rw [List.length_append, List.length_replicate] at aligned
  have accepts : ∃ bytes, Base64.decode (digits ++ List.replicate pads padding) = .ok bytes := by
    unfold Base64.decode
    cases digits with
    | nil =>
      obtain rfl : pads = 0 := by
        rw [List.length_nil] at aligned
        omega
      exact ⟨[], rfl⟩
    | cons first others =>
      have isDigit : ¬((first :: others) ++ List.replicate pads padding).head? = some padding := by
        intro same
        have found := all first (List.mem_cons_self ..)
        rw [show first = padding from Option.some.inj same, digit?_padding] at found
        cases found
      obtain ⟨carry', count', same⟩ := read_digits 0 0 0 0 (List.replicate pads padding) all
      rw [if_neg isDigit, same, if_neg (List.cons_ne_nil _ _)]
      obtain rfl | rfl | rfl : pads = 0 ∨ pads = 1 ∨ pads = 2 := by omega
      · have start : (0 + (first :: others).length) % 4 = 0 := by omega
        exact ⟨_, by rw [start]; rfl⟩
      · have fourth : (0 + (first :: others).length) % 4 = 3 := by omega
        exact ⟨_, by rw [fourth]; rfl⟩
      · have third : (0 + (first :: others).length) % 4 = 2 := by omega
        exact ⟨_, by rw [third]; rfl⟩
  obtain ⟨bytes, took⟩ := accepts
  rw [took, decode_plain took]

/-- Both parts of a well-formed text that is cut at the end of a group are well-formed. -/
theorem WellFormed.split (wellFormed : WellFormed (first ++ second)) (aligned : 4 ∣ first.length) :
    WellFormed first ∧ WellFormed second := by
  obtain ⟨whole, digits, pads, few, same, all⟩ := wellFormed
  rw [List.length_append] at whole
  have rest : 4 ∣ second.length := by omega
  rcases List.append_eq_append_iff.mp same with ⟨more, front, back⟩ | ⟨more, front, back⟩
  · -- the cut stands among the characters of the alphabet
    subst front
    refine ⟨⟨aligned, first, 0, by omega, (List.append_nil _).symm, fun character member =>
      all character (List.mem_append_left _ member)⟩, rest, more, pads, few, back,
      fun character member => all character (List.mem_append_right _ member)⟩
  · -- the cut stands in the padding, so nothing comes after it
    have total := congrArg List.length back
    rw [List.length_replicate, List.length_append] at total
    by_cases none : second = []
    · subst none
      rw [List.append_nil] at same back
      refine ⟨⟨aligned, digits, pads, few, same, all⟩, rest, [], 0, by omega, rfl,
        fun _ wrong => by cases wrong⟩
    · have some := List.length_pos_iff.mpr none
      have empty : more = [] := List.length_eq_zero_iff.mp (by omega)
      subst empty
      rw [List.append_nil] at front
      subst front
      refine ⟨⟨aligned, first, 0, by omega, (List.append_nil _).symm, all⟩, rest, [], pads, few,
        back.symm, fun _ wrong => by cases wrong⟩

/-! ### Whole groups -/

/-- The whole groups at the front of a text. -/
def groups (text : Bytes) : Bytes :=
  text.take (text.length - text.length % 4)

/-- The characters of the unfinished group at its end. -/
def unfinished (text : Bytes) : Bytes :=
  text.drop (text.length - text.length % 4)

theorem groups_append_unfinished (text : Bytes) : groups text ++ unfinished text = text :=
  List.take_append_drop _ _

theorem dvd_length_groups (text : Bytes) : 4 ∣ (groups text).length := by
  unfold groups
  rw [List.length_take]
  omega

theorem length_unfinished (text : Bytes) : (unfinished text).length = text.length % 4 := by
  unfold unfinished
  rw [List.length_drop]
  omega

/-- Whole groups in front stay as they are. -/
theorem groups_append (second : Bytes) (aligned : 4 ∣ first.length) :
    groups (first ++ second) = first ++ groups second ∧
      unfinished (first ++ second) = unfinished second := by
  have cut : (first ++ second).length - (first ++ second).length % 4 =
      first.length + (second.length - second.length % 4) := by
    rw [List.length_append]
    omega
  unfold groups unfinished
  rw [cut]
  exact ⟨List.take_length_add_append _, List.drop_length_add_append _⟩

/-- The bytes of a text are those of its whole groups and of what follows them. -/
theorem plain_groups (text more : Bytes) :
    plain (groups text) ++ plain (unfinished text ++ more) = plain (text ++ more) := by
  rw [← plain_append _ (dvd_length_groups text), ← List.append_assoc, groups_append_unfinished]

end Base64

/-! ### The codec on pieces -/

namespace Codec

open ChunkCodec

variable {streams : Streams Codec} {parent : View} {text pending : Bytes} {supply : Course}

/-- A text without its blanks. -/
def solid (text : Bytes) : Bytes :=
  text.filter fun byte => !isBlankByte byte

theorem solid_append (first second : Bytes) : solid (first ++ second) = solid first ++ solid second :=
  List.filter_append _ _

theorem feed_base64 (pending given : Bytes) :
    ChunkCodec.feed (Codec.base64 pending) given =
      ((decodeText (Base64.groups (pending ++ solid given))).map fun bytes =>
        (bytes, (given.length : Int)), .base64 (Base64.unfinished (pending ++ solid given))) := rfl

theorem decodeText_eq_ok {out : Bytes} :
    decodeText text = .ok out ↔ Base64.decode text = .ok out := by
  unfold decodeText
  cases Base64.decode text with
  | ok bytes => exact ⟨fun same => congrArg Except.ok (Except.ok.inj same),
      fun same => congrArg Except.ok (Except.ok.inj same)⟩
  | error fault => exact ⟨fun wrong => (by cases wrong), fun wrong => (by cases wrong)⟩

/-- A text is decoded to the bytes it stands for, or it is refused. -/
theorem decodeText_ends (text : Bytes) :
    Ends (decodeText text) (fun out => out = Base64.plain text)
      fun fault => ∃ why, fault = .decode (.malformedBase64 why) := by
  cases decoded : Base64.decode text with
  | ok out =>
    rw [decodeText_eq_ok.mpr decoded]
    exact Base64.decode_plain decoded
  | error why =>
    unfold decodeText
    rw [decoded]
    exact ⟨why, rfl⟩

/-- At the end of a text the characters of an unfinished group are decoded alone. -/
theorem finish_base64 (pending : Bytes) :
    Ends (ChunkCodec.finish (Codec.base64 pending)).1 (fun out => out = Base64.plain pending)
      fun fault => ∃ why, fault = .decode (.malformedBase64 why) := by
  show Ends (if pending.isEmpty then Except.ok [] else decodeText pending) _ _
  by_cases empty : pending.isEmpty = true
  · rw [if_pos empty, List.isEmpty_iff.mp empty]
    rfl
  · rw [if_neg empty]
    exact decodeText_ends pending

/-- The codec uses all text. -/
theorem base64_greedy (pending : Bytes) : Greedy (Codec.base64 pending) := by
  intro state comes
  obtain ⟨held, rfl⟩ : ∃ held, state = Codec.base64 held := by
    induction comes with
    | refl => exact ⟨pending, rfl⟩
    | tail _ goes hypothesis =>
      obtain ⟨held, rfl⟩ := hypothesis
      obtain ⟨given, out, used, -, gave, -⟩ := goes
      rw [feed_base64] at gave
      exact ⟨_, (congrArg Prod.snd gave).symm⟩
  intro given out used next _ gave
  rw [feed_base64] at gave
  cases decoded : decodeText (Base64.groups (held ++ solid given)) with
  | error fault =>
    rw [decoded] at gave
    cases gave
  | ok bytes =>
    rw [decoded] at gave
    cases gave
    exact ⟨⟨Int.natCast_nonneg _, Int.le_refl _⟩, fun _ => rfl⟩

/-- What comes out of the codec, however the text comes: the bytes that the text stands for, or a
refusal of some of it. -/
theorem through_base64 (pending : Bytes) (sound : supply.fault = none) :
    Ends (supply.through (Codec.base64 pending)).whole
      (fun out => out = Base64.plain (pending ++ solid supply.bytes))
      fun fault => ∃ why, fault = .decode (.malformedBase64 why) := by
  induction supply generalizing pending with
  | failed fault => cases sound
  | ended =>
    have ends := finish_base64 pending
    unfold Course.through
    rw [show Course.ended.bytes = [] from rfl, show solid [] = [] from rfl, List.append_nil]
    cases last : (ChunkCodec.finish (Codec.base64 pending)).1 with
    | error fault =>
      rw [last] at ends
      exact ends
    | ok out =>
      rw [last] at ends
      unfold Course.whole
      dsimp only
      rw [Course.fault_push, Course.bytes_push, Course.bytes, List.append_nil]
      exact ends
  | piece first others later hypothesis =>
    have ends := decodeText_ends (Base64.groups (pending ++ solid (first :: others)))
    rw [Course.through, feed_base64]
    cases decoded : decodeText (Base64.groups (pending ++ solid (first :: others))) with
    | error fault =>
      rw [decoded] at ends
      exact ends
    | ok out =>
      rw [decoded] at ends
      have rest := hypothesis (Base64.unfinished (pending ++ solid (first :: others))) sound
      have all : out ++ Base64.plain
          (Base64.unfinished (pending ++ solid (first :: others)) ++ solid later.bytes) =
            Base64.plain (pending ++ solid (Course.piece first others later).bytes) := by
        rw [show out = _ from ends, Base64.plain_groups, Course.bytes, solid_append,
          List.append_assoc]
      show Ends (Course.push out (later.through _)).whole _ _
      unfold Course.whole at rest ⊢
      rw [Course.fault_push, Course.bytes_push]
      cases fault : (later.through
          (Codec.base64 (Base64.unfinished (pending ++ solid (first :: others))))).fault with
      | some why =>
        rw [fault] at rest
        exact rest
      | none =>
        rw [fault] at rest
        show _ ++ _ = _
        rw [show Course.bytes _ = _ from rest, all]

/-- **Any text, any cut.** A view that decodes text, over a parent that gives the text in any pieces,
gives the bytes that the characters of the text stand for, or it refuses the text. So two cuts of
one text that are both accepted give the same. -/
theorem readToEnd_base64 (ready : parent.Ready streams)
    (fresh : streams.transforms.size ∉ parent.stages)
    (gives : (parent.readToEnd.run streams).1 = .ok text) :
    let opened := streams.openTransformed parent (.base64 [])
    Ends (opened.1.readToEnd.run opened.2).1 (fun out => out = Base64.plain (solid text))
      fun fault => ∃ why, fault = .decode (.malformedBase64 why) := by
  obtain ⟨bytes, sound⟩ := View.course_of_gives ready gives
  obtain ⟨readyOpened, course, -⟩ := View.openTransformed_decoded ready fresh (base64_greedy [])
  obtain ⟨after, ran, -⟩ := View.readToEnd_course readyOpened
  dsimp only
  rw [ran, course, ← bytes]
  exact through_base64 [] sound

/-- Padding in the middle of a text: after a piece that ends with it the text goes on, in one piece with
it the text is refused. -/
theorem readToEnd_base64_of_padding :
    let text : Bytes := [81, 81, 61, 61, 81, 85, 74, 68]
    let read (size : Int) :=
      let root := ({} : Streams Codec).openSource .blocking (Input.ofBytes size text)
      let opened := root.2.openTransformed root.1 (.base64 [])
      (opened.1.readToEnd.run opened.2).1
    (read 4).toOption = some [65, 65, 66, 67] ∧ (read 8).toOption = none := by
  decide +kernel

/-- What comes out of the codec is decoded without a refusal if the text is well-formed. -/
theorem through_wellFormed (pending : Bytes) (sound : supply.fault = none) (short : pending.length < 4)
    (wellFormed : Base64.WellFormed (pending ++ solid supply.bytes)) :
    (supply.through (Codec.base64 pending)).fault = none := by
  induction supply generalizing pending with
  | failed fault => cases sound
  | ended =>
    have aligned := wellFormed.aligned
    rw [show Course.ended.bytes = [] from rfl, show solid [] = [] from rfl, List.append_nil] at aligned
    have none : pending = [] := List.length_eq_zero_iff.mp (by omega)
    subst none
    rfl
  | piece first others later hypothesis =>
    rw [Course.bytes, solid_append, ← List.append_assoc,
      ← Base64.groups_append_unfinished (pending ++ solid (first :: others)), List.append_assoc]
      at wellFormed
    obtain ⟨front, back⟩ := wellFormed.split (Base64.dvd_length_groups _)
    rw [Course.through, feed_base64, decodeText_eq_ok.mpr front.decode]
    show (Course.push _ (later.through _)).fault = none
    rw [Course.fault_push]
    refine hypothesis _ sound ?_ back
    rw [Base64.length_unfinished]
    omega

/-- **Well-formed text, any cut.** It is decoded to what reading it at once gives. -/
theorem readToEnd_wellFormed (ready : parent.Ready streams)
    (fresh : streams.transforms.size ∉ parent.stages)
    (gives : (parent.readToEnd.run streams).1 = .ok text)
    (wellFormed : Base64.WellFormed (solid text)) :
    let opened := streams.openTransformed parent (.base64 [])
    (opened.1.readToEnd.run opened.2).1 = decodeText (solid text) := by
  obtain ⟨bytes, sound⟩ := View.course_of_gives ready gives
  obtain ⟨readyOpened, course, -⟩ := View.openTransformed_decoded ready fresh (base64_greedy [])
  obtain ⟨after, ran, -⟩ := View.readToEnd_course readyOpened
  have ends := through_base64 [] sound
  rw [bytes, List.nil_append] at ends
  have accepted := through_wellFormed [] sound (by decide) (by rw [bytes]; exact wellFormed)
  dsimp only
  rw [ran, course, decodeText_eq_ok.mpr wellFormed.decode]
  unfold Course.whole at ends ⊢
  rw [accepted] at ends ⊢
  exact congrArg Except.ok ends

end Codec

end WireProgram
