/-
**Documents as text, and back.**

What the reader takes from a text holds every key of an object once, and no whole number with more
digits than the reader takes. Such a document is read from its own text, whatever the layout, if it
holds no fraction and no half of a pair. The main definitions and statements:

* `Json.Readable` and `Json.Plain`, the documents that are read and those that are read as written;
* `Json.parse_readable`, what the reader gives;
* `Json.parse_render`, **a document is read as it was written**.
-/

import WireProgram.Proofs.Document.Order
import WireProgram.Proofs.Document.Text
import WireProgram.Proofs.Outcome

namespace WireProgram.Json

/-! ### Documents that are read -/

mutual

/-- A document whose whole numbers have no more digits than the reader takes, and in which every key
of an object stands once. -/
def Readable : Json → Prop
  | .int value => value.natAbs < 10 ^ digitLimit
  | .array items => itemsReadable items
  | .object entries => (entries.map Prod.fst).Nodup ∧ entriesReadable entries
  | _ => True

/-- Readable items. -/
def itemsReadable : List Json → Prop
  | [] => True
  | item :: rest => item.Readable ∧ itemsReadable rest

/-- Entries with readable values. -/
def entriesReadable : List (String × Json) → Prop
  | [] => True
  | (_, value) :: rest => value.Readable ∧ entriesReadable rest

end

mutual

/-- A document without fractions, whose strings keep no half of a pair. -/
def Plain : Json → Prop
  | .float _ => False
  | .string text => Text.Plain text
  | .array items => itemsPlain items
  | .object entries => entriesPlain entries
  | _ => True

/-- Plain items. -/
def itemsPlain : List Json → Prop
  | [] => True
  | item :: rest => item.Plain ∧ itemsPlain rest

/-- Entries with plain keys and values. -/
def entriesPlain : List (String × Json) → Prop
  | [] => True
  | (key, value) :: rest => Text.Plain key ∧ value.Plain ∧ entriesPlain rest

end

theorem itemsReadable_iff {items : List Json} :
    itemsReadable items ↔ ∀ item ∈ items, item.Readable := by
  induction items with
  | nil => exact ⟨fun _ => nofun, fun _ => trivial⟩
  | cons item rest hypothesis => rw [itemsReadable, hypothesis, List.forall_mem_cons]

theorem entriesReadable_iff {entries : List (String × Json)} :
    entriesReadable entries ↔ ∀ entry ∈ entries, entry.2.Readable := by
  induction entries with
  | nil => exact ⟨fun _ => nofun, fun _ => trivial⟩
  | cons entry rest hypothesis => rw [entriesReadable, hypothesis, List.forall_mem_cons]

theorem itemsPlain_iff {items : List Json} : itemsPlain items ↔ ∀ item ∈ items, item.Plain := by
  induction items with
  | nil => exact ⟨fun _ => nofun, fun _ => trivial⟩
  | cons item rest hypothesis => rw [itemsPlain, hypothesis, List.forall_mem_cons]

theorem entriesPlain_iff {entries : List (String × Json)} :
    entriesPlain entries ↔ ∀ entry ∈ entries, Text.Plain entry.1 ∧ entry.2.Plain := by
  induction entries with
  | nil => exact ⟨fun _ => nofun, fun _ => trivial⟩
  | cons entry rest hypothesis =>
    rw [entriesPlain, hypothesis, List.forall_mem_cons, and_assoc]

mutual

/-- Whether a document is plain. -/
def decidePlain : ∀ document : Json, Decidable document.Plain
  | .float _ => isFalse id
  | .string text => Text.decidePlain text
  | .array items => decideItemsPlain items
  | .object entries => decideEntriesPlain entries
  | .null | .bool _ | .int _ => isTrue trivial

/-- Whether items are plain. -/
def decideItemsPlain : ∀ items : List Json, Decidable (itemsPlain items)
  | [] => isTrue trivial
  | item :: rest => @instDecidableAnd _ _ (decidePlain item) (decideItemsPlain rest)

/-- Whether entries are plain. -/
def decideEntriesPlain : ∀ entries : List (String × Json), Decidable (entriesPlain entries)
  | [] => isTrue trivial
  | (key, value) :: rest =>
    @instDecidableAnd _ _ (Text.decidePlain key)
      (@instDecidableAnd _ _ (decidePlain value) (decideEntriesPlain rest))

end

instance : DecidablePred Plain :=
  decidePlain

/-! ### What the reader gives -/

theorem digitsValue_lt {digits : List Char} (all : ∀ c ∈ digits, isDigit c = true) :
    digitsValue digits < 10 ^ digits.length := by
  have general : ∀ start bound, start < bound →
      digits.foldl (fun total c => total * 10 + (c.toNat - 48)) start <
        bound * 10 ^ digits.length := by
    induction digits with
    | nil => exact fun start bound less => by simpa using less
    | cons c rest hypothesis =>
      obtain ⟨here, others⟩ := List.forall_mem_cons.mp all
      intro start bound less
      have digit : c.toNat - 48 < 10 := by
        have upper : c ≤ '9' := (of_decide_eq_true here).2
        have : c.toNat ≤ 57 := upper
        omega
      have next := hypothesis others (start * 10 + (c.toNat - 48)) (bound * 10) (by omega)
      rw [List.length_cons, Nat.pow_succ', ← Nat.mul_assoc]
      exact next
  have whole := general 0 1 Nat.one_pos
  rwa [Nat.one_mul] at whole

theorem readWhole_digits_all {text digits rest : List Char}
    (read : readWhole text = .ok (digits, rest)) : ∀ c ∈ digits, isDigit c = true := by
  unfold readWhole at read
  split at read
  · cases read
    intro c member
    rw [List.mem_singleton.mp member]
    rfl
  · split at read
    · cases read
    · rename_i spanned
      cases read
      have front : digits = text.takeWhile isDigit := (congrArg Prod.fst spanned).symm
      rw [front]
      exact List.all_eq_true.mp List.all_takeWhile

/-- What a reader gives is readable. -/
def Gives (read : Except JsonError (Json × List Char)) : Prop :=
  ∀ document rest, read = .ok (document, rest) → document.Readable

theorem readUnsigned_readable (negative : Bool) (text : List Char) :
    Gives (readUnsigned negative text) := by
  intro document rest read
  unfold readUnsigned at read
  cases whole : readWhole text with
  | error fault =>
    rw [whole] at read
    cases read
  | ok pair =>
    obtain ⟨digits, after⟩ := pair
    rw [whole] at read
    simp only [bind, Except.bind] at read
    split at read
    · split at read
      · cases read
      · rename_i short
        cases read
        have less := digitsValue_lt (readWhole_digits_all whole)
        have bound : 10 ^ digits.length ≤ 10 ^ digitLimit :=
          Nat.pow_le_pow_right (by decide) (Nat.le_of_not_lt short)
        show Int.natAbs (if negative then -(digitsValue digits : Int) else digitsValue digits) < _
        split
        · rw [Int.natAbs_neg]
          exact Nat.lt_of_lt_of_le less bound
        · exact Nat.lt_of_lt_of_le less bound
    · cases read
      trivial

theorem readNumber_readable (text : List Char) : Gives (readNumber text) := by
  unfold readNumber
  split
  · rintro document rest ⟨⟩
    trivial
  · exact readUnsigned_readable true _
  · exact readUnsigned_readable false _

mutual

/-- **Every value that is read** is readable. -/
theorem readValue_readable : ∀ (fuel : Nat) (text : List Char), Gives (readValue fuel text)
  | 0, _ => nofun
  | fuel + 1, text => by
    intro document rest read
    unfold readValue at read
    split at read
    · obtain ⟨pair, -, read⟩ := bind_eq_ok read
      cases read
      trivial
    · split at read
      · cases read
        trivial
      · obtain ⟨pair, items, read⟩ := bind_eq_ok read
        cases read
        exact itemsReadable_iff.mpr (readItems_readable fuel _ _ _ items)
    · split at read
      · cases read
        exact ⟨List.nodup_nil, trivial⟩
      · obtain ⟨pair, entries, read⟩ := bind_eq_ok read
        cases read
        refine ⟨nodup_tableOf _, entriesReadable_iff.mpr fun entry member => ?_⟩
        exact readEntries_readable fuel _ _ _ entries entry (mem_tableOf member)
    · cases read
      trivial
    · cases read
      trivial
    · cases read
      trivial
    · cases read
      trivial
    · cases read
      trivial
    · exact readNumber_readable _ document rest read

theorem readItems_readable : ∀ (fuel : Nat) (text : List Char) (items : List Json)
    (rest : List Char), readItems fuel text = .ok (items, rest) → ∀ item ∈ items, item.Readable
  | 0, _, _, _ => nofun
  | fuel + 1, text, items, rest => by
    intro read
    unfold readItems at read
    obtain ⟨⟨first, after⟩, one, read⟩ := bind_eq_ok read
    have here := readValue_readable fuel text first after one
    dsimp only at read
    split at read
    · cases read
      exact List.forall_mem_singleton.mpr here
    · obtain ⟨⟨others, final⟩, more, read⟩ := bind_eq_ok read
      cases read
      exact List.forall_mem_cons.mpr ⟨here, readItems_readable fuel _ _ _ more⟩
    · cases read

theorem readEntries_readable : ∀ (fuel : Nat) (text : List Char) (entries : List (String × Json))
    (rest : List Char), readEntries fuel text = .ok (entries, rest) →
      ∀ entry ∈ entries, entry.2.Readable
  | 0, _, _, _ => nofun
  | fuel + 1, text, entries, rest => by
    intro read
    unfold readEntries at read
    obtain ⟨⟨key, afterKey⟩, -, read⟩ := bind_eq_ok read
    dsimp only at read
    split at read
    · obtain ⟨⟨value, after⟩, one, read⟩ := bind_eq_ok read
      have here := readValue_readable fuel _ value after one
      dsimp only at read
      split at read
      · cases read
        exact List.forall_mem_singleton.mpr here
      · obtain ⟨⟨others, final⟩, more, read⟩ := bind_eq_ok read
        cases read
        exact List.forall_mem_cons.mpr ⟨here, readEntries_readable fuel _ _ _ more⟩
      · cases read
    · cases read

end

/-- **What a text holds is readable.** -/
theorem parse_readable {text : String} {document : Json} (read : parse text = .ok document) :
    document.Readable := by
  unfold parse at read
  obtain ⟨⟨found, rest⟩, one, read⟩ := bind_eq_ok read
  dsimp only at read
  split at read
  · cases read
    exact readValue_readable _ _ _ _ one
  · cases read

/-! ### Layout -/

/-- Characters that the reader skips. -/
def Blank (text : List Char) : Prop :=
  ∀ c ∈ text, isSpace c = true

theorem skipSpace_blank {blank : List Char} (skipped : Blank blank) (text : List Char) :
    skipSpace (blank ++ text) = skipSpace text := by
  unfold skipSpace
  exact List.dropWhile_append_of_pos skipped

theorem skipSpace_cons {c : Char} (solid : isSpace c = false) (text : List Char) :
    skipSpace (c :: text) = c :: text := by
  unfold skipSpace
  rw [List.dropWhile_cons, solid]
  rfl

theorem blank_space : Blank [' '] := by
  intro c member
  rw [List.mem_singleton.mp member]
  rfl

theorem blank_opening (indent : Indent) (level : Nat) : Blank (indent.opening level).toList := by
  unfold Indent.opening
  split
  · nofun
  · intro c member
    rw [String.toList_append, String.toList_ofList, String.toList_ofList] at member
    rcases List.mem_append.mp member with member | member
    · rw [List.mem_singleton.mp member]
      rfl
    · rw [(List.mem_replicate.mp member).2]
      rfl

/-- What stands between two items is a comma and space. -/
theorem toList_between (indent : Indent) (level : Nat) :
    ∃ blank, (indent.between level).toList = ',' :: blank ∧ Blank blank := by
  unfold Indent.between
  split
  · exact ⟨[' '], rfl, blank_space⟩
  · exact ⟨_, String.toList_append, blank_opening _ level⟩

/-- A part of a document may stand before the end of a line. -/
theorem closes_opening (indent : Indent) (level : Nat) {rest : List Char} (closes : Closes rest) :
    Closes ((indent.opening level).toList ++ rest) := by
  unfold Indent.opening
  split
  · exact closes
  · rw [String.toList_append]
    exact closes_cons (.inr (.inl rfl))

/-- The first character of a document is no space, and it closes nothing. -/
def Opens (text : List Char) : Prop :=
  ∃ c more, text = c :: more ∧ isSpace c = false ∧ c ≠ ']' ∧ c ≠ '\x7d'

theorem opens_cons {c : Char} (more : List Char)
    (solid : isSpace c = false ∧ c ≠ ']' ∧ c ≠ '\x7d') : Opens (c :: more) :=
  ⟨c, more, rfl, solid⟩

theorem Opens.append {text : List Char} (opens : Opens text) (rest : List Char) :
    Opens (text ++ rest) := by
  obtain ⟨c, more, rfl, solid⟩ := opens
  exact ⟨c, more ++ rest, rfl, solid⟩

theorem Opens.skipSpace {text : List Char} (opens : Opens text) :
    Json.skipSpace text = text := by
  obtain ⟨c, more, rfl, solid, -⟩ := opens
  exact skipSpace_cons solid more

theorem opens_digits (size : Nat) : Opens (Nat.toDigits 10 size) := by
  cases front : Nat.toDigits 10 size with
  | nil => exact absurd front Nat.toDigits_ne_nil
  | cons c more =>
    have member : c ∈ Nat.toDigits 10 size := front ▸ List.mem_cons_self ..
    have digit := isDigit_of_mem member
    refine opens_cons more ⟨?_, ?_, ?_⟩
    · unfold isSpace
      refine decide_eq_false ?_
      rintro (rfl | rfl | rfl | rfl) <;> exact absurd digit (by decide)
    · rintro rfl
      exact absurd digit (by decide)
    · rintro rfl
      exact absurd digit (by decide)

theorem toList_int (value : Int) : (toString value).toList =
    if 0 ≤ value then Nat.toDigits 10 value.natAbs else '-' :: Nat.toDigits 10 value.natAbs := by
  rw [Int.toString_eq_repr, Int.repr_eq_if]
  split
  · rename_i positive
    rw [Nat.repr_eq_ofList_toDigits, String.toList_ofList,
      show value.toNat = value.natAbs by omega]
  · rename_i negative
    rw [String.toList_append, Nat.repr_eq_ofList_toDigits, String.toList_ofList,
      String.toList_ofList, show (-value).toNat = value.natAbs by omega]
    rfl

theorem opens_literal {c : Char} (more : List Char)
    (solid : isSpace c = false ∧ c ≠ ']' ∧ c ≠ '\x7d') :
    Opens (String.ofList (c :: more)).toList := by
  rw [String.toList_ofList]
  exact opens_cons more solid

theorem opens_string (text : String) : Opens (renderString text).toList := by
  unfold renderString
  exact opens_literal _ (by decide)

theorem opens_render (indent : Indent) (level : Nat) {document : Json} (plain : document.Plain) :
    Opens (renderAt indent level document).toList := by
  cases document with
  | null => exact opens_literal (c := 'n') ['u', 'l', 'l'] (by decide)
  | bool value =>
    cases value with
    | false => exact opens_literal (c := 'f') ['a', 'l', 's', 'e'] (by decide)
    | true => exact opens_literal (c := 't') ['r', 'u', 'e'] (by decide)
  | int value =>
    rw [renderAt, toList_int]
    split
    · exact opens_digits _
    · exact opens_cons (c := '-') _ (by decide)
  | float value => exact plain.elim
  | string text => exact opens_string text
  | array items =>
    cases items with
    | nil => exact opens_literal (c := '[') [']'] (by decide)
    | cons item rest =>
      simp only [renderAt, String.toList_append, List.append_assoc]
      exact (opens_literal (c := '[') [] (by decide)).append _
  | object entries =>
    cases entries with
    | nil => exact opens_literal (c := '\x7b') ['\x7d'] (by decide)
    | cons entry rest =>
      simp only [renderAt, String.toList_append, List.append_assoc]
      exact (opens_literal (c := '\x7b') [] (by decide)).append _

/-! ### Numbers -/

theorem eq_of_isDigit {c : Char} (digit : isDigit c = true) :
    c ∈ ['0', '1', '2', '3', '4', '5', '6', '7', '8', '9'] := by
  obtain ⟨lower, upper⟩ := of_decide_eq_true digit
  have lower : 48 ≤ c.toNat := lower
  have upper : c.toNat ≤ 57 := upper
  have all : ∀ value < 10, Char.ofNat (48 + value) ∈
      ['0', '1', '2', '3', '4', '5', '6', '7', '8', '9'] := by decide
  have here := all (c.toNat - 48) (by omega)
  rwa [show 48 + (c.toNat - 48) = c.toNat by omega, Char.ofNat_toNat] at here

/-- A value that starts with a digit is a number. -/
theorem readValue_digit {c : Char} (digit : isDigit c = true) (more : List Char) (fuel : Nat) :
    readValue (fuel + 1) (c :: more) = readUnsigned false (c :: more) ∧
      readValue (fuel + 1) ('-' :: c :: more) = readUnsigned true (c :: more) := by
  have cases := eq_of_isDigit digit
  simp only [List.mem_cons, List.not_mem_nil, or_false] at cases
  rcases cases with rfl | rfl | rfl | rfl | rfl | rfl | rfl | rfl | rfl | rfl <;> exact ⟨rfl, rfl⟩

/-- **A whole number is read as it was written.** -/
theorem readValue_int {value : Int} (small : value.natAbs < 10 ^ digitLimit) (fuel : Nat)
    {rest : List Char} (closes : Closes rest) :
    readValue (fuel + 1) ((toString value).toList ++ rest) = .ok (.int value, rest) := by
  rw [toList_int]
  cases front : Nat.toDigits 10 value.natAbs with
  | nil => exact absurd front Nat.toDigits_ne_nil
  | cons c more =>
    have member : c ∈ Nat.toDigits 10 value.natAbs := front ▸ List.mem_cons_self ..
    have digit := isDigit_of_mem member
    obtain ⟨plain, signed⟩ := readValue_digit digit (more ++ rest) fuel
    split
    · rw [List.cons_append, plain, ← List.cons_append, ← front,
        readUnsigned_digits false small closes]
      rw [if_neg Bool.false_ne_true, show (value.natAbs : Int) = value by omega]
    · rw [List.cons_append, List.cons_append, signed, ← List.cons_append, ← front,
        readUnsigned_digits true small closes]
      rw [if_pos rfl, show -(value.natAbs : Int) = value by omega]

/-! ### Documents -/

theorem toList_string (text : String) : ∃ more, (renderString text).toList = '"' :: more := by
  unfold renderString
  rw [String.toList_ofList]
  exact ⟨_, rfl⟩

theorem opens_items (indent : Indent) (level : Nat) {item : Json} (rest : List Json)
    (plain : item.Plain) : Opens (renderItems indent level (item :: rest)).toList := by
  cases rest with
  | nil => exact opens_render indent level plain
  | cons next rest =>
    simp only [renderItems, String.toList_append, List.append_assoc]
    exact (opens_render indent level plain).append _

theorem opens_entries (indent : Indent) (level : Nat) (entry : String × Json)
    (rest : List (String × Json)) :
    Opens (renderEntries indent level (entry :: rest)).toList := by
  cases rest with
  | nil =>
    simp only [renderEntries, String.toList_append, List.append_assoc]
    exact (opens_string entry.1).append _
  | cons next rest =>
    simp only [renderEntries, String.toList_append, List.append_assoc]
    exact (opens_string entry.1).append _

/-- An array with items is read by its items. -/
theorem readValue_array {blank text : List Char} (skipped : Blank blank) (opens : Opens text)
    (fuel : Nat) : readValue (fuel + 1) ('[' :: (blank ++ text)) =
      readItems fuel text >>= fun read => .ok (.array read.1, read.2) := by
  rw [readValue, skipSpace_blank skipped, opens.skipSpace]
  obtain ⟨c, more, rfl, -, apart, -⟩ := opens
  split
  · rename_i same
    exact absurd (List.cons.inj same).1 apart
  · rfl

/-- An object with entries is read by its entries. -/
theorem readValue_object {blank text : List Char} (skipped : Blank blank) (opens : Opens text)
    (fuel : Nat) : readValue (fuel + 1) ('\x7b' :: (blank ++ text)) =
      readEntries fuel text >>= fun read => .ok (.object (tableOf read.1), read.2) := by
  rw [readValue, skipSpace_blank skipped, opens.skipSpace]
  obtain ⟨c, more, rfl, -, -, apart⟩ := opens
  split
  · rename_i same
    exact absurd (List.cons.inj same).1 apart
  · rfl

theorem toList_colon : ": ".toList = [':', ' '] := String.toList_ofList

/-- An entry is read by its key and its value; what comes after it ends the object or goes on. -/
theorem readEntries_step {key : String} {value : Json} {text after : List Char} {fuel : Nat}
    (plain : Text.Plain key) (opens : Opens text)
    (read : readValue fuel (text ++ after) = .ok (value, after)) :
    readEntries (fuel + 1) ((renderString key).toList ++ ':' :: ' ' :: (text ++ after)) =
      match skipSpace after with
      | '\x7d' :: rest => .ok ([(key, value)], rest)
      | ',' :: rest => readEntries fuel (skipSpace rest) >>= fun others =>
          .ok ((key, value) :: others.1, others.2)
      | _ => .error .malformed := by
  refine (bind_of_ok (readString_render plain _)).trans ?_
  dsimp only
  rw [skipSpace_cons (c := ':') rfl]
  show (readValue fuel (skipSpace ([' '] ++ (text ++ after))) >>= _) = _
  rw [skipSpace_blank blank_space, (opens.append after).skipSpace, bind_of_ok read]
  rfl

mutual

/-- **A document is read as it was written,** wherever it ends. The fuel is the length of its
text. -/
theorem readValue_render (indent : Indent) : ∀ document : Json, document.Readable →
    document.Plain → ∀ level fuel rest, Closes rest →
      (renderAt indent level document).toList.length ≤ fuel →
        readValue fuel ((renderAt indent level document).toList ++ rest) = .ok (document, rest)
  | document, _, plain, level, 0, rest, _, enough => by
    obtain ⟨c, more, same, -⟩ := opens_render indent level plain
    rw [same] at enough
    exact absurd enough (Nat.not_succ_le_zero _)
  | .null, _, _, level, fuel + 1, rest, _, _ => by
    rw [renderAt, String.toList_ofList]
    rfl
  | .bool true, _, _, level, fuel + 1, rest, _, _ => by
    rw [renderAt, if_pos rfl, String.toList_ofList]
    rfl
  | .bool false, _, _, level, fuel + 1, rest, _, _ => by
    rw [renderAt, if_neg Bool.false_ne_true, String.toList_ofList]
    rfl
  | .int value, small, _, level, fuel + 1, rest, closes, _ => readValue_int small fuel closes
  | .float _, _, plain, _, _, _, _, _ => plain.elim
  | .string text, _, plain, level, fuel + 1, rest, _, _ => by
    obtain ⟨more, same⟩ := toList_string text
    have read := readString_render plain rest
    rw [same] at read
    rw [renderAt, same]
    exact bind_of_ok read
  | .array [], _, _, level, fuel + 1, rest, _, _ => by
    rw [renderAt, String.toList_ofList]
    rfl
  | .array (item :: others), readable, plain, level, fuel + 1, rest, _, enough => by
    simp only [renderAt, String.toList_append, List.append_assoc, List.length_append] at enough ⊢
    rw [String.toList_ofList, String.toList_ofList] at enough ⊢
    rw [List.singleton_append, List.singleton_append, readValue_array (blank_opening _ _)
      ((opens_items indent (level + 1) others plain.1).append _)]
    refine bind_of_ok (readItems_render indent (item :: others) fuel (List.cons_ne_nil _ _)
      readable plain (level + 1) level rest ?_)
    simp only [List.length_singleton] at enough
    omega
  | .object [], _, _, level, fuel + 1, rest, _, _ => by
    rw [renderAt, String.toList_ofList]
    rfl
  | .object ((key, value) :: others), readable, plain, level, fuel + 1, rest, _, enough => by
    simp only [renderAt, String.toList_append, List.append_assoc, List.length_append] at enough ⊢
    rw [String.toList_ofList, String.toList_ofList] at enough ⊢
    rw [List.singleton_append, List.singleton_append, readValue_object (blank_opening _ _)
      ((opens_entries indent (level + 1) (key, value) others).append _)]
    have read := readEntries_render indent ((key, value) :: others) fuel
      (List.cons_ne_nil _ _) readable.2 plain (level + 1) level rest (by
        simp only [List.length_singleton] at enough
        omega)
    rw [bind_of_ok read, tableOf_of_nodup readable.1]

/-- The items of an array are read as they were written. -/
theorem readItems_render (indent : Indent) : ∀ (items : List Json) (fuel : Nat), items ≠ [] →
    itemsReadable items → itemsPlain items → ∀ level outer rest,
      (renderItems indent level items).toList.length + 1 ≤ fuel →
        readItems fuel ((renderItems indent level items).toList ++
          ((indent.opening outer).toList ++ ']' :: rest)) = .ok (items, rest)
  | [], _ => fun filled => absurd rfl filled
  | _ :: _, 0 => fun _ _ _ _ _ _ enough => absurd enough (Nat.not_succ_le_zero _)
  | [item], fuel + 1 => by
    intro _ readable plain level outer rest enough
    have ends : Closes (']' :: rest) := closes_cons (.inr (.inr (.inl rfl)))
    have closes := closes_opening indent outer ends
    have one := readValue_render indent item readable.1 plain.1 level fuel _ closes
      (Nat.le_of_succ_le_succ enough)
    rw [renderItems]
    refine (bind_of_ok one).trans ?_
    dsimp only
    rw [skipSpace_blank (blank_opening indent outer), skipSpace_cons (c := ']') rfl]
    rfl
  | item :: next :: others, fuel + 1 => by
    intro _ readable plain level outer rest enough
    obtain ⟨blank, comma, skipped⟩ := toList_between indent level
    simp only [renderItems, String.toList_append, comma, List.append_assoc,
      List.cons_append, List.length_append, List.length_cons] at enough ⊢
    have one := readValue_render indent item readable.1 plain.1 level fuel
      (',' :: (blank ++ ((renderItems indent level (next :: others)).toList ++
        ((indent.opening outer).toList ++ ']' :: rest)))) (closes_cons (.inl rfl)) (by omega)
    have more := readItems_render indent (next :: others) fuel (List.cons_ne_nil _ _) readable.2
      plain.2 level outer rest (by omega)
    refine (bind_of_ok one).trans ?_
    dsimp only
    rw [skipSpace_cons (c := ',') rfl]
    show (readItems fuel (skipSpace (blank ++ _)) >>= _) = _
    rw [skipSpace_blank skipped, ((opens_items indent level others plain.2.1).append _).skipSpace]
    exact bind_of_ok more

/-- The entries of an object are read as they were written. -/
theorem readEntries_render (indent : Indent) : ∀ (entries : List (String × Json)) (fuel : Nat),
    entries ≠ [] → entriesReadable entries → entriesPlain entries → ∀ level outer rest,
      (renderEntries indent level entries).toList.length + 1 ≤ fuel →
        readEntries fuel ((renderEntries indent level entries).toList ++
          ((indent.opening outer).toList ++ '\x7d' :: rest)) = .ok (entries, rest)
  | [], _ => fun filled => absurd rfl filled
  | _ :: _, 0 => fun _ _ _ _ _ _ enough => absurd enough (Nat.not_succ_le_zero _)
  | [(key, value)], fuel + 1 => by
    intro _ readable plain level outer rest enough
    have ends : Closes ('\x7d' :: rest) := closes_cons (.inr (.inr (.inr rfl)))
    have closes := closes_opening indent outer ends
    simp only [renderEntries, String.toList_append, toList_colon, List.append_assoc,
      List.length_append, List.cons_append, List.nil_append, List.length_cons] at enough ⊢
    have one := readValue_render indent value readable.1 plain.2.1 level fuel _ closes (by omega)
    refine (readEntries_step plain.1 (opens_render indent level plain.2.1) one).trans ?_
    rw [skipSpace_blank (blank_opening indent outer), skipSpace_cons (c := '\x7d') rfl]
    rfl
  | (key, value) :: next :: others, fuel + 1 => by
    intro _ readable plain level outer rest enough
    obtain ⟨blank, comma, skipped⟩ := toList_between indent level
    simp only [renderEntries, String.toList_append, toList_colon, comma, List.append_assoc,
      List.length_append, List.cons_append, List.nil_append, List.length_cons] at enough ⊢
    have one := readValue_render indent value readable.1 plain.2.1 level fuel
      (',' :: (blank ++ ((renderEntries indent level (next :: others)).toList ++
        ((indent.opening outer).toList ++ '\x7d' :: rest)))) (closes_cons (.inl rfl)) (by omega)
    have more := readEntries_render indent (next :: others) fuel (List.cons_ne_nil _ _) readable.2
      plain.2.2 level outer rest (by omega)
    refine (readEntries_step plain.1 (opens_render indent level plain.2.1) one).trans ?_
    rw [skipSpace_cons (c := ',') rfl]
    show (readEntries fuel (skipSpace (blank ++ _)) >>= _) = _
    rw [skipSpace_blank skipped, ((opens_entries indent level next others).append _).skipSpace]
    exact bind_of_ok more

end

/-- **A document is read as it was written.** -/
theorem parse_render {document : Json} (readable : document.Readable) (plain : document.Plain)
    (indent : Indent) : parse (render indent document) = .ok document := by
  have whole := readValue_render indent document readable plain 0
    ((render indent document).toList.length + 1) [] closes_nil (Nat.le_succ _)
  rw [List.append_nil] at whole
  show (readValue _ (skipSpace (render indent document).toList) >>= _) = _
  rw [show skipSpace (render indent document).toList = (render indent document).toList from
    (opens_render indent 0 plain).skipSpace]
  exact bind_of_ok whole

end WireProgram.Json
