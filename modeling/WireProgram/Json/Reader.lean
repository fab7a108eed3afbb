/-
**Text as documents.**

The reader takes standard documents, and the words `NaN`, `Infinity` and `-Infinity` as numbers.
Each reading function returns what it read and the characters that follow.

* `Json.readNumber` reads a number: whole unless it has a fraction or an exponent;
* `Json.readChars` reads a string up to its closing quote;
* `Json.parse` reads a text that holds one document and nothing else.
-/

import WireProgram.Json
import WireProgram.Text.Surrogate

namespace WireProgram

/-- Why a text is not a document. -/
inductive JsonError where
  /-- The text does not follow the grammar. -/
  | malformed
  /-- A whole number has more digits than the reader takes. -/
  | tooManyDigits
  deriving DecidableEq, Inhabited

namespace Json

/-- Whether a character may stand between the parts of a document. -/
def isSpace (c : Char) : Bool :=
  c = ' ' ∨ c = '\t' ∨ c = '\n' ∨ c = '\r'

/-- Skips the space before the next part. -/
def skipSpace (text : List Char) : List Char :=
  text.dropWhile isSpace

/-- Whether a character is a digit of a number. -/
def isDigit (c : Char) : Bool :=
  '0' ≤ c ∧ c ≤ '9'

/-- The number that a list of digits spells. -/
def digitsValue (digits : List Char) : Nat :=
  digits.foldl (fun total c => total * 10 + (c.toNat - 48)) 0

/-! ### Numbers -/

/-- The greatest number of digits of a whole number. -/
def digitLimit : Nat := 4300

/-- Splits a text after its first digits. -/
def spanDigits (text : List Char) : List Char × List Char :=
  (text.takeWhile isDigit, text.dropWhile isDigit)

/-- Reads the digits before the point: a zero, or digits that do not start with one. -/
def readWhole : List Char → Except JsonError (List Char × List Char)
  | '0' :: rest => .ok (['0'], rest)
  | text =>
    match spanDigits text with
    | ([], _) => .error .malformed
    | (digits, rest) => .ok (digits, rest)

/-- Reads a fraction if one follows: a point and at least one digit. -/
def readFraction : List Char → List Char × List Char
  | '.' :: rest =>
    match spanDigits rest with
    | ([], _) => ([], '.' :: rest)
    | split => split
  | text => ([], text)

/-- Reads an exponent if one follows: a mark, perhaps a sign, and at least one digit. -/
def readExponent (text : List Char) : Option Int × List Char :=
  match text with
  | mark :: rest =>
    if mark = 'e' ∨ mark = 'E' then
      let signed : Bool × List Char := match rest with
        | '-' :: digits => (true, digits)
        | '+' :: digits => (false, digits)
        | digits => (false, digits)
      match spanDigits signed.2 with
      | ([], _) => (none, text)
      | (digits, after) =>
        let size : Int := digitsValue digits
        (some (if signed.1 then -size else size), after)
    else (none, text)
  | [] => (none, [])

/-- Reads the digits of a number whose sign is known. -/
def readUnsigned (negative : Bool) (text : List Char) : Except JsonError (Json × List Char) := do
  let (whole, afterWhole) ← readWhole text
  let (fraction, afterFraction) := readFraction afterWhole
  let (exponent, rest) := readExponent afterFraction
  if fraction.isEmpty ∧ exponent.isNone then
    if digitLimit < whole.length then .error .tooManyDigits
    else
      let size : Int := digitsValue whole
      .ok (.int (if negative then -size else size), rest)
  else
    let digits := (whole ++ fraction).dropWhile (· = '0')
    let power := exponent.getD 0 - (fraction.length : Int)
    .ok (.float (Binary64.ofDecimal negative (digitsValue digits) digits.length power), rest)

/-- Reads a number with its sign. -/
def readNumber : List Char → Except JsonError (Json × List Char)
  | '-' :: 'I' :: 'n' :: 'f' :: 'i' :: 'n' :: 'i' :: 't' :: 'y' :: rest =>
    .ok (.float (Binary64.infinity true), rest)
  | '-' :: rest => readUnsigned true rest
  | text => readUnsigned false text

/-! ### Strings -/

/-- The UTF-16 unit that four hexadecimal digits spell. -/
def unit? (a b c d : Char) : Option Nat := do
  let first ← Bytes.hexValue? a
  let second ← Bytes.hexValue? b
  let third ← Bytes.hexValue? c
  let fourth ← Bytes.hexValue? d
  return ((first * 16 + second) * 16 + third) * 16 + fourth

/-- The character that a short escape stands for. -/
def shortEscape? (c : Char) : Option Char :=
  if c = '"' ∨ c = '\\' ∨ c = '/' then some c
  else if c = 'b' then some '\x08'
  else if c = 'f' then some '\x0c'
  else if c = 'n' then some '\n'
  else if c = 'r' then some '\r'
  else if c = 't' then some '\t'
  else none

/--
Reads the code points and escaped units of a string up to the closing quote. Control characters must
be escaped.
-/
def readPoints : List Char → Except JsonError (List Nat × List Char)
  | [] => .error .malformed
  | '"' :: rest => .ok ([], rest)
  | '\\' :: 'u' :: a :: b :: c :: d :: rest =>
    match unit? a b c d, readPoints rest with
    | some unit, .ok (points, after) => .ok (unit :: points, after)
    | none, _ => .error .malformed
    | _, .error e => .error e
  | '\\' :: c :: rest =>
    match shortEscape? c, readPoints rest with
    | some plain, .ok (points, after) => .ok (plain.toNat :: points, after)
    | none, _ => .error .malformed
    | _, .error e => .error e
  | c :: rest =>
    if c.toNat < 0x20 then .error .malformed
    else
      match readPoints rest with
      | .ok (points, after) => .ok (c.toNat :: points, after)
      | .error e => .error e

/-- The character of a code point, which may be half a pair that stands alone. -/
def charOfPoint (point : Nat) : Char :=
  if Text.isHighSurrogate point || Text.isLowSurrogate point then Text.loneSurrogate point
  else Char.ofNat point

/-- Joins each pair of UTF-16 units to the character that it stands for. -/
def joinPairs : List Nat → List Char
  | [] => []
  | [point] => [charOfPoint point]
  | point :: next :: rest =>
    if Text.isHighSurrogate point && Text.isLowSurrogate next then
      Char.ofNat (0x10000 + (point - 0xD800) * 0x400 + (next - 0xDC00)) :: joinPairs rest
    else charOfPoint point :: joinPairs (next :: rest)

/-- Reads a string that starts with its opening quote. -/
def readString : List Char → Except JsonError (String × List Char)
  | '"' :: rest =>
    match readPoints rest with
    | .ok (points, after) => .ok (String.ofList (joinPairs points), after)
    | .error e => .error e
  | _ => .error .malformed

/-! ### Documents -/

mutual

/-- Reads a document; the fuel bounds the number of its parts. -/
def readValue : Nat → List Char → Except JsonError (Json × List Char)
  | 0, _ => .error .malformed
  | fuel + 1, text =>
    match text with
    | '"' :: rest => do
      let (value, after) ← readString ('"' :: rest)
      return (.string value, after)
    | '[' :: rest =>
      match skipSpace rest with
      | ']' :: after => .ok (.array [], after)
      | inside => do
        let (items, after) ← readItems fuel inside
        return (.array items, after)
    | '\x7b' :: rest =>
      match skipSpace rest with
      | '\x7d' :: after => .ok (.object [], after)
      | inside => do
        let (entries, after) ← readEntries fuel inside
        return (.object (tableOf entries), after)
    | 'n' :: 'u' :: 'l' :: 'l' :: rest => .ok (.null, rest)
    | 't' :: 'r' :: 'u' :: 'e' :: rest => .ok (.bool true, rest)
    | 'f' :: 'a' :: 'l' :: 's' :: 'e' :: rest => .ok (.bool false, rest)
    | 'N' :: 'a' :: 'N' :: rest => .ok (.float Binary64.nan, rest)
    | 'I' :: 'n' :: 'f' :: 'i' :: 'n' :: 'i' :: 't' :: 'y' :: rest =>
      .ok (.float (Binary64.infinity false), rest)
    | _ => readNumber text

/-- Reads the items of an array up to the closing bracket. -/
def readItems : Nat → List Char → Except JsonError (List Json × List Char)
  | 0, _ => .error .malformed
  | fuel + 1, text => do
    let (item, after) ← readValue fuel text
    match skipSpace after with
    | ']' :: rest => return ([item], rest)
    | ',' :: rest =>
      let (items, final) ← readItems fuel (skipSpace rest)
      return (item :: items, final)
    | _ => .error .malformed

/-- Reads the entries of an object up to the closing brace. -/
def readEntries : Nat → List Char → Except JsonError (List (String × Json) × List Char)
  | 0, _ => .error .malformed
  | fuel + 1, text => do
    let (key, afterKey) ← readString text
    match skipSpace afterKey with
    | ':' :: beforeValue =>
      let (value, after) ← readValue fuel (skipSpace beforeValue)
      match skipSpace after with
      | '\x7d' :: rest => return ([(key, value)], rest)
      | ',' :: rest =>
        let (entries, final) ← readEntries fuel (skipSpace rest)
        return ((key, value) :: entries, final)
      | _ => .error .malformed
    | _ => .error .malformed

end

/-- Reads a text that holds one document, with space around it. -/
def parse (text : String) : Except JsonError Json := do
  let chars := text.toList
  let (document, rest) ← readValue (chars.length + 1) (skipSpace chars)
  if (skipSpace rest).isEmpty then return document else .error .malformed

end Json

end WireProgram
