/-
**Configuration, and how it is read from environment variables.**

* `Config` holds the settings of a decoder;
* `flagOf` and `positiveOf` read a switch and a positive number;
* `numeral?` reads a whole number in the notation of programs, in any script's decimal digits;
* `Config.ofEnvironment` reads the three variables.
-/

import WireProgram.Bytes
import WireProgram.Text.Blank
import WireProgram.Text.DecimalDigit

namespace WireProgram

/-- The settings of a decoder. -/
structure Config where
  /-- Whether the run is recorded. -/
  trace : Bool := false
  /-- The number of bytes asked from a raw input at a time. -/
  chunkSize : Int := 8192
  /-- Whether an array that runs to the end of its stream may drop a partial element. -/
  allowPartialTail : Bool := false
  deriving DecidableEq, Inhabited

/-! ### Switches -/

/--
The lower case form of a character, as far as it can occur in the words that switch off: the letters
of the Latin alphabet, the long `s` and the ligature of two letters `f`.
-/
def foldCase (c : Char) : List Char :=
  if c = '\u017F' then ['s']
  else if c = '\uFB00' then ['f', 'f']
  else [c.toLower]

/-- The words that switch off. -/
def offWords : List String := ["0", "false", "off", ""]

/-- Reads a switch: it is on unless the text is one of the words that switch off. -/
def flagOf (default : Bool) : Option String → Bool
  | none => default
  | some text =>
    !offWords.contains (String.ofList ((Text.stripChars text.toList).flatMap foldCase))

/-! ### Numbers -/

/-- The value of a digit in bases up to sixteen; decimal digits may be of any script. -/
def baseDigit? (base : Nat) (c : Char) : Option Nat := do
  let value ← (Text.digitValue? c).orElse fun _ => Bytes.hexValue? c
  if value < base then some value else none

/-- Reads digits, between which single underscores may stand. -/
def readDigits? (base : Nat) (total : Nat) : List Char → Option Nat
  | [] => some total
  | '_' :: c :: rest =>
    (baseDigit? base c).bind fun value => readDigits? base (total * base + value) rest
  | c :: rest => (baseDigit? base c).bind fun value => readDigits? base (total * base + value) rest

/-- Reads at least one digit. -/
def readNumeral? (base : Nat) : List Char → Option Nat
  | [] => none
  | '_' :: _ => none
  | digits => readDigits? base 0 digits

/-- The base that a letter after a leading zero announces. -/
def baseOfLetter? (c : Char) : Option Nat :=
  if c = 'x' ∨ c = 'X' then some 16
  else if c = 'o' ∨ c = 'O' then some 8
  else if c = 'b' ∨ c = 'B' then some 2
  else none

/-- Whether a character is the digit zero of some script. -/
def isZeroDigit (c : Char) : Bool :=
  Text.digitValue? c = some 0

/-- Reads a decimal number, which may start with a zero only if it is zero. -/
def readDecimal? (text : List Char) : Option Nat := do
  let value ← readNumeral? 10 text
  if (text.head?.elim false isZeroDigit) && value ≠ 0 then none else some value

/-- Reads a number without a sign. An underscore may follow the letter of a base. -/
def readMagnitude? : List Char → Option Nat
  | first :: letter :: rest =>
    if isZeroDigit first then
      match baseOfLetter? letter with
      | some base =>
        match rest with
        | '_' :: digits => readNumeral? base digits
        | digits => readNumeral? base digits
      | none => readDecimal? (first :: letter :: rest)
    else readDecimal? (first :: letter :: rest)
  | text => readDecimal? text

/-- Reads a whole number with an optional sign. -/
def numeral? (text : List Char) : Option Int :=
  match text with
  | '-' :: rest => (readMagnitude? rest).map fun value => -(value : Int)
  | '+' :: rest => (readMagnitude? rest).map Int.ofNat
  | rest => (readMagnitude? rest).map Int.ofNat

/-- Reads a positive number; anything else gives the default. -/
def positiveOf (default : Int) : Option String → Int
  | none => default
  | some text =>
    match numeral? (Text.stripChars text.toList) with
    | some value => if 0 < value then value else default
    | none => default

/-! ### The variables -/

/-- The settings that environment variables give. -/
def Config.ofEnvironment (environment : String → Option String) : Config where
  trace := flagOf false (environment "PROTODEC_TRACE")
  chunkSize := positiveOf 8192 (environment "PROTODEC_CHUNK_SIZE")
  allowPartialTail := flagOf false (environment "PROTODEC_ALLOW_PARTIAL_TAIL")

end WireProgram
