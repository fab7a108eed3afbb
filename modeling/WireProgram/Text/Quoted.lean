/-
**Text in quotes, as it stands in messages.**

A text is put in single quotes, or in double quotes if it holds a single quote and no double quote.
The quote in use, the backslash and every character that cannot be printed are escaped.

* `escapeChar` writes one character;
* `quoted` writes a text.
-/

import WireProgram.Bytes
import WireProgram.Text.Printable
import WireProgram.Text.Surrogate

namespace WireProgram.Text

/-- A number in lower case hexadecimal, padded with zeros to `width` digits. -/
def hexPadded (width value : Nat) : List Char :=
  let digits := (Nat.toDigits 16 value)
  List.replicate (width - digits.length) '0' ++ digits

/-- One character of a quoted text. -/
def escapeChar (quote c : Char) : List Char :=
  if c = quote ∨ c = '\\' then ['\\', c]
  else if c = '\t' then ['\\', 't']
  else if c = '\n' then ['\\', 'n']
  else if c = '\r' then ['\\', 'r']
  else if isPrintable c then [c]
  else if c.toNat < 0x100 then ['\\', 'x'] ++ hexPadded 2 c.toNat
  else
    match loneSurrogate? c with
    | some unit => ['\\', 'u'] ++ hexPadded 4 unit
    | none =>
      if c.toNat < 0x10000 then ['\\', 'u'] ++ hexPadded 4 c.toNat
      else ['\\', 'U'] ++ hexPadded 8 c.toNat

/-- The quote that a text is put in. -/
def quoteFor (text : String) : Char :=
  if text.toList.contains '\'' && !text.toList.contains '"' then '"' else '\''

/-- A text in quotes. -/
def quoted (text : String) : String :=
  let quote := quoteFor text
  String.ofList ([quote] ++ text.toList.flatMap (escapeChar quote) ++ [quote])

end WireProgram.Text
