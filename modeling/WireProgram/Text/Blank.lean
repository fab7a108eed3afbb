/-
**Blank characters and the removal of blanks at the ends of a text.**

* `isBlank` is the class of characters that count as white space, in all scripts;
* `strip` removes blanks at both ends, `stripEnd` only at the end.
-/

namespace WireProgram.Text

/-- White space: the separators of lines, paragraphs and words, and four information separators. -/
def isBlank (c : Char) : Bool :=
  let code := c.toNat
  (9 ≤ code ∧ code ≤ 13) ∨ (28 ≤ code ∧ code ≤ 32) ∨ code = 0x85 ∨ code = 0xA0 ∨ code = 0x1680 ∨
    (0x2000 ≤ code ∧ code ≤ 0x200A) ∨ code = 0x2028 ∨ code = 0x2029 ∨ code = 0x202F ∨
    code = 0x205F ∨ code = 0x3000

/-- A list of characters without the blanks at its end. -/
def stripEndChars (chars : List Char) : List Char :=
  (chars.reverse.dropWhile isBlank).reverse

/-- A list of characters without the blanks at both ends. -/
def stripChars (chars : List Char) : List Char :=
  stripEndChars (chars.dropWhile isBlank)

/-- A text without the blanks at its end. -/
def stripEnd (text : String) : String :=
  String.ofList (stripEndChars text.toList)

/-- A text without the blanks at both ends. -/
def strip (text : String) : String :=
  String.ofList (stripChars text.toList)

end WireProgram.Text
