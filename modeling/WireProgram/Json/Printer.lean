/-
**Documents as text.**

The text holds ASCII characters only: all others are written as escapes of UTF-16 units. Without an
indent everything stands on one line, with one each item stands on a line of its own.

* `Json.escape` writes one character of a string;
* `Json.sortKeys` puts the keys of every object in order;
* `Json.render` writes a document.
-/

import WireProgram.Json

namespace WireProgram.Json

/-! ### Strings -/

/-- The escape of one UTF-16 unit. -/
def unitEscape (unit : Nat) : List Char :=
  ['\\', 'u'] ++ Text.hexPadded 4 unit

/-- One character of a string, in ASCII. -/
def escape (c : Char) : List Char :=
  if c = '"' then ['\\', '"']
  else if c = '\\' then ['\\', '\\']
  else if c = '\n' then ['\\', 'n']
  else if c = '\r' then ['\\', 'r']
  else if c = '\t' then ['\\', 't']
  else if c = '\x08' then ['\\', 'b']
  else if c = '\x0c' then ['\\', 'f']
  else if 0x20 ≤ c.toNat ∧ c.toNat < 0x7F then [c]
  else if c.toNat < 0x10000 then unitEscape c.toNat
  else
    match Text.loneSurrogate? c with
    | some unit => unitEscape unit
    | none =>
      let offset := c.toNat - 0x10000
      unitEscape (0xD800 + offset / 0x400) ++ unitEscape (0xDC00 + offset % 0x400)

/-- A string with its quotes. -/
def renderString (text : String) : String :=
  String.ofList ('"' :: text.toList.flatMap escape ++ ['"'])

/-! ### Order of keys -/

/-- Puts an entry before the first one whose key is not smaller. -/
def insertKey (entry : String × Json) : List (String × Json) → List (String × Json)
  | [] => [entry]
  | other :: rest =>
    if other.1 < entry.1 then other :: insertKey entry rest else entry :: other :: rest

mutual

/-- Sorts the keys of every object by code points. -/
def sortKeys : Json → Json
  | .array items => .array (sortItems items)
  | .object entries => .object (sortEntries entries)
  | document => document

/-- Sorts the keys inside every item. -/
def sortItems : List Json → List Json
  | [] => []
  | item :: rest => sortKeys item :: sortItems rest

/-- Sorts the entries of an object and the keys inside them. -/
def sortEntries : List (String × Json) → List (String × Json)
  | [] => []
  | (key, value) :: rest => insertKey (key, sortKeys value) (sortEntries rest)

end

/-! ### Layout -/

/-- How the items of arrays and objects are laid out. -/
inductive Indent where
  /-- All on one line, with a space after each comma. -/
  | none
  /-- Each item on a line of its own, indented by so many spaces for each level. -/
  | spaces (width : Nat)
  deriving DecidableEq, Inhabited

/-- What opens a list of items at a level. -/
def Indent.opening (indent : Indent) (level : Nat) : String :=
  match indent with
  | .none => ""
  | .spaces width => "\n" ++ String.ofList (List.replicate (width * level) ' ')

/-- What stands between two items. -/
def Indent.between (indent : Indent) (level : Nat) : String :=
  match indent with
  | .none => ", "
  | .spaces _ => "," ++ indent.opening level

/-- Numbers in documents. -/
def documentLayout : DecimalLayout := ⟨-3, 16, 2, "NaN", "Infinity"⟩

mutual

/-- Writes a document that stands at a level of nesting. -/
def renderAt (indent : Indent) (level : Nat) : Json → String
  | .null => "null"
  | .bool value => if value then "true" else "false"
  | .int value => toString value
  | .float value => documentLayout.render value
  | .string text => renderString text
  | .array [] => "[]"
  | .array (item :: rest) =>
    "[" ++ indent.opening (level + 1) ++ renderItems indent (level + 1) (item :: rest) ++
      indent.opening level ++ "]"
  | .object [] => "\x7b\x7d"
  | .object (entry :: rest) =>
    "\x7b" ++ indent.opening (level + 1) ++ renderEntries indent (level + 1) (entry :: rest) ++
      indent.opening level ++ "\x7d"

/-- Writes the items of an array. -/
def renderItems (indent : Indent) (level : Nat) : List Json → String
  | [] => ""
  | [item] => renderAt indent level item
  | item :: rest =>
    renderAt indent level item ++ indent.between level ++ renderItems indent level rest

/-- Writes the entries of an object. -/
def renderEntries (indent : Indent) (level : Nat) : List (String × Json) → String
  | [] => ""
  | [(key, value)] => renderString key ++ ": " ++ renderAt indent level value
  | (key, value) :: rest =>
    renderString key ++ ": " ++ renderAt indent level value ++ indent.between level ++
      renderEntries indent level rest

end

/-- The text of a document. -/
def render (indent : Indent) (document : Json) : String :=
  renderAt indent 0 document

end WireProgram.Json
