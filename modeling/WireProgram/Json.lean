/-
**Documents: trees of scalars, arrays and objects.**

Whole numbers and fractions are apart, an object keeps its keys in the order in which they came, and
a key that comes twice keeps its first place and its last value. The main definitions:

* `Json` and its look-ups `Json.get?`, `Json.elements?` and `Json.entries?`;
* `putEntry`, the update of an ordered table;
* `Json.spelled` and `Json.quoted`, the forms in which a document stands in a message;
* `Json.depth`, which bounds the recursion of every reader of documents.
-/

import WireProgram.Decimal.Shortest
import WireProgram.Text.Quoted

namespace WireProgram

/-- A document. -/
inductive Json where
  | null
  | bool (value : Bool)
  | int (value : Int)
  | float (value : Binary64)
  | string (value : String)
  | array (items : List Json)
  | object (entries : List (String × Json))
  deriving Inhabited, BEq

/-! ### Ordered tables -/

/-- Puts a value under a key: a known key keeps its place, a new one comes last. -/
def putEntry {α β : Type} [DecidableEq α] (key : α) (value : β) : List (α × β) → List (α × β)
  | [] => [(key, value)]
  | entry :: rest =>
    if entry.1 = key then (key, value) :: rest else entry :: putEntry key value rest

/-- The table of a sequence of entries, in which later values replace earlier ones. -/
def tableOf {α β : Type} [DecidableEq α] (entries : List (α × β)) : List (α × β) :=
  entries.foldl (fun table entry => putEntry entry.1 entry.2 table) []

namespace Json

/-! ### Look-ups -/

/-- The value under a key of an object. -/
def get? : Json → String → Option Json
  | .object entries, key => entries.lookup key
  | _, _ => none

/-- Whether a document is an object. -/
def isObject : Json → Bool
  | .object _ => true
  | _ => false

/--
What a document yields when it is gone through: the items of an array, the characters of a string,
the keys of an object. Scalars yield nothing at all.
-/
def elements? : Json → Option (List Json)
  | .array items => some items
  | .string text => some (text.toList.map fun c => .string (String.singleton c))
  | .object entries => some (entries.map fun entry => .string entry.1)
  | _ => none

mutual

/-- The number of nested levels of a document. -/
def depth : Json → Nat
  | .array items => depthItems items + 1
  | .object entries => depthEntries entries + 1
  | _ => 1

/-- The greatest depth of a list of documents. -/
def depthItems : List Json → Nat
  | [] => 0
  | item :: rest => max (depth item) (depthItems rest)

/-- The greatest depth of the values of an object. -/
def depthEntries : List (String × Json) → Nat
  | [] => 0
  | (_, value) :: rest => max (depth value) (depthEntries rest)

end

/-! ### Forms for messages -/

/-- Numbers in messages and documents: positional from `10 ^ -4` up to below `10 ^ 16`. -/
def numberLayout : DecimalLayout := ⟨-3, 16, 2, "nan", "inf"⟩

mutual

/-- A document as it stands inside another one in a message. -/
def quoted : Json → String
  | .null => "None"
  | .bool value => if value then "True" else "False"
  | .int value => toString value
  | .float value => numberLayout.render value
  | .string text => Text.quoted text
  | .array items => "[" ++ quotedItems items ++ "]"
  | .object entries => "\x7b" ++ quotedEntries entries ++ "\x7d"

/-- The items of an array, with commas between them. -/
def quotedItems : List Json → String
  | [] => ""
  | [item] => quoted item
  | item :: rest => quoted item ++ ", " ++ quotedItems rest

/-- The entries of an object, with commas between them. -/
def quotedEntries : List (String × Json) → String
  | [] => ""
  | [(key, value)] => Text.quoted key ++ ": " ++ quoted value
  | (key, value) :: rest =>
    Text.quoted key ++ ": " ++ quoted value ++ ", " ++ quotedEntries rest

end

/-- A document as it stands in a message: a string without quotes, all else as in `quoted`. -/
def spelled : Json → String
  | .string text => text
  | document => quoted document

end Json

end WireProgram
