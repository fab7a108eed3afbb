/-
**Canonical prefix codes, read bit by bit.**

A code is given by the lengths of its words: shorter words come first, and words of one length are
consecutive numbers in the order of their symbols. The main definitions:

* `PrefixCode.ofLengths` builds a code from the lengths, zero for a symbol without a word;
* `Fullness` says whether the lengths fit and whether they leave words unused;
* `PrefixCode.step` reads one more bit of a word.
-/

import WireProgram.Bytes

namespace WireProgram

/-- A canonical prefix code. -/
structure PrefixCode where
  /-- The number of words of each length. -/
  counts : Array Nat
  /-- The symbols in the order of their words. -/
  symbols : Array Nat
  /-- The length of the longest word. -/
  longest : Nat
  deriving Inhabited

/-- How many bit strings the words of a code use up. -/
inductive Fullness where
  | oversubscribed
  | complete
  | incomplete
  deriving DecidableEq, Inhabited

/-- Where a reader stands in a word. -/
structure Walk where
  /-- The bits read so far. -/
  length : Nat := 0
  /-- The number that they spell, first bit most significant. -/
  code : Nat := 0
  /-- The number after the last word of this length. -/
  first : Nat := 0
  /-- The number of words that are not longer. -/
  index : Nat := 0
  deriving Inhabited

/-- What a bit does to a walk. -/
inductive WalkResult where
  | symbol (value : Nat)
  | inside (walk : Walk)
  | invalid

namespace PrefixCode

/-- The greatest length of a word. -/
def lengthLimit : Nat := 15

/-- The number of words of a length. -/
def countOf (lengths : List Nat) (length : Nat) : Nat :=
  lengths.count length

/-- The symbols whose words have a length, in order. -/
def symbolsOf (lengths : List Nat) (length : Nat) : List Nat :=
  (lengths.zipIdx.filter fun entry => entry.1 = length).map Prod.snd

/-- The lengths that a word can have. -/
def wordLengths : List Nat :=
  (List.range lengthLimit).map (· + 1)

/-- The code of a list of lengths. -/
def ofLengths (lengths : List Nat) : PrefixCode where
  counts := (0 :: wordLengths.map (countOf lengths)).toArray
  symbols := (wordLengths.flatMap (symbolsOf lengths)).toArray
  longest := lengths.foldl max 0

/-- The strings of each length that no shorter word uses up, less the words of that length. -/
def spareWords (counts : List Nat) : Option Nat :=
  counts.foldlM (fun spare count => if count ≤ 2 * spare then some (2 * spare - count) else none) 1

/-- Whether the words of a code fit, and whether they leave strings unused. -/
def fullness (code : PrefixCode) : Fullness :=
  match spareWords (code.counts.toList.drop 1) with
  | none => .oversubscribed
  | some 0 => .complete
  | some _ => .incomplete

/-- Whether no symbol has a word. -/
def isEmpty (code : PrefixCode) : Bool :=
  code.longest = 0

/-- Reads one more bit of a word. A string that begins no word is invalid at its first spare bit. -/
def step (code : PrefixCode) (walk : Walk) (bit : Nat) : WalkResult :=
  let length := walk.length + 1
  let number := 2 * walk.code + bit
  let first := 2 * walk.first
  let count := code.counts.getD length 0
  if number < first + count then .symbol (code.symbols.getD (walk.index + (number - first)) 0)
  else if code.longest ≤ length then .invalid
  else .inside ⟨length, number, first + count, walk.index + count⟩

end PrefixCode

end WireProgram
