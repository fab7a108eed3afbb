/-
**The capabilities that every program can name.**

* `Prelude.tables` are the built-in capabilities;
* `Prelude.withParent` puts them before another resolver, so that they cannot be replaced;
* `Extension.tables` are further capabilities, for programs that ask for them.
-/

import WireProgram.Resolver

namespace WireProgram

namespace Prelude

/-- The variable-length integer of so many bits under its usual name. -/
def varint (bits : Nat) : String × ForeignType :=
  let name := "v" ++ toString bits
  (name, ⟨name, .varint bits⟩)

/-- The built-in capabilities. -/
def tables : CapabilityTables where
  transforms := [("base64", ⟨"base64", .base64⟩), ("gzip", ⟨"gzip", .gzip⟩)]
  types := [varint 8, varint 16, varint 32, varint 64, varint 128, ("utf8", ⟨"utf8", .utf8⟩),
    ("utf16", ⟨"utf16", .utf16⟩)]
  functions := [("len", ⟨"len", .length⟩), ("pad", ⟨"pad", .padding⟩)]

/-- The resolver of the built-in capabilities. Imports are left to others. -/
def resolver : Resolver :=
  tables.resolver

/-- The built-in capabilities before another resolver, if there is one. -/
def withParent (parent : Option Resolver) : Resolver :=
  Resolver.first (resolver :: parent.toList)

/-- Whether a transform is a built-in one. -/
def hasTransform (transform : Transform) : Bool :=
  (tables.transforms.map Prod.snd).contains transform

/-- Whether a foreign type is a built-in one. -/
def hasType (foreign : ForeignType) : Bool :=
  (tables.types.map Prod.snd).contains foreign

/-- Whether a function is a built-in one. -/
def hasFunction (function : Function) : Bool :=
  (tables.functions.map Prod.snd).contains function

/-- What a built-in type reads: an integer of groups of seven bits, or text. -/
theorem hasType_cases {foreign : ForeignType} (builtIn : hasType foreign = true) :
    (∃ bits, foreign.action = .varint bits) ∨ foreign.action = .utf8 ∨
      foreign.action = .utf16 := by
  unfold hasType at builtIn
  rw [List.contains_iff_mem] at builtIn
  simp only [tables, varint, List.map_cons, List.map_nil, List.mem_cons, List.not_mem_nil,
    or_false] at builtIn
  rcases builtIn with rfl | rfl | rfl | rfl | rfl | rfl | rfl
  · exact Or.inl ⟨8, rfl⟩
  · exact Or.inl ⟨16, rfl⟩
  · exact Or.inl ⟨32, rfl⟩
  · exact Or.inl ⟨64, rfl⟩
  · exact Or.inl ⟨128, rfl⟩
  · exact Or.inr (Or.inl rfl)
  · exact Or.inr (Or.inr rfl)

theorem hasTransform_cases {transform : Transform} (builtIn : hasTransform transform = true) :
    transform = ⟨"base64", .base64⟩ ∨ transform = ⟨"gzip", .gzip⟩ := by
  unfold hasTransform at builtIn
  rw [List.contains_iff_mem] at builtIn
  simpa [tables] using builtIn

end Prelude

namespace Extension

/-- Further capabilities. -/
def tables : CapabilityTables where
  transforms := [("identity", ⟨"identity", .identity⟩), ("head", ⟨"head", .head⟩),
    ("xor", ⟨"xor", .xor⟩), ("block", ⟨"block", .block⟩), ("gzip", ⟨"user-gzip", .identity⟩)]
  types := [("raw", ⟨"raw", .raw⟩), ("peek", ⟨"peek", .peek⟩), ("mode", ⟨"mode", .mode⟩),
    ("utf8", ⟨"user-utf8", .raw⟩)]
  functions := [("tuple", ⟨"tuple", .tuple⟩), ("list", ⟨"list", .list⟩), ("sum", ⟨"sum", .sum⟩),
    ("fail", ⟨"fail", .refuse⟩), ("len", ⟨"user-len", .tuple⟩)]

/-- The built-in capabilities before the further ones. -/
def resolver : Resolver :=
  Prelude.withParent (some tables.resolver)

end Extension

end WireProgram
