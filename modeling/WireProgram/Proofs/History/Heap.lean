/-
**A heap with a history.**

Before a decode others may have made lists, so that its own lists come to other cells. Nothing else is
different: the streams, the constants and the lists that it is given are the same. The heap of the
decode alone and the heap with the lists of the others are two ways of running one program. The main
definitions and statements:

* `Lists.Has` and `Lists.Closed`, a value and a heap that refer to no lists outside of the heap;
* `Naming.beyond`, the names of the lists in a heap that others have added to;
* `Lists.Kept.named`, a heap that grew is the first one under these names;
* `Ensemble.heaps`, one decode from several heaps.
-/

import WireProgram.Proofs.Contract
import WireProgram.Proofs.Ensemble.Run

namespace WireProgram

/-! ### Heaps -/

/-- A value that refers only to lists that are there. -/
def Lists.Has (lists : Lists) (value : Value) : Prop :=
  ∀ cell ∈ value.cells, cell < lists.size

/-- A heap whose lists refer only to lists that are there. -/
def Lists.Closed (lists : Lists) : Prop :=
  ∀ cell, ∀ item ∈ lists.get cell, lists.Has item

/-- The names of the lists in a heap to which others have added some: those that are there at first keep
their names, and those made later come behind what the others made. -/
def Naming.beyond (base more : Nat) : Naming where
  cells cell := if cell < base then cell else cell + more
  views view := view
  injective cell other same := by
    split at same <;> split at same <;> omega

namespace Naming

variable {base more : Nat}

theorem beyond_old {cell : Nat} (old : cell < base) : (beyond base more).cells cell = cell :=
  if_pos old

theorem beyond_new {cell : Nat} (new : base ≤ cell) : (beyond base more).cells cell = cell + more :=
  if_neg (Nat.not_lt.mpr new)

theorem beyond_fixes {cells : List Nat} (old : ∀ cell ∈ cells, cell < base) (views : List View) :
    (beyond base more).Fixes cells views :=
  ⟨fun cell member => beyond_old (old cell member), fun _ _ => rfl⟩

/-- What refers only to the lists that are there at first is the same under the names. -/
theorem beyond_map_eq {lists : Lists} {values : List Value}
    (there : ∀ value ∈ values, lists.Has value) :
    values.map (Value.named (beyond lists.size more)) = values :=
  (List.map_congr_left (g := id) fun value member =>
    value.named_eq_self (beyond_fixes (there value member) _)).trans (List.map_id values)

end Naming

/-- **A heap that others have added to** is the first one under other names. -/
theorem Lists.Kept.named {lists lists' : Lists} (kept : Lists.Kept [] lists lists')
    (closed : lists.Closed) :
    Lists.Named (.beyond lists.size (lists'.size - lists.size)) lists lists' := by
  have grown := kept.grown
  constructor
  · intro cell
    rcases Nat.lt_or_ge cell lists.size with old | new
    · rw [Naming.beyond_old old, kept.same cell old List.not_mem_nil,
        Naming.beyond_map_eq (closed cell)]
    · rw [Naming.beyond_new new, lists.get_of_size_le new, lists'.get_of_size_le (by omega)]
      rfl
  · intro more
    rw [Naming.beyond_new (Nat.le_add_right _ _)]
    omega

/-! ### One decode from several heaps -/

section Heaps

variable {ι α : Type}

/-- The same streams in all ways. -/
def Streams.Family.common (ι : Type) : Streams.Family ι where
  states := Constant
  later _ _ := True
  refl _ := trivial
  trans _ _ := trivial

/-- One operation on the same streams gives the same in all ways. -/
theorem Jointly.same (start : ι → Streams Codec) (step : StreamStep Codec α) :
    Jointly (.common ι) start Constantly fun _ => step := by
  rintro _ ⟨⟨streams, rfl⟩, -⟩
  rcases ran : step.run streams with ⟨fault | value, after⟩
  · exact .of_error ⟨⟨after, rfl⟩, trivial⟩ ⟨fault, rfl⟩ fun _ => ran
  · exact .of_ok ⟨⟨after, rfl⟩, trivial⟩ ⟨value, rfl⟩ fun _ => ran

/-- **One decode from several heaps.** To the lists that are there at first others have added more of
them in each way, and the streams are the same. -/
def Ensemble.heaps (base : Nat) (more : ι → Nat) (mode : String) : Ensemble ι where
  naming way := .beyond base (more way)
  mode _ := mode
  streams := .common ι
  reads _ _ := True
  held _ _ := True
  ends _ _ := True
  inside _ := True
  offset _ _ := 0
  wraps _ := True
  foreign _ := True
  traces := Constant
  warnings := Constant
  faults := Constant
  reads_later _ _ := trivial
  held_later _ _ := trivial
  ends_later _ _ := trivial
  reads_of_held _ := trivial
  inside_of_held _ := trivial
  readExact {_ view} _ count := .same _ (view.readExact count)
  readToEnd {_ view} _ := .same _ view.readToEnd
  approach {_ view terminator} _ _ := .same _ (view.approach terminator)
  openTake {_ view} _ limit :=
    (Jointly.same _ (openedBy fun streams => streams.openTake view limit)).mono
      fun _ _ ⟨opened, same⟩ => ⟨opened, trivial, same⟩
  openCursor _ content :=
    (Jointly.same _ (openedBy fun streams => streams.openCursor content)).mono
      fun _ _ ⟨opened, same⟩ => ⟨opened, ⟨trivial, trivial⟩, same⟩
  wrap {_ view transform} _ _ values := by
    simp only [Transform.wrap_named]
    exact (Jointly.same _ (transform.wrap view values)).mono
      fun _ _ ⟨opened, same⟩ => ⟨opened, trivial, same⟩
  left _ _ := trivial
  decode {_ view type} _ _ values :=
    ForeignType.decode_together (fun _ => ⟨mode, rfl⟩) (fun way => .beyond base (more way))
      (fun count _ => .same _ (view.readExact count)) (.same _ view.readToEnd)
      (fun _ want => .same _ (view.fillBuf want)) values
  position := by
    rintro view _ ⟨streams, rfl⟩ -
    exact ⟨view.position streams, fun _ => rfl⟩
  weight := by
    rintro view _ ⟨streams, rfl⟩ -
    exact ⟨view.weight streams, fun _ => rfl⟩
  atEnd := by
    rintro view _ ⟨streams, rfl⟩ -
    exact ⟨view.atEnd streams, fun _ => rfl⟩
  same fault := ⟨fault, rfl⟩
  unfit {_ view} _ what := ⟨.decode (.countNotInteger what view.typeName), rfl⟩
  recorded same := (same.map Fault.isDecode).exists_eq
  started same depth label := same.map fun trace => trace.record "exec" depth label mode
  failed same fault depth label :=
    same.map₂ fault fun trace fault => trace.record "fail" depth label fault.message
  warned same text := same.map (text :: ·)

end Heaps

end WireProgram
