/-
**Tables of numbered cells.**

A table gives a value for every number, the default one where nothing was written. Writing beyond
its end extends it, so that reading back what was written needs no side condition:

* `Table.get_set` is the law of reading after writing;
* `Table.push` writes to the first free number, `Table.size`.
-/

namespace WireProgram

/-- A table of numbered cells. -/
structure Table (α : Type) where
  cells : Array α := #[]

namespace Table

variable {α : Type}

instance : Inhabited (Table α) := ⟨{}⟩

/-- The first number that was never written. -/
def size (table : Table α) : Nat :=
  table.cells.size

variable [Inhabited α]

/-- The value of a cell. -/
def get (table : Table α) (cell : Nat) : α :=
  table.cells.getD cell default

/-- Adds default cells up to a number. -/
def extend (cells : Array α) : Nat → Array α
  | 0 => cells
  | count + 1 => extend (cells.push default) count

/-- Writes a cell. -/
def set (table : Table α) (cell : Nat) (value : α) : Table α :=
  if cell < table.cells.size then ⟨table.cells.setIfInBounds cell value⟩
  else ⟨(extend table.cells (cell - table.cells.size)).push value⟩

/-- Changes a cell. -/
def modify (table : Table α) (cell : Nat) (change : α → α) : Table α :=
  table.set cell (change (table.get cell))

/-- Writes the first free cell. -/
def push (table : Table α) (value : α) : Table α :=
  ⟨table.cells.push value⟩

/-! ### Reading after writing -/

theorem size_extend (cells : Array α) (count : Nat) :
    (extend cells count).size = cells.size + count := by
  induction count generalizing cells with
  | zero => rfl
  | succ count hypothesis => rw [extend, hypothesis, Array.size_push]; omega

theorem getD_extend (cells : Array α) (count cell : Nat) :
    (extend cells count).getD cell default = cells.getD cell default := by
  induction count generalizing cells with
  | zero => rfl
  | succ count hypothesis =>
    rw [extend, hypothesis]
    simp only [Array.getD_eq_getD_getElem?, Array.getElem?_push]
    by_cases last : cell = cells.size
    · simp [last]
    · simp [last]

/-- A written cell reads as what was written, every other one as before. -/
theorem get_set (table : Table α) (cell other : Nat) (value : α) :
    (table.set cell value).get other = if other = cell then value else table.get other := by
  unfold set get
  split
  · rename_i inside
    by_cases same : other = cell
    · subst same
      simp [inside]
    · simp [same, Array.getElem?_setIfInBounds_ne (Ne.symm same)]
  · rename_i outside
    have reached : (extend table.cells (cell - table.cells.size)).size = cell := by
      rw [size_extend]; omega
    by_cases same : other = cell
    · subst same
      simp only [Array.getD_eq_getD_getElem?, Array.getElem?_push, reached]
      simp
    · have kept := getD_extend table.cells (cell - table.cells.size) other
      simp only [Array.getD_eq_getD_getElem?] at kept ⊢
      simp [Array.getElem?_push, reached, same, kept]

theorem get_set_self (table : Table α) (cell : Nat) (value : α) :
    (table.set cell value).get cell = value := by
  rw [get_set, if_pos rfl]

/-- A new cell reads as what was written. -/
theorem get_push (table : Table α) (other : Nat) (value : α) :
    (table.push value).get other = if other = table.size then value else table.get other := by
  unfold push get size
  simp only [Array.getD_eq_getD_getElem?, Array.getElem?_push]
  split <;> rfl

theorem get_push_self (table : Table α) (value : α) :
    (table.push value).get table.size = value := by
  rw [get_push, if_pos rfl]

theorem get_push_old (table : Table α) (value : α) {cell : Nat} (inside : cell < table.size) :
    (table.push value).get cell = table.get cell := by
  rw [get_push, if_neg (Nat.ne_of_lt inside)]

/-- A cell beyond the end reads as the default. -/
theorem get_of_size_le (table : Table α) {cell : Nat} (outside : table.size ≤ cell) :
    table.get cell = default := by
  unfold get size at *
  rw [Array.getD_eq_getD_getElem?, Array.getElem?_eq_none outside, Option.getD_none]

/-! ### Sizes -/

theorem size_set (table : Table α) (cell : Nat) (value : α) (inside : cell < table.size) :
    (table.set cell value).size = table.size := by
  unfold set
  rw [if_pos (show cell < table.cells.size from inside)]
  exact Array.size_setIfInBounds

/-- Writing beyond the end extends a table up to the cell. -/
theorem size_set_eq_max (table : Table α) (cell : Nat) (value : α) :
    (table.set cell value).size = max table.size (cell + 1) := by
  unfold set size
  split
  · rw [Array.size_setIfInBounds]
    omega
  · rw [Array.size_push, size_extend]
    omega

theorem size_le_set (table : Table α) (cell : Nat) (value : α) :
    table.size ≤ (table.set cell value).size := by
  rw [size_set_eq_max]
  exact Nat.le_max_left _ _

/-- A cell and its namesake are written in two tables, the second one having the cells under other
numbers: then the free cells still correspond. -/
theorem next_set {β : Type} [Inhabited β] {table : Table α} {table' : Table β} {shift : Nat → Nat}
    (injective : ∀ cell other, shift cell = shift other → cell = other)
    (next : ∀ more, shift (table.size + more) = table'.size + more) (cell : Nat) (value : α)
    (value' : β) (more : Nat) :
    shift ((table.set cell value).size + more) = (table'.set (shift cell) value').size + more := by
  rw [size_set_eq_max, size_set_eq_max]
  rcases Nat.lt_or_ge cell table.size with inside | outside
  · have inside' : shift cell < table'.size := by
      rcases Nat.lt_or_ge (shift cell) table'.size with less | beyond
      · exact less
      · have same := next (shift cell - table'.size)
        rw [Nat.add_sub_cancel' beyond] at same
        have there := injective _ _ same
        omega
    rw [Nat.max_eq_left inside, Nat.max_eq_left inside', next]
  · obtain ⟨beyond, rfl⟩ := Nat.exists_eq_add_of_le outside
    rw [next, show max table.size (table.size + beyond + 1) + more =
      table.size + (beyond + 1 + more) by omega, next]
    omega

omit [Inhabited α] in
theorem size_push (table : Table α) (value : α) : (table.push value).size = table.size + 1 :=
  Array.size_push value

omit [Inhabited α] in
theorem size_lt_push (table : Table α) (value : α) : table.size < (table.push value).size := by
  rw [size_push]
  exact Nat.lt_succ_self _

/-- A table is given by its size and its cells. -/
theorem ext_get {table other : Table α} (size : table.size = other.size)
    (same : ∀ cell, table.get cell = other.get cell) : table = other := by
  obtain ⟨cells⟩ := table
  obtain ⟨others⟩ := other
  have all : cells = others := by
    refine Array.ext size fun cell inside inside' => ?_
    have here := same cell
    unfold get at here
    rwa [Array.getD_eq_getD_getElem?, Array.getD_eq_getD_getElem?,
      Array.getElem?_eq_getElem inside, Array.getElem?_eq_getElem inside'] at here
  rw [all]

/-- Writing what was there changes nothing. -/
theorem set_get (table : Table α) (cell : Nat) (inside : cell < table.size) :
    table.set cell (table.get cell) = table := by
  refine ext_get (size_set _ _ _ inside) fun other => ?_
  rw [get_set]
  split
  · rename_i same
    rw [same]
  · rfl

/-- What is written last stays. -/
theorem set_set (table : Table α) (cell : Nat) (first last : α) :
    (table.set cell first).set cell last = table.set cell last := by
  refine ext_get ?_ fun other => ?_
  · rw [size_set_eq_max, size_set_eq_max, size_set_eq_max]
    omega
  · rw [get_set, get_set, get_set]
    split <;> rfl

/-- Changing a new cell is writing another value. -/
theorem modify_push (table : Table α) (value : α) (change : α → α) :
    (table.push value).modify table.size change = table.push (change value) := by
  unfold modify
  rw [get_push_self]
  have inside : table.size < (table.push value).size := by
    rw [size_push]
    exact Nat.lt_succ_self _
  refine ext_get ?_ fun other => ?_
  · rw [size_set _ _ _ inside, size_push, size_push]
  · rw [get_set, get_push, get_push]
    split <;> rfl

end Table

end WireProgram
