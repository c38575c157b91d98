/-! The variable memory: a row of cells, the first of which have the names `A` to `Z`. Cells after
`Z` exist only where the memory was extended, and are reached by counting on from a named cell. -/

namespace PocketCalc

def namedCells : Nat := 26

/-- The cells are counted in words of 64 bits, and there is no word for this number. -/
def wordLimit : Nat := 0x10000000000000000

structure Memory where
  cells : Array Float := Array.replicate namedCells 0.0

namespace Memory

def size (memory : Memory) : Nat := memory.cells.size

def isEmpty (memory : Memory) : Bool := memory.cells.isEmpty

/-- The number of the cell `index` places after the cell with the given name. Only capital letters
are names, and no cell comes before `A`. -/
def position? (name : Char) (index : Int) : Option Nat :=
  if 'A' ≤ name ∧ name ≤ 'Z' then
    let position := (name.toNat - 'A'.toNat : Nat) + index
    if 0 ≤ position then some position.toNat else none
  else none

/-- What the cell `index` places after a named cell holds, if there is such a cell. -/
def cell? (memory : Memory) (name : Char) (index : Int) : Option Float :=
  (position? name index).bind fun position => memory.cells[position]?

/-- The memory with a new value in one cell, if there is such a cell. -/
def store? (memory : Memory) (name : Char) (index : Int) (value : Float) : Option Memory :=
  (position? name index).bind fun position =>
    if h : position < memory.cells.size then some ⟨memory.cells.set position value h⟩ else none

/-- The value of a variable; other names count as zero. -/
def value (memory : Memory) (name : Char) : Float := (memory.cell? name 0).getD 0.0

/-- Adds cells at the end. The new number of cells is a word: where the sum is too large for one, it
starts again at zero, and the memory is cut to what is left. -/
def extend (memory : Memory) (count : Nat) : Memory :=
  let size := (memory.size + count) % wordLimit
  ⟨memory.cells.extract 0 size ++ Array.replicate (size - memory.size) 0.0⟩

/-- The named cells hold zero again, and no others are left. -/
def clear (_ : Memory) : Memory := {}

@[simp] theorem size_new : ({} : Memory).size = namedCells := by
  simp [size]

@[simp] theorem size_extend (memory : Memory) (count : Nat) :
    (memory.extend count).size = (memory.size + count) % wordLimit := by
  simp only [extend, size, Array.size_append, Array.size_extract, Array.size_replicate]
  omega

/-- Where words can count the cells, none is lost. -/
theorem extend_of_lt {memory : Memory} {count : Nat} (h : memory.size + count < wordLimit) :
    memory.extend count = ⟨memory.cells ++ Array.replicate count 0.0⟩ := by
  have hkept : memory.cells.extract 0 (memory.size + count) = memory.cells :=
    Array.extract_eq_self_of_le (Nat.le_add_right _ _)
  rw [extend, Nat.mod_eq_of_lt h, hkept, Nat.add_sub_cancel_left]

theorem size_of_store? {memory next : Memory} {name : Char} {index : Int} {value : Float}
    (h : memory.store? name index value = some next) : next.size = memory.size := by
  simp only [store?, Option.bind_eq_some_iff] at h
  obtain ⟨position, _, h⟩ := h
  split at h
  · cases h
    simp [size]
  · cases h

end Memory
end PocketCalc
