import PocketCalc.Memory
import PocketCalc.Proofs.Key.Spelling

/-! The cells of a memory by their positions, and what the operations of a memory do to them. -/

namespace PocketCalc.Memory

variable {memory next : Memory} {name : Char} {index : Int} {value : Float}

/-- A store changes the cell at its position and no other. -/
theorem cells_of_store? (h : memory.store? name index value = some next) (position : Nat) :
    next.cells[position]? =
      if position? name index = some position then some value else memory.cells[position]? := by
  simp only [store?, Option.bind_eq_some_iff] at h
  obtain ⟨stored, hposition, h⟩ := h
  split at h
  · cases h
    simp only [hposition, Option.some.injEq, Array.getElem?_set]
  · cases h

/-- The position of a named cell, with the first one at zero. -/
theorem position?_zero (hname : 'A' ≤ name ∧ name ≤ 'Z') :
    ∃ position < namedCells, position? name 0 = some position := by
  have hletter := Key.toNat_of_isUpper ((Key.isUpper_iff name).mpr hname)
  have hA : 'A'.toNat = 65 := rfl
  refine ⟨name.toNat - 65, by simp only [namedCells]; omega, ?_⟩
  rw [position?, if_pos hname]
  simp

/-- A cell is there if its position is in the memory. -/
theorem isSome_cell?_iff (memory : Memory) (name : Char) (index : Int) :
    (memory.cell? name index).isSome ↔
      ∃ position < memory.size, position? name index = some position := by
  cases hposition : position? name index <;> simp [cell?, hposition, size]

/-- A value can be stored in the cells that are there. -/
theorem isSome_store?_iff (memory : Memory) (name : Char) (index : Int) (value : Float) :
    (memory.store? name index value).isSome ↔
      ∃ position < memory.size, position? name index = some position := by
  cases hposition : position? name index with
  | none => simp [store?, hposition]
  | some position =>
      by_cases hlt : position < memory.cells.size <;>
        simp [store?, hposition, size, hlt]

/-! ## Named cells -/

/-- All the cells that have names are there. -/
def HasNamedCells (memory : Memory) : Prop := namedCells ≤ memory.size

theorem HasNamedCells.isSome_cell? (h : memory.HasNamedCells) (hname : 'A' ≤ name ∧ name ≤ 'Z') :
    (memory.cell? name 0).isSome := by
  obtain ⟨position, hlt, hposition⟩ := position?_zero hname
  exact (isSome_cell?_iff memory name 0).mpr ⟨position, Nat.lt_of_lt_of_le hlt h, hposition⟩

theorem HasNamedCells.isSome_store? (h : memory.HasNamedCells) (hname : 'A' ≤ name ∧ name ≤ 'Z')
    (value : Float) : (memory.store? name 0 value).isSome := by
  obtain ⟨position, hlt, hposition⟩ := position?_zero hname
  exact (isSome_store?_iff memory name 0 value).mpr
    ⟨position, Nat.lt_of_lt_of_le hlt h, hposition⟩

/-- What a session does to a memory between the evaluations. -/
inductive Change where
  | extend (count : Nat)
  | store (name : Char) (index : Int) (value : Float)
  | clear
  deriving DecidableEq, Repr

/-- A store where there is no cell changes nothing. -/
def change (memory : Memory) : Change → Memory
  | .extend count => memory.extend count
  | .store name index value => (memory.store? name index value).getD memory
  | .clear => memory.clear

end PocketCalc.Memory
