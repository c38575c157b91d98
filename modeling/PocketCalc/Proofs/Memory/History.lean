import PocketCalc.Binary64.Integral
import PocketCalc.Proofs.Memory.Cells

/-! The memory as a bounded array. A name and an index count to a place, and many of them to the
same one. What stands there can be told from the history of the memory alone: how far it has been
extended, and what was last stored at the place, since it was cleared. All this holds as long as
words can count the cells; an extension beyond that loses cells, those with names among them. -/

namespace PocketCalc.Memory

/-- The place to which a name and an index count. There need be no cell. -/
def place (name : Char) (index : Int) : Int := (name.toNat : Int) - ('A'.toNat : Int) + index

/-- Among so many cells there is one with this name and index. -/
def IsCell (count : Nat) (name : Char) (index : Int) : Prop :=
  ('A' ≤ name ∧ name ≤ 'Z') ∧ 0 ≤ place name index ∧ place name index < count

instance (count : Nat) (name : Char) (index : Int) : Decidable (IsCell count name index) :=
  inferInstanceAs (Decidable (_ ∧ _ ∧ _))

def Change.isClear : Change → Bool
  | .clear => true
  | _ => false

/-- The cells that a change adds. -/
def Change.added : Change → Nat
  | .extend count => count
  | _ => 0

/-- The memory at the end of its history. The latest change comes first. -/
def after : List Change → Memory
  | [] => {}
  | change :: earlier => (after earlier).change change

/-- The number of the cells that there are after a history, if words can count them. -/
def extent (history : List Change) : Nat :=
  (history.takeWhile fun change => !change.isClear).foldr
    (fun change count => count + change.added) namedCells

/-- What was last stored at a place since the memory was cleared. A store counts if its cell was
there at that time. -/
def lastStored? (position : Int) : List Change → Option Float
  | [] | .clear :: _ => none
  | .extend _ :: earlier => lastStored? position earlier
  | .store name index value :: earlier =>
    if IsCell (extent earlier) name index ∧ place name index = position then some value
    else lastStored? position earlier

theorem extent_extend (count : Nat) (earlier : List Change) :
    extent (.extend count :: earlier) = extent earlier + count := rfl

theorem extent_store (name : Char) (index : Int) (value : Float) (earlier : List Change) :
    extent (.store name index value :: earlier) = extent earlier := rfl

/-- Extensions start from the cells with names. -/
theorem namedCells_le_extent (history : List Change) : namedCells ≤ extent history := by
  rw [extent]
  induction history.takeWhile fun change => !change.isClear with
  | nil => exact Nat.le_refl namedCells
  | cons change later ih => exact Nat.le_add_right_of_le ih

/-- Nothing has been stored beyond the cells that there are. -/
theorem lastStored?_eq_none {position : Int} {history : List Change}
    (h : extent history ≤ position) : lastStored? position history = none := by
  induction history with
  | nil => rfl
  | cons change earlier ih =>
      cases change with
      | clear => rfl
      | extend count =>
          rw [extent_extend] at h
          exact ih (by omega)
      | store name index value =>
          rw [extent_store] at h
          have hother : ¬ (IsCell (extent earlier) name index ∧ place name index = position) := by
            rintro ⟨⟨_, _, hlt⟩, rfl⟩
            omega
          rw [lastStored?, if_neg hother]
          exact ih h

/-- The position of a cell is the place to which its name and index count. -/
theorem position?_eq_some_iff {name : Char} {index : Int} {position : Nat} :
    position? name index = some position ↔
      ('A' ≤ name ∧ name ≤ 'Z') ∧ place name index = position := by
  by_cases hname : 'A' ≤ name ∧ name ≤ 'Z'
  · have hletter : 'A'.toNat ≤ name.toNat := hname.1
    simp only [position?, place, hname, true_and, if_true]
    split
    · simp only [Option.some.injEq]
      omega
    · simp only [reduceCtorEq, false_iff]
      omega
  · simp [position?, hname]

theorem isCell_iff {count : Nat} {name : Char} {index : Int} :
    IsCell count name index ↔ ∃ position < count, position? name index = some position := by
  simp only [IsCell, position?_eq_some_iff]
  constructor
  · rintro ⟨hname, hpos, hlt⟩
    exact ⟨(place name index).toNat, by omega, hname, by omega⟩
  · rintro ⟨position, hlt, hname, hplace⟩
    exact ⟨hname, by omega, by omega⟩

theorem size_change_store (memory : Memory) (name : Char) (index : Int) (value : Float) :
    (memory.change (.store name index value)).size = memory.size := by
  rw [change]
  cases hstore : memory.store? name index value with
  | none => rfl
  | some next => exact size_of_store? hstore

/-- A store is seen at its place, if there is a cell, and nowhere else. -/
theorem cells_change_store (memory : Memory) (name : Char) (index : Int) (value : Float)
    (position : Nat) :
    (memory.change (.store name index value)).cells[position]? =
      if IsCell memory.size name index ∧ place name index = position then some value
      else memory.cells[position]? := by
  rw [change]
  have hcell := isSome_store?_iff memory name index value
  rw [← isCell_iff] at hcell
  cases hstore : memory.store? name index value with
  | none =>
      rw [hstore] at hcell
      rw [if_neg fun h => absurd (hcell.mpr h.1) (by simp), Option.getD_none]
  | some next =>
      rw [hstore] at hcell
      have hthere : IsCell memory.size name index := hcell.mp rfl
      rw [Option.getD_some, cells_of_store? hstore]
      simp only [position?_eq_some_iff, hthere.1, hthere, true_and]

/-- A change leaves as many cells as the history tells. -/
theorem size_change {memory : Memory} {earlier : List Change}
    (hsize : extent earlier < wordLimit → memory.size = extent earlier) (change : Change)
    (h : extent (change :: earlier) < wordLimit) :
    (memory.change change).size = extent (change :: earlier) := by
  cases change with
  | clear => exact size_new
  | extend count =>
      rw [extent_extend] at h
      rw [Memory.change, size_extend, hsize (by omega), extent_extend, Nat.mod_eq_of_lt h]
  | store name index value => rw [size_change_store, hsize h, extent_store]

theorem size_after {history : List Change} (h : extent history < wordLimit) :
    (after history).size = extent history := by
  induction history with
  | nil => exact size_new
  | cons change earlier ih => exact size_change ih change h

/-- As long as words can count the cells, those with names stay. -/
theorem hasNamedCells_after {history : List Change} (h : extent history < wordLimit) :
    (after history).HasNamedCells := by
  rw [HasNamedCells, size_after h]
  exact namedCells_le_extent history

theorem cells_new (position : Nat) :
    ({} : Memory).cells[position]? = if position < namedCells then some 0.0 else none :=
  Array.getElem?_replicate

/-- Every cell holds what was last stored there. -/
theorem cells_after {history : List Change} (h : extent history < wordLimit) (position : Nat) :
    (after history).cells[position]? =
      if position < extent history then some ((lastStored? position history).getD 0.0)
      else none := by
  induction history with
  | nil => exact cells_new position
  | cons change earlier ih =>
      cases change with
      | clear => exact cells_new position
      | store name index value =>
          rw [extent_store] at h
          rw [after, cells_change_store, size_after h, ih h, extent_store, lastStored?]
          split
          · next hstored =>
              rw [Option.getD_some, if_pos]
              have hlt := hstored.1.2.2
              omega
          · rfl
      | extend count =>
          rw [extent_extend] at h
          have hearlier : extent earlier < wordLimit := by omega
          have hsize : (after earlier).cells.size = extent earlier := size_after hearlier
          have hadded : (after (.extend count :: earlier)).cells =
              (after earlier).cells ++ Array.replicate count 0.0 := by
            rw [after, Memory.change, extend_of_lt (by rwa [size_after hearlier])]
          rw [hadded, Array.getElem?_append, hsize, ih hearlier, extent_extend, lastStored?]
          by_cases hold : position < extent earlier
          · rw [if_pos hold, if_pos hold, if_pos (by omega)]
          · rw [if_neg hold, Array.getElem?_replicate, lastStored?_eq_none (by omega)]
            by_cases hnew : position < extent earlier + count
            · rw [if_pos (by omega), if_pos hnew, Option.getD_none]
            · rw [if_neg (by omega), if_neg hnew]

/-- A read gives what was last stored at the place, however it is named. -/
theorem cell?_eq {history : List Change} (h : extent history < wordLimit) (name : Char)
    (index : Int) : (after history).cell? name index =
      if IsCell (extent history) name index then
        some ((lastStored? (place name index) history).getD 0.0)
      else none := by
  by_cases hcell : IsCell (extent history) name index
  · obtain ⟨position, hlt, hposition⟩ := isCell_iff.mp hcell
    rw [if_pos hcell, cell?, hposition, Option.bind_some, cells_after h, if_pos hlt,
      (position?_eq_some_iff.mp hposition).2]
  · rw [if_neg hcell, ← Option.not_isSome_iff_eq_none, isSome_cell?_iff, size_after h,
      ← isCell_iff]
    exact hcell

/-! ## Counting in words -/

/-- The position of a cell as it is counted in signed words of 64 bits. A sum that no word holds is
no position. -/
def wordPosition? (name : Char) (index : Int64) : Option Nat :=
  if 'A' ≤ name ∧ name ≤ 'Z' then
    let letter := Int64.ofNat (name.toNat - 'A'.toNat)
    if letter.toBitVec.saddOverflow index.toBitVec then none
    else if letter + index < 0 then none
    else some (letter + index).toInt.toNat
  else none

/-- Words count to the same position as far as they go. -/
theorem wordPosition?_eq (name : Char) (index : Int64) :
    wordPosition? name index =
      (position? name index.toInt).filter fun position : Nat =>
        (position : Int) ≤ Binary64.largestIndex := by
  have hlargest : Binary64.largestIndex = 0x7FFFFFFFFFFFFFFF := rfl
  by_cases hname : 'A' ≤ name ∧ name ≤ 'Z'
  · have hletters := Key.toNat_of_isUpper ((Key.isUpper_iff name).mpr hname)
    have hletter : (Int64.ofNat (name.toNat - 'A'.toNat)).toInt =
        (name.toNat - 'A'.toNat : Nat) := Int64.toInt_ofNat_of_lt (by omega)
    have hlow := index.le_toInt
    simp only [wordPosition?, position?, if_pos hname]
    split
    · next hoverflow =>
        -- a letter counts forward, so that a sum can only be too large
        simp only [BitVec.saddOverflow, Int64.toInt_toBitVec, hletter, Bool.or_eq_true,
          decide_eq_true_eq] at hoverflow
        rw [if_pos (by omega), Option.filter_some, if_neg (by simp only [decide_eq_true_eq]; omega)]
    · next hoverflow =>
        have hsum := BitVec.toInt_add_of_not_saddOverflow hoverflow
        simp only [← Int64.toBitVec_add, Int64.toInt_toBitVec, hletter] at hsum
        have hhigh := (Int64.ofNat (name.toNat - 'A'.toNat) + index).toInt_lt
        rw [hsum] at hhigh
        simp only [Int64.lt_iff_toInt_lt, Int64.toInt_zero, hsum]
        by_cases hpos : 0 ≤ ((name.toNat - 'A'.toNat : Nat) : Int) + index.toInt
        · rw [if_neg (by omega), if_pos hpos, Option.filter_some,
            if_pos (by simp only [decide_eq_true_eq]; omega)]
        · rw [if_pos (by omega), if_neg hpos, Option.filter_none]
  · simp [wordPosition?, position?, hname]

/-- In a memory that words can count, an index that is a word counts to the same cell. -/
theorem bind_wordPosition? {α : Type} {memory : Memory}
    (hsize : memory.size ≤ Binary64.largestIndex)
    {visit : Nat → Option α} (hvisit : ∀ position, memory.size ≤ position → visit position = none)
    (name : Char) (index : Int64) :
    (wordPosition? name index).bind visit = (position? name index.toInt).bind visit := by
  rw [wordPosition?_eq]
  cases position? name index.toInt with
  | none => rfl
  | some position =>
      by_cases hword : (position : Int) ≤ Binary64.largestIndex
      · rw [Option.filter_some, if_pos (by simpa using hword)]
      · rw [Option.filter_some, if_neg (by simpa using hword), Option.bind_none, Option.bind_some,
          hvisit position (by omega)]

/-! ## The whole history -/

/-- After any history the memory is an array of so many cells, as long as words can count them. A
name and an index reach the cell at their place, which holds what was last stored there, or zero; a
value can be stored where one can be read, and a store elsewhere changes nothing. Counting in signed
words makes no difference to reads and stores, as long as those too can count the cells. -/
theorem after_boundedArray {history : List Change} (hcount : extent history < wordLimit) :
    (after history).size = extent history ∧
    (∀ name index, (after history).cell? name index =
      if IsCell (extent history) name index then
        some ((lastStored? (place name index) history).getD 0.0)
      else none) ∧
    (∀ name index value,
      ((after history).store? name index value).isSome =
        ((after history).cell? name index).isSome ∧
      ((after history).store? name index value = none →
        after (.store name index value :: history) = after history)) ∧
    (extent history ≤ Binary64.largestIndex → ∀ name (index : Int64),
      (wordPosition? name index).bind (fun position => (after history).cells[position]?) =
        (after history).cell? name index.toInt ∧
      ∀ value, (wordPosition? name index).bind (fun position =>
          if h : position < (after history).cells.size then
            some ⟨(after history).cells.set position value h⟩
          else none) = (after history).store? name index.toInt value) := by
  refine ⟨size_after hcount, cell?_eq hcount, fun name index value => ⟨?_, fun hnone => ?_⟩, ?_⟩
  · rw [Bool.eq_iff_iff, isSome_store?_iff, isSome_cell?_iff]
  · rw [after, change, hnone, Option.getD_none]
  · intro hsize name index
    rw [← size_after hcount] at hsize
    exact ⟨bind_wordPosition? hsize (fun _ => Array.getElem?_eq_none) name index, fun value =>
      bind_wordPosition? hsize (fun _ hend => dif_neg (Nat.not_lt.mpr hend)) name index⟩

/-- `A[27]` and `Z[2]` are one cell. A place beyond all words is no cell, and a memory that was
cleared has forgotten `B`. -/
theorem after_boundedArray_of_aliases :
    let aliased : List Change :=
      [.store 'A' 27 2.0, .store 'Z' 2 7.0, .extend 2, .clear, .store 'B' 0 5.0]
    extent aliased < wordLimit ∧
      (after aliased).cell? 'Z' 2 = some 2.0 ∧ (after aliased).cell? 'B' 0 = some 0.0 ∧
      (after [.extend 2]).store? 'Z' 3 1.0 = none ∧
      after [.store 'Z' 3 1.0, .extend 2] = after [.extend 2] ∧
      extent [.extend 2] ≤ Binary64.largestIndex ∧
      (wordPosition? 'B' Int64.maxValue).bind
          (fun position => (after [.extend 2]).cells[position]?) =
        (after [.extend 2]).cell? 'B' Int64.maxValue.toInt := by
  intro aliased
  have hcount : extent aliased < wordLimit := by decide
  have haliases := (after_boundedArray hcount).2.1
  have hextended : extent [.extend 2] < wordLimit := by decide
  obtain ⟨_, _, hstores, hwords⟩ := after_boundedArray hextended
  have hnone : (after [.extend 2]).store? 'Z' 3 1.0 = none := by
    rw [← Option.not_isSome_iff_eq_none, (hstores 'Z' 3 1.0).1, cell?_eq hextended]
    decide
  have hextent : extent [.extend 2] ≤ Binary64.largestIndex := by decide
  exact ⟨hcount, (haliases 'Z' 2).trans (by decide +kernel),
    (haliases 'B' 0).trans (by decide +kernel), hnone, (hstores 'Z' 3 1.0).2 hnone, hextent,
    (hwords hextent 'B' Int64.maxValue).1⟩

end PocketCalc.Memory
