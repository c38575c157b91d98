import Mathlib.Data.List.TakeWhile
import Mathlib.Order.Bounds.Basic
import PocketCalc.Proofs.Literal.Spoiling

/-! The number at an offset in a line. Where a digit or a dot stands there, all of them in a row are
read, and make up a literal or hold a first key that spoils it. Where none does, nothing is read. -/

namespace PocketCalc

/-- The key has no place in a literal behind the keys before it: it is a digit above nine, or a
second dot. -/
def Misplaced (keys : List Key) (index : Nat) : Prop :=
  (∃ n, 9 < n ∧ keys[index]? = some (.digit n)) ∨ keys[index]? = some .dot ∧ .dot ∈ keys.take index

theorem IsLiteral.not_misplaced {keys : List Key} (h : IsLiteral keys) (index : Nat) :
    ¬ Misplaced keys index := by
  rintro (⟨n, hn, hkey⟩ | ⟨hkey, hdot⟩)
  · have hliteral := Key.isLiteralKey_digit.mp (h.keys_literal _ (List.mem_of_getElem? hkey))
    omega
  · -- one dot is before the key, and the key is another one
    have hlater : Key.dot ∈ keys.drop index := by
      rw [List.mem_iff_getElem?]
      exact ⟨0, by rwa [List.getElem?_drop]⟩
    have hcount := h.count_dot_le
    rw [← List.take_append_drop index keys, List.count_append] at hcount
    have hbefore := List.count_pos_iff.mpr hdot
    have hbehind := List.count_pos_iff.mpr hlater
    omega

theorem not_misplaced_loneDot (index : Nat) : ¬ Misplaced [.dot] index := by
  cases index with
  | zero => simp [Misplaced]
  | succ index => simp [Misplaced]

namespace Literal

/-! ## The row of digits and dots -/

/-- What follows the digits and dots at the head of a row is not looked at. -/
theorem extend_takeWhile (literal : Literal) (keys : List Key) :
    literal.extend (keys.takeWhile Key.isNumeric) = literal.extend keys := by
  fun_induction extend literal keys with
  | case1 literal n rest hn ih =>
      rw [List.takeWhile_cons_of_pos rfl, extend, if_pos hn, ih]
  | case2 literal n rest hn => rw [List.takeWhile_cons_of_pos rfl, extend, if_neg hn]
  | case3 literal rest hdotted => rw [List.takeWhile_cons_of_pos rfl, extend, if_pos hdotted]
  | case4 literal rest hdotted ih =>
      rw [List.takeWhile_cons_of_pos rfl, extend, if_neg hdotted, ih]
  | case5 keys literal hdigit hdot =>
      cases keys with
      | nil => rfl
      | cons key rest =>
          cases key with
          | digit n => exact (hdigit n rest rfl).elim
          | dot => exact (hdot rest rfl).elim
          | _ => rfl

theorem read_takeWhile (keys : List Key) : read (keys.takeWhile Key.isNumeric) = read keys := by
  simp only [read, extend_takeWhile]

variable {literal result : Literal} {keys : List Key} {index : Nat}

/-- Digits and dots are read to the last of them. -/
theorem width_of_extend_numeric (hkeys : ∀ key ∈ keys, key.isNumeric = true)
    (h : literal.extend keys = .ok result) : result.width = literal.width + keys.length := by
  fun_induction extend literal keys with
  | case1 literal n rest _ ih | case4 literal rest _ ih =>
      have hrest := ih (List.forall_mem_cons.mp hkeys).2 h
      simp only [appendDigit, appendDot] at hrest
      rw [hrest, List.length_cons]
      omega
  | case2 | case3 => cases h
  | case5 keys literal hdigit hdot =>
      cases h
      cases keys with
      | nil => rfl
      | cons key rest =>
          have hkey := (List.forall_mem_cons.mp hkeys).1
          cases key with
          | digit n => exact (hdigit n rest rfl).elim
          | dot => exact (hdot rest rfl).elim
          | _ => cases hkey

theorem width_of_read_numeric (hkeys : ∀ key ∈ keys, key.isNumeric = true)
    (h : read keys = .ok literal) : literal.width = keys.length := by
  unfold read at h
  split at h
  · next found hfound =>
      split at h <;> cases h
      simpa using width_of_extend_numeric hkeys hfound
  · cases h

/-- The key that reading stops at is the first one that has no place. -/
theorem isLeast_misplaced_of_extend (h : extend {} keys = .error index) :
    IsLeast {place | Misplaced keys place} index := by
  obtain ⟨taken, key, rest, rfl, hindex, htaken, hdots, hkey⟩ := extend_eq_error h
  obtain rfl : index = taken.length := hindex.trans (Nat.zero_add _)
  constructor
  · obtain ⟨n, hn, rfl⟩ | ⟨rfl, hdotted | hdot⟩ := hkey
    · exact .inl ⟨n, hn, by simp⟩
    · cases hdotted
    · exact .inr ⟨by simp, by simpa using hdot⟩
  · intro place (hplace : Misplaced (taken ++ key :: rest) place)
    by_contra hlt
    -- an earlier key would be one of those that have been taken
    have htake : (taken ++ key :: rest).take place = taken.take place :=
      List.take_append_of_le_length (by omega)
    have hget : (taken ++ key :: rest)[place]? = taken[place]? :=
      List.getElem?_append_left (by omega)
    rw [Misplaced, htake, hget] at hplace
    obtain ⟨n, hn, hdigit⟩ | ⟨hdot, hbefore⟩ := hplace
    · have hliteral := Key.isLiteralKey_digit.mp (htaken _ (List.mem_of_getElem? hdigit))
      omega
    · have hsplit : taken = taken.take place ++ .dot :: taken.drop (place + 1) := by
        obtain ⟨hbound, hvalue⟩ := List.getElem?_eq_some_iff.mp hdot
        rw [← hvalue, ← List.drop_eq_getElem_cons hbound, List.take_append_drop]
      have hcount := List.count_pos_iff.mpr hbefore
      rw [hsplit, List.count_append, List.count_cons_self] at hdots
      omega

/-- Digits and dots cannot be read as a literal for the first one that has no place among them, or
because they are a dot alone. -/
theorem read_eq_error_iff (hkeys : ∀ key ∈ keys, key.isNumeric = true) (hne : keys ≠ []) :
    read keys = .error index ↔
      IsLeast {place | Misplaced keys place} index ∨ keys = [.dot] ∧ index = 0 := by
  have hreason : ∀ index, read keys = .error index →
      IsLeast {place | Misplaced keys place} index ∨ keys = [.dot] ∧ index = 0 := by
    intro index h
    unfold read at h
    split at h
    · next found hfound =>
        split at h <;> cases h
        next hdigit =>
        cases keys with
        | nil => exact absurd rfl hne
        | cons key rest =>
            obtain ⟨hkey, hrest⟩ := List.forall_mem_cons.mp hkeys
            obtain ⟨rfl, hnext⟩ := loneDot_of_extend hkey hfound (by simpa using hdigit)
            cases rest with
            | nil => exact .inr ⟨rfl, rfl⟩
            | cons next rest =>
                have hnumeric := (List.forall_mem_cons.mp hrest).1
                rw [hnext next rfl] at hnumeric
                cases hnumeric
    · next place hplace =>
        cases h
        exact .inl (isLeast_misplaced_of_extend hplace)
  refine ⟨hreason index, fun h => ?_⟩
  cases hread : read keys with
  | ok literal =>
      have hliteral : IsLiteral keys :=
        (read_eq_ok_iff keys).mp ⟨literal, hread, width_of_read_numeric hkeys hread⟩
      obtain hleast | ⟨rfl, _⟩ := h
      · exact absurd hleast.1 (hliteral.not_misplaced index)
      · obtain ⟨n, hn⟩ := hliteral.exists_digit
        cases List.mem_singleton.mp hn
  | error place =>
      obtain hplace | ⟨rfl, rfl⟩ := hreason place hread
      · obtain hleast | ⟨rfl, _⟩ := h
        · rw [hplace.unique hleast]
        · exact absurd hplace.1 (not_misplaced_loneDot place)
      · obtain hleast | ⟨_, rfl⟩ := h
        · exact absurd hleast.1 (not_misplaced_loneDot index)
        · rfl

end Literal

namespace Line

/-- The digits and dots from an offset on, up to the first other key. -/
def numericRun (line : Line) (offset : Nat) : List Key := (line.drop offset).takeWhile Key.isNumeric

/-- Reads the number at an offset: its value or what is wrong with it, and the offset afterwards. A
number that cannot be read leaves the offset where it was. -/
def readNumber (line : Line) (offset : Nat) : Except Fault Float × Nat :=
  match line.numberAt offset with
  | .ok (value, stop) => (.ok value, stop)
  | .error fault => (.error fault, offset)

variable {keys : Line} {offset : Nat}

theorem isNumeric_of_mem_numericRun : ∀ key ∈ keys.numericRun offset, key.isNumeric = true :=
  fun _ hkey => List.mem_takeWhile_imp hkey

theorem readNumber_of_not_isNumeric (h : ∀ key ∈ keys[offset]?, key.isNumeric = false) :
    keys.readNumber offset = (.ok 0.0, offset) := by
  cases hdrop : keys.drop offset with
  | nil => simp only [readNumber, numberAt, hdrop]
  | cons key rest =>
      have hkey : keys[offset]? = some key := by
        rw [← List.head?_drop, hdrop, List.head?_cons]
      simp [readNumber, numberAt, hdrop, h key hkey]

/-- Where a digit or a dot stands, a number is read from the digits and dots in a row. -/
theorem readNumber_of_isNumeric (h : ∃ key ∈ keys[offset]?, key.isNumeric = true) :
    keys.numericRun offset ≠ [] ∧
      keys.readNumber offset =
        match Literal.read (keys.numericRun offset) with
        | .ok literal => (.ok literal.value, offset + literal.width)
        | .error index => (.error (.malformed .number (offset + index)), offset) := by
  obtain ⟨key, hkey, hnumeric⟩ := h
  obtain ⟨rest, hdrop⟩ : ∃ rest, keys.drop offset = key :: rest :=
    List.head?_eq_some_iff.mp (List.head?_drop.trans hkey)
  have hread := Literal.read_takeWhile (keys.drop offset)
  rw [← numericRun, hdrop] at hread
  constructor
  · simp [numericRun, hdrop, hnumeric]
  · simp only [readNumber, numberAt, hdrop, hnumeric, if_true, hread]
    cases Literal.read (key :: rest) <;> rfl

/-- A number is read where the digits and dots make up a literal, and they are all passed over. -/
theorem readNumber_eq_ok_iff (h : ∃ key ∈ keys[offset]?, key.isNumeric = true) (stop : Nat) :
    (∃ value, keys.readNumber offset = (.ok value, stop)) ↔
      IsLiteral (keys.numericRun offset) ∧ stop = offset + (keys.numericRun offset).length := by
  rw [(readNumber_of_isNumeric h).2, ← Literal.read_eq_ok_iff]
  constructor
  · rintro ⟨value, hvalue⟩
    cases hread : Literal.read (keys.numericRun offset) with
    | ok literal =>
        have hwidth := Literal.width_of_read_numeric isNumeric_of_mem_numericRun hread
        rw [hread] at hvalue
        cases hvalue
        exact ⟨⟨literal, rfl, hwidth⟩, by rw [hwidth]⟩
    | error index =>
        rw [hread] at hvalue
        cases hvalue
  · rintro ⟨⟨literal, hread, hwidth⟩, rfl⟩
    exact ⟨literal.value, by rw [hread, ← hwidth]⟩

/-- A number cannot be read where one of the digits and dots is misplaced, or a dot is alone. -/
theorem readNumber_eq_error_iff (h : ∃ key ∈ keys[offset]?, key.isNumeric = true) (fault : Fault)
    (stop : Nat) :
    keys.readNumber offset = (.error fault, stop) ↔
      stop = offset ∧ ∃ index, fault = .malformed .number (offset + index) ∧
        (IsLeast {place | Misplaced (keys.numericRun offset) place} index ∨
          keys.numericRun offset = [.dot] ∧ index = 0) := by
  obtain ⟨hne, hnumber⟩ := readNumber_of_isNumeric h
  simp only [hnumber, ← Literal.read_eq_error_iff isNumeric_of_mem_numericRun hne]
  constructor
  · intro hfault
    cases hread : Literal.read (keys.numericRun offset) with
    | ok literal =>
        rw [hread] at hfault
        cases hfault
    | error index =>
        rw [hread] at hfault
        cases hfault
        exact ⟨rfl, index, rfl, rfl⟩
  · rintro ⟨rfl, index, rfl, hread⟩
    rw [hread]

/-- Where neither a digit nor a dot stands, zero is read and nothing is passed over. Otherwise the
digits and dots in a row are passed over if they make up a literal. If they do not, the fault is at
the first of them that has no place there, or at a dot that stands alone, and nothing is passed
over. -/
theorem readNumber_numericRun (keys : Line) (offset : Nat) :
    ((∀ key ∈ keys[offset]?, key.isNumeric = false) → keys.readNumber offset = (.ok 0.0, offset)) ∧
      ((∃ key ∈ keys[offset]?, key.isNumeric = true) →
        (∀ stop, (∃ value, keys.readNumber offset = (.ok value, stop)) ↔
          IsLiteral (keys.numericRun offset) ∧
            stop = offset + (keys.numericRun offset).length) ∧
        ∀ fault stop, keys.readNumber offset = (.error fault, stop) ↔
          stop = offset ∧ ∃ index, fault = .malformed .number (offset + index) ∧
            (IsLeast {place | Misplaced (keys.numericRun offset) place} index ∨
              keys.numericRun offset = [.dot] ∧ index = 0)) :=
  ⟨readNumber_of_not_isNumeric, fun h => ⟨readNumber_eq_ok_iff h, readNumber_eq_error_iff h⟩⟩

/-- The second dot spoils `1.2.` before the digit twelve behind it does. -/
theorem readNumber_second_dot :
    (∃ key ∈ [Key.digit 1, .dot, .digit 2, .dot, .digit 12, .operator .add][0]?,
        key.isNumeric = true) ∧
      Line.readNumber [.digit 1, .dot, .digit 2, .dot, .digit 12, .operator .add] 0 =
        (.error (.malformed .number 3), 0) ∧
      IsLeast {place | Misplaced [.digit 1, .dot, .digit 2, .dot, .digit 12] place} 3 := by
  have hfirst : ∃ key ∈ [Key.digit 1, .dot, .digit 2, .dot, .digit 12, .operator .add][0]?,
      key.isNumeric = true := ⟨.digit 1, rfl, rfl⟩
  have hfault : Line.readNumber [.digit 1, .dot, .digit 2, .dot, .digit 12, .operator .add] 0 =
      (.error (.malformed .number 3), 0) := rfl
  obtain ⟨_, hnumber⟩ :=
    readNumber_numericRun [.digit 1, .dot, .digit 2, .dot, .digit 12, .operator .add] 0
  obtain ⟨_, index, hindex, hleast | ⟨hdot, _⟩⟩ := ((hnumber hfirst).2 _ _).mp hfault
  · obtain rfl : 3 = index := by simpa using hindex
    exact ⟨hfirst, hfault, hleast⟩
  · cases hdot

end Line
end PocketCalc
