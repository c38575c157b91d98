import PocketCalc.Proofs.Binary64.Rounding
import PocketCalc.Proofs.Literal.Number

/-! The value of a literal. Its digits make up a natural number, those behind the dot say by which
power of ten it is divided, and the literal stands for the quotient rounded to binary64, however
long it is. Zeros in front of the digits, or behind them and the dot, do not change the value. -/

namespace PocketCalc

/-- The digits of a row of keys. -/
def digits (keys : List Key) : List Nat :=
  keys.filterMap fun key => match key with
    | .digit n => some n
    | _ => none

/-- The natural number that the digits of a row spell. -/
def numeral (keys : List Key) : Nat := Nat.ofDigits 10 (digits keys).reverse

/-- How many digits stand behind the dot. -/
def decimalPlaces (keys : List Key) : Nat := (digits (keys.dropWhile (· ≠ .dot))).length

/-- The exact value that a row of digits and a dot spells. -/
def decimal (keys : List Key) : ℚ := numeral keys / 10 ^ decimalPlaces keys

variable {keys rest : List Key} {n : Nat}

@[simp] theorem digits_nil : digits [] = [] := rfl

@[simp] theorem digits_digit_cons : digits (.digit n :: keys) = n :: digits keys := rfl

@[simp] theorem digits_dot_cons : digits (.dot :: keys) = digits keys := rfl

@[simp] theorem digits_append (keys rest : List Key) :
    digits (keys ++ rest) = digits keys ++ digits rest :=
  List.filterMap_append

@[simp] theorem numeral_nil : numeral [] = 0 := rfl

@[simp] theorem numeral_dot_cons : numeral (.dot :: keys) = numeral keys := rfl

theorem numeral_append (keys rest : List Key) :
    numeral (keys ++ rest) = numeral keys * 10 ^ (digits rest).length + numeral rest := by
  rw [numeral, digits_append, List.reverse_append, Nat.ofDigits_append, List.length_reverse,
    ← numeral, ← numeral]
  ring

theorem numeral_digit_cons :
    numeral (.digit n :: keys) = n * 10 ^ (digits keys).length + numeral keys := by
  rw [← List.singleton_append, numeral_append]
  simp [numeral]

@[simp] theorem decimalPlaces_nil : decimalPlaces [] = 0 := rfl

@[simp] theorem decimalPlaces_digit_cons : decimalPlaces (.digit n :: keys) = decimalPlaces keys :=
  rfl

@[simp] theorem decimalPlaces_dot_cons : decimalPlaces (.dot :: keys) = (digits keys).length := rfl

theorem decimal_nonneg (keys : List Key) : 0 ≤ decimal keys := by
  unfold decimal
  positivity

/-! ## Reading -/

/-- Reading on puts the digits behind those that have been read, and counts the ones behind the
dot. -/
theorem Literal.extend_numeral {literal result : Literal}
    (hkeys : ∀ key ∈ keys, key.isNumeric = true) (h : literal.extend keys = .ok result) :
    result.mantissa = literal.mantissa * 10 ^ (digits keys).length + numeral keys ∧
      result.places = literal.places +
        if literal.dotted then (digits keys).length else decimalPlaces keys := by
  fun_induction extend literal keys with
  | case1 literal n rest _ ih =>
      obtain ⟨hmantissa, hplaces⟩ := ih (List.forall_mem_cons.mp hkeys).2 h
      constructor
      · simp only [hmantissa, appendDigit, numeral_digit_cons, digits_digit_cons, List.length_cons]
        ring
      · rw [hplaces]
        cases hdotted : literal.dotted <;> simp [appendDigit, hdotted]
        omega
  | case2 | case3 => cases h
  | case4 literal rest hdotted ih =>
      obtain ⟨hmantissa, hplaces⟩ := ih (List.forall_mem_cons.mp hkeys).2 h
      refine ⟨hmantissa, ?_⟩
      simpa [appendDot, hdotted] using hplaces
  | case5 keys literal hdigit hdot =>
      cases h
      cases keys with
      | nil => simp
      | cons key rest =>
          have hkey := (List.forall_mem_cons.mp hkeys).1
          cases key with
          | digit n => exact (hdigit n rest rfl).elim
          | dot => exact (hdot rest rfl).elim
          | _ => cases hkey

/-- A literal stands for the binary64 number nearest to what it spells. -/
theorem Literal.isNearest_value {literal : Literal} (hkeys : ∀ key ∈ keys, key.isNumeric = true)
    (h : read keys = .ok literal) : Binary64.IsNearest (decimal keys) literal.value := by
  unfold read at h
  split at h
  · next found hfound =>
      split at h <;> cases h
      obtain ⟨hmantissa, hplaces⟩ := extend_numeral hkeys hfound
      have hnearest := Binary64.isNearest_nearest literal.mantissa
        (Nat.pow_pos (n := literal.places) (show 0 < 10 by decide))
      simpa [decimal, value, hmantissa, hplaces] using hnearest
  · cases h

/-! ## Zeros -/

/-- A row of zeros. -/
def zeros (count : Nat) : List Key := List.replicate count (.digit 0)

theorem zeros_succ (count : Nat) : zeros (count + 1) = .digit 0 :: zeros count :=
  List.replicate_succ

@[simp] theorem length_digits_zeros (count : Nat) : (digits (zeros count)).length = count := by
  induction count with
  | zero => rfl
  | succ count ih => rw [zeros_succ, digits_digit_cons, List.length_cons, ih]

@[simp] theorem numeral_zeros (count : Nat) : numeral (zeros count) = 0 := by
  induction count with
  | zero => rfl
  | succ count ih => rw [zeros_succ, numeral_digit_cons, ih, Nat.zero_mul]

/-- In front of the digits zeros do not count. -/
theorem decimal_zeros_append (count : Nat) (keys : List Key) :
    decimal (zeros count ++ keys) = decimal keys := by
  have hplaces : decimalPlaces (zeros count ++ keys) = decimalPlaces keys := by
    induction count with
    | zero => rfl
    | succ count ih => rw [zeros_succ, List.cons_append, decimalPlaces_digit_cons, ih]
  rw [decimal, hplaces, numeral_append, numeral_zeros, Nat.zero_mul, Nat.zero_add, decimal]

/-- Behind a dot each digit is one place more. -/
theorem decimalPlaces_append (h : .dot ∈ keys) (rest : List Key) :
    decimalPlaces (keys ++ rest) = decimalPlaces keys + (digits rest).length := by
  have hne : keys.dropWhile (· ≠ .dot) ≠ [] := by
    intro hnil
    simpa using List.dropWhile_eq_nil_iff.mp hnil _ h
  rw [decimalPlaces, List.dropWhile_append, if_neg (by simpa using hne), digits_append,
    List.length_append, decimalPlaces]

theorem decimal_append_zeros (h : .dot ∈ keys) (count : Nat) :
    decimal (keys ++ zeros count) = decimal keys := by
  rw [decimal, decimalPlaces_append h, numeral_append, numeral_zeros, length_digits_zeros, decimal,
    Nat.add_zero, pow_add, Nat.cast_mul, Nat.cast_pow, Nat.cast_ofNat, mul_div_mul_right]
  positivity

/-- Zeros around a literal leave it a literal. -/
theorem IsLiteral.zeros_append_zeros (h : IsLiteral keys) (before behind : Nat) :
    IsLiteral (zeros before ++ keys ++ zeros behind) := by
  have hzeros (count : Nat) : ∀ key ∈ zeros count, key = .digit 0 := fun _ =>
    List.eq_of_mem_replicate
  have hdots (count : Nat) : (zeros count).count .dot = 0 := by
    rw [List.count_eq_zero]
    intro hmem
    cases hzeros count _ hmem
  constructor
  · intro key hkey
    simp only [List.mem_append] at hkey
    obtain (hkey | hkey) | hkey := hkey
    · exact hzeros _ _ hkey ▸ Key.isLiteralKey_digit.mpr (by omega)
    · exact h.keys_literal key hkey
    · exact hzeros _ _ hkey ▸ Key.isLiteralKey_digit.mpr (by omega)
  · simpa [List.count_append, hdots] using h.count_dot_le
  · obtain ⟨n, hn⟩ := h.exists_digit
    exact ⟨n, by simp [hn]⟩

theorem decimal_zeros_append_zeros {before behind : Nat} (h : behind = 0 ∨ .dot ∈ keys) :
    decimal (zeros before ++ keys ++ zeros behind) = decimal keys := by
  obtain rfl | hdot := h
  · rw [show zeros 0 = [] from rfl, List.append_nil, decimal_zeros_append]
  · rw [decimal_append_zeros (List.mem_append_right _ hdot), decimal_zeros_append]

/-! ## The number in a line -/

namespace Line

variable {keys : Line} {offset : Nat}

/-- Where digits and dots make up a literal, its nearest number is read, and all of them are passed
over. -/
theorem readNumber_of_isLiteral (h : IsLiteral (keys.numericRun offset)) :
    ∃ value, keys.readNumber offset = (.ok value, offset + (keys.numericRun offset).length) ∧
      Binary64.IsNearest (decimal (keys.numericRun offset)) value := by
  have hfirst : ∃ key ∈ keys[offset]?, key.isNumeric = true := by
    obtain ⟨n, hn⟩ := h.exists_digit
    cases hdrop : keys.drop offset with
    | nil => simp [numericRun, hdrop] at hn
    | cons key rest =>
        refine ⟨key, by rw [← List.head?_drop, hdrop, List.head?_cons, Option.mem_some_iff], ?_⟩
        by_contra hkey
        simp [numericRun, hdrop, List.takeWhile_cons_of_neg hkey] at hn
  obtain ⟨literal, hread, hwidth⟩ := (Literal.read_eq_ok_iff _).mpr h
  refine ⟨literal.value, ?_, Literal.isNearest_value isNumeric_of_mem_numericRun hread⟩
  rw [(readNumber_of_isNumeric hfirst).2, hread, ← hwidth]

/-- A literal of any length is read as the binary64 number nearest to the decimal that it spells,
which is infinity from the middle between the largest finite number and `2^1024` on and zero up to
half of the smallest positive number, and has no sign. Zeros in front of it, or behind its dot and
the digits after it, make no difference. -/
theorem readNumber_isNearest (h : IsLiteral (keys.numericRun offset)) :
    ∃ value, keys.readNumber offset = (.ok value, offset + (keys.numericRun offset).length) ∧
      Binary64.IsNearest (decimal (keys.numericRun offset)) value ∧
      Binary64.isNaN value = false ∧
      (value = Binary64.infinity ↔ 2 ^ 1024 - 2 ^ 970 ≤ decimal (keys.numericRun offset)) ∧
      (value = 0.0 ↔ decimal (keys.numericRun offset) ≤ 1 / 2 ^ 1075) ∧
      ∀ (other : Line) (place before behind : Nat),
        (behind = 0 ∨ .dot ∈ keys.numericRun offset) →
        other.numericRun place = zeros before ++ keys.numericRun offset ++ zeros behind →
          (other.readNumber place).1 = .ok value := by
  obtain ⟨value, hread, hnearest⟩ := readNumber_of_isLiteral h
  refine ⟨value, hread, hnearest, hnearest.isNaN_eq, hnearest.eq_infinity_iff,
    hnearest.eq_zero_iff (decimal_nonneg _), ?_⟩
  intro other place before behind hbehind hother
  have hliteral : IsLiteral (other.numericRun place) := by
    rw [hother]
    exact h.zeros_append_zeros before behind
  obtain ⟨same, hsame, hsameNearest⟩ := readNumber_of_isLiteral hliteral
  rw [hother, decimal_zeros_append_zeros hbehind] at hsameNearest
  rw [hsame, hsameNearest.unique hnearest]

/-- The digits of `2^53 + 1` spell the middle between two numbers, and the even one is read. -/
theorem readNumber_isNearest_tie :
    let row := [9, 0, 0, 7, 1, 9, 9, 2, 5, 4, 7, 4, 0, 9, 9, 3].map Key.digit
    IsLiteral (Line.numericRun row 0) ∧
      Line.readNumber row 0 = (.ok (Float.ofBits 0x4340000000000000), 16) ∧
      Binary64.IsNearest 9007199254740993 (Float.ofBits 0x4340000000000000) := by
  intro row
  have hliteral : IsLiteral (Line.numericRun row 0) :=
    (Literal.read_eq_ok_iff _).mp ⟨_, rfl, rfl⟩
  have hfound : Line.readNumber row 0 = (.ok (Float.ofBits 0x4340000000000000), 16) := by
    decide +kernel
  have hdecimal : decimal (Line.numericRun row 0) = 9007199254740993 := by
    have hnumeral : numeral (Line.numericRun row 0) = 9007199254740993 := rfl
    have hplaces : decimalPlaces (Line.numericRun row 0) = 0 := rfl
    rw [decimal, hnumeral, hplaces, pow_zero, div_one, Nat.cast_ofNat]
  obtain ⟨value, hread, hnearest, _⟩ := readNumber_isNearest hliteral
  rw [hfound] at hread
  obtain rfl : Float.ofBits 0x4340000000000000 = value := by
    simp only [Nat.zero_add, Prod.mk.injEq, Except.ok.injEq] at hread
    exact hread.1
  rw [hdecimal] at hnearest
  exact ⟨hliteral, hfound, hnearest⟩

end Line
end PocketCalc
