import PocketCalc.Literal

/-! Which rows of keys are literals from their first key to their last. -/

namespace PocketCalc

/-- A digit that has a key cap, or a dot. -/
def Key.IsLiteralKey (key : Key) : Prop := key = .dot ∨ ∃ n ≤ 9, key = .digit n

/-- Digits up to nine with one dot among them at most, and not a dot alone. -/
structure IsLiteral (keys : List Key) : Prop where
  keys_literal : ∀ key ∈ keys, key.IsLiteralKey
  count_dot_le : keys.count .dot ≤ 1
  exists_digit : ∃ n, Key.digit n ∈ keys

theorem Key.isLiteralKey_digit {n : Nat} : (Key.digit n).IsLiteralKey ↔ n ≤ 9 := by
  simp [IsLiteralKey]

theorem Key.isLiteralKey_dot : Key.dot.IsLiteralKey := .inl rfl

namespace Literal

/-- Reading on fails at a key that has no place in a literal. -/
theorem shape_of_extend {literal result : Literal} {keys : List Key}
    (h : literal.extend keys = .ok result)
    (hw : result.width = literal.width + keys.length) :
    (∀ key ∈ keys, key.IsLiteralKey) ∧
      result.dotted.toNat = literal.dotted.toNat + keys.count .dot := by
  fun_induction extend literal keys with
  | case1 literal n keys hn ih =>
      simp only [appendDigit, List.length_cons] at ih hw
      obtain ⟨hkeys, hdotted⟩ := ih h (by omega)
      constructor
      · simpa [Key.isLiteralKey_digit, hn] using hkeys
      · simpa using hdotted
  | case2 => cases h
  | case3 => cases h
  | case4 literal keys hd ih =>
      simp only [appendDot, List.length_cons] at ih hw
      obtain ⟨hkeys, hdotted⟩ := ih h (by omega)
      constructor
      · simpa [Key.isLiteralKey_dot] using hkeys
      · simp only [hdotted, hd, List.count_cons_self, Bool.toNat_true, Bool.toNat_false]
        omega
  | case5 keys literal =>
      cases h
      have hnil : keys = [] := List.length_eq_zero_iff.mp (by omega)
      simp [hnil]

/-- Reading on takes all keys if each has a place in a literal. -/
theorem extend_of_shape (literal : Literal) {keys : List Key}
    (hkeys : ∀ key ∈ keys, key.IsLiteralKey)
    (hdots : literal.dotted.toNat + keys.count .dot ≤ 1) :
    ∃ result, literal.extend keys = .ok result ∧
      result.width = literal.width + keys.length ∧
        result.dotted.toNat = literal.dotted.toNat + keys.count .dot := by
  fun_induction extend literal keys with
  | case1 literal n keys hn ih =>
      simp only [List.forall_mem_cons] at hkeys
      obtain ⟨result, he, hw, hd⟩ := ih hkeys.2 (by simpa [appendDigit] using hdots)
      simp only [appendDigit] at hw hd
      refine ⟨result, he, ?_, by simpa using hd⟩
      simp only [hw, List.length_cons]
      omega
  | case2 literal n keys hn =>
      simp only [List.forall_mem_cons, Key.isLiteralKey_digit] at hkeys
      exact (hn hkeys.1).elim
  | case3 literal keys hd =>
      simp only [hd, List.count_cons_self, Bool.toNat_true] at hdots
      omega
  | case4 literal keys hd ih =>
      simp only [List.forall_mem_cons, List.count_cons_self] at hkeys hdots
      have hroom : literal.appendDot.dotted.toNat + keys.count .dot ≤ 1 := by
        simp only [appendDot, Bool.toNat_true]
        omega
      obtain ⟨result, he, hw, hdotted⟩ := ih hkeys.2 hroom
      simp only [appendDot, Bool.toNat_true] at hw hdotted
      refine ⟨result, he, ?_, ?_⟩
      · simp only [hw, List.length_cons]
        omega
      · simp only [Bool.not_eq_true] at hd
        simp only [hdotted, hd, List.count_cons_self, Bool.toNat_false]
        omega
  | case5 keys literal hdigit hdot =>
      cases keys with
      | nil => exact ⟨literal, rfl, rfl, rfl⟩
      | cons key keys =>
          rcases (List.forall_mem_cons.mp hkeys).1 with rfl | ⟨n, _, rfl⟩
          · exact (hdot keys rfl).elim
          · exact (hdigit n keys rfl).elim

/-- Where all keys are digits and dots, a key is a digit unless every key is a dot. -/
theorem count_dot_lt_length_iff {keys : List Key} (h : ∀ key ∈ keys, key.IsLiteralKey) :
    keys.count .dot < keys.length ↔ ∃ n, Key.digit n ∈ keys := by
  constructor
  · intro hlt
    have hne : ¬ ∀ key ∈ keys, Key.dot = key := fun hall =>
      Nat.ne_of_lt hlt (List.count_eq_length.mpr hall)
    simp only [Classical.not_forall] at hne
    obtain ⟨key, hmem, hdot⟩ := hne
    rcases h key hmem with rfl | ⟨n, _, rfl⟩
    · exact (hdot rfl).elim
    · exact ⟨n, hmem⟩
  · rintro ⟨n, hmem⟩
    refine Nat.lt_of_le_of_ne List.count_le_length fun heq => ?_
    cases List.count_eq_length.mp heq _ hmem

/-- A row is read as one literal exactly if it has the shape of one. -/
theorem read_eq_ok_iff (keys : List Key) :
    (∃ literal, read keys = .ok literal ∧ literal.width = keys.length) ↔ IsLiteral keys := by
  constructor
  · rintro ⟨literal, hr, hw⟩
    unfold read at hr
    split at hr
    · rename_i result he
      split at hr
      · rename_i hd
        cases hr
        obtain ⟨hkeys, hdotted⟩ := shape_of_extend he (by simpa using hw)
        simp only [Bool.toNat_false, Nat.zero_add] at hdotted
        simp only [hasDigit, hdotted, hw, decide_eq_true_eq] at hd
        refine ⟨hkeys, ?_, (count_dot_lt_length_iff hkeys).mp hd⟩
        rw [← hdotted]
        exact Bool.toNat_le _
      · cases hr
    · cases hr
  · rintro ⟨hkeys, hdots, hdigit⟩
    obtain ⟨literal, he, hw, hdotted⟩ := extend_of_shape {} hkeys (by simpa using hdots)
    simp only [Bool.toNat_false, Nat.zero_add] at hw hdotted
    have hd : literal.hasDigit = true := by
      simpa [hasDigit, hdotted, hw] using (count_dot_lt_length_iff hkeys).mpr hdigit
    exact ⟨literal, by simp only [read, he, hd, if_true], hw⟩

end Literal
end PocketCalc
