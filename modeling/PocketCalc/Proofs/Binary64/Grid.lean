import Mathlib.Algebra.Order.Monoid.Unbundled.OrderDual
import Mathlib.Data.Nat.Dist
import Mathlib.Order.Monotone.Basic
import Mathlib.Tactic.Ring
import PocketCalc.Binary64.Nearest

/-! The numbers that are not negative, in the order of their bits. A quotient lies between two of
them that follow one another, and rounding takes the closer one, of two the one whose bits are even.
Distances are in units of `2^-1074` and multiplied by the denominator, so that they are exact. -/

namespace PocketCalc.Binary64

variable {place significand den : Nat}

/-! ## The order of the bits -/

/-- A significand with its scale. One of 53 digits leaves out its first digit in the bits, so that
it counts towards the exponent field. -/
theorem unitsOfBits_place (hle : significand ≤ 2 ^ 53) (hlow : place = 0 ∨ 2 ^ 52 ≤ significand) :
    unitsOfBits (place * 2 ^ 52 + significand) = significand * 2 ^ place := by
  have hshape : significand < 2 ^ 52 ∧ place = 0 ∨
      (∃ fraction < 2 ^ 52, significand = 2 ^ 52 + fraction) ∨ significand = 2 ^ 53 := by
    by_cases hsmall : significand < 2 ^ 52
    · exact .inl (by omega)
    · by_cases hcarry : significand = 2 ^ 53
      · exact .inr (.inr hcarry)
      · exact .inr (.inl ⟨significand - 2 ^ 52, by omega, by omega⟩)
  rcases hshape with ⟨hsmall, rfl⟩ | ⟨fraction, hfraction, rfl⟩ | rfl
  · have hexponent : (0 * 2 ^ 52 + significand) / 0x10000000000000 = 0 := by omega
    have hfraction : (0 * 2 ^ 52 + significand) % 0x10000000000000 = significand := by omega
    simp only [unitsOfBits, hexponent, hfraction, if_true, Nat.pow_zero, Nat.mul_one]
  · have hexponent : (place * 2 ^ 52 + (2 ^ 52 + fraction)) / 0x10000000000000 = place + 1 := by
      omega
    have hrest : (place * 2 ^ 52 + (2 ^ 52 + fraction)) % 0x10000000000000 = fraction := by omega
    simp only [unitsOfBits, hexponent, hrest, Nat.shiftLeft_eq]
    rw [if_neg (by omega), Nat.add_sub_cancel]
    rfl
  · have hexponent : (place * 2 ^ 52 + 2 ^ 53) / 0x10000000000000 = place + 2 := by omega
    have hrest : (place * 2 ^ 52 + 2 ^ 53) % 0x10000000000000 = 0 := by omega
    simp only [unitsOfBits, hexponent, hrest, Nat.shiftLeft_eq]
    rw [if_neg (by omega), show place + 2 - 1 = place + 1 from rfl, Nat.pow_succ]
    omega

/-- Every pattern has a significand and a scale. -/
theorem exists_place (n : Nat) : ∃ place significand,
    n = place * 2 ^ 52 + significand ∧ significand < 2 ^ 53 ∧
      (place = 0 ∨ 2 ^ 52 ≤ significand) := by
  by_cases h : n < 2 ^ 52
  · exact ⟨0, n, by omega, by omega, .inl rfl⟩
  · exact ⟨n / 2 ^ 52 - 1, 2 ^ 52 + n % 2 ^ 52, by omega, by omega, .inr (by omega)⟩

/-- Numbers stand in the order of their bits. -/
theorem unitsOfBits_strictMono : StrictMono unitsOfBits := by
  apply strictMono_nat_of_lt_succ
  intro n
  obtain ⟨place, significand, rfl, hlt, hlow⟩ := exists_place n
  rw [Nat.add_assoc, unitsOfBits_place (by omega) hlow,
    unitsOfBits_place (by omega) (by omega)]
  exact Nat.mul_lt_mul_of_pos_right (Nat.lt_succ_self _) (Nat.two_pow_pos _)

theorem unitsOfBits_mul_strictMono (hden : 0 < den) : StrictMono fun b => unitsOfBits b * den :=
  unitsOfBits_strictMono.mul_const hden

/-- Where a pattern stands if it is neither of two that follow one another. -/
theorem unitsOfBits_around (n b : Nat) (hden : 0 < den) :
    b < n ∧ unitsOfBits b * den < unitsOfBits n * den ∨ b = n ∨ b = n + 1 ∨
      n + 1 < b ∧ unitsOfBits (n + 1) * den < unitsOfBits b * den := by
  have hmono := unitsOfBits_mul_strictMono hden
  rcases Nat.lt_trichotomy b n with hlt | heq | hgt
  · exact .inl ⟨hlt, hmono hlt⟩
  · exact .inr (.inl heq)
  · rcases Nat.lt_or_eq_of_le (Nat.succ_le_of_lt hgt) with hgt | heq
    · exact .inr (.inr (.inr ⟨hgt, hmono hgt⟩))
    · exact .inr (.inr (.inl heq.symm))

/-! ## The closest pattern -/

/-- The bits of the number nearest to `scaled / den` units, with an exponent of any size. -/
def nearestUnbounded (scaled den : Nat) : Nat :=
  let place := (scaled / den).log2 - 52
  place * 2 ^ 52 + divToNearestEven scaled (den <<< place)

theorem nearestBits_eq_min (num den : Nat) :
    nearestBits num den = min (nearestUnbounded (num <<< 1074) den) 0x7FF0000000000000 := rfl

/-- With the scale that 53 digits call for, the quotient has 53 of them before the binary point. -/
theorem quotient_place (scaled den : Nat) :
    let place := (scaled / den).log2 - 52
    let quotient := scaled / (den <<< place)
    quotient < 2 ^ 53 ∧ (place = 0 ∨ 2 ^ 52 ≤ quotient) := by
  intro place quotient
  have hquotient : quotient = scaled / den / 2 ^ place := by
    rw [Nat.div_div_eq_div_mul, ← Nat.shiftLeft_eq]
  constructor
  · rw [hquotient, Nat.div_lt_iff_lt_mul (Nat.two_pow_pos _), ← Nat.pow_add]
    calc
      scaled / den < 2 ^ ((scaled / den).log2 + 1) := Nat.lt_log2_self
      _ ≤ 2 ^ (53 + place) := Nat.pow_le_pow_right (by omega) (by omega)
  · rw [or_iff_not_imp_left]
    intro hplace
    have hne : scaled / den ≠ 0 := by
      intro hzero
      simp [place, hzero] at hplace
    rw [hquotient, Nat.le_div_iff_mul_le (Nat.two_pow_pos _), ← Nat.pow_add]
    calc
      2 ^ (52 + place) = 2 ^ (scaled / den).log2 := by congr 1; omega
      _ ≤ scaled / den := Nat.log2_self_le hne

/-- No pattern is closer to the quotient, and if another one is as close, it is odd. -/
theorem nearestUnbounded_closest (scaled : Nat) (hden : 0 < den) (b : Nat) :
    Nat.dist (unitsOfBits (nearestUnbounded scaled den) * den) scaled ≤
        Nat.dist (unitsOfBits b * den) scaled ∧
      (b ≠ nearestUnbounded scaled den →
        Nat.dist (unitsOfBits b * den) scaled =
            Nat.dist (unitsOfBits (nearestUnbounded scaled den) * den) scaled →
          nearestUnbounded scaled den % 2 = 0) := by
  obtain ⟨hlt, hlow⟩ := quotient_place scaled den
  simp only [nearestUnbounded, divToNearestEven]
  generalize (scaled / den).log2 - 52 = place at *
  rw [Nat.shiftLeft_eq] at *
  have hdiv := Nat.div_add_mod scaled (den * 2 ^ place)
  have hmod := Nat.mod_lt scaled (Nat.mul_pos hden (Nat.two_pow_pos place))
  generalize scaled / (den * 2 ^ place) = quotient at *
  generalize scaled % (den * 2 ^ place) = rest at *
  have hbelow : unitsOfBits (place * 2 ^ 52 + quotient) * den = den * 2 ^ place * quotient := by
    rw [unitsOfBits_place (by omega) hlow]
    ring
  have habove : unitsOfBits (place * 2 ^ 52 + (quotient + 1)) * den =
      den * 2 ^ place * quotient + den * 2 ^ place := by
    rw [unitsOfBits_place (by omega) (by omega)]
    ring
  -- the quotient lies between two numbers that follow one another
  have hb := unitsOfBits_around (place * 2 ^ 52 + quotient) b hden
  rw [Nat.add_assoc] at hb
  simp only [Nat.dist]
  split
  · next hup =>
      simp only [Bool.or_eq_true, Bool.and_eq_true, decide_eq_true_eq] at hup
      rcases hb with ⟨_, hb⟩ | rfl | rfl | ⟨_, hb⟩ <;> omega
  · next hdown =>
      simp only [Bool.or_eq_true, Bool.and_eq_true, decide_eq_true_eq] at hdown
      rcases hb with ⟨_, hb⟩ | rfl | rfl | ⟨_, hb⟩ <;> omega

/-- The quotient is rounded beyond the finite numbers from the middle between the largest of them
and the power of two behind it on. -/
theorem infinity_le_nearestUnbounded_iff (scaled : Nat) (hden : 0 < den) :
    0x7FF0000000000000 ≤ nearestUnbounded scaled den ↔
      (2 ^ 54 - 1) * (2 ^ 2044 * den) ≤ scaled := by
  have hplace (place : Nat) : 2 ^ (place + 1) = 2 * 2 ^ place := Nat.pow_succ'
  have hinfinity : unitsOfBits 0x7FF0000000000000 * den = 2 ^ 54 * (2 ^ 2044 * den) := by
    rw [show 0x7FF0000000000000 = 2045 * 2 ^ 52 + 2 ^ 53 from rfl,
      unitsOfBits_place (by omega) (by omega), hplace 2044]
    generalize 2 ^ 2044 = halfPlace
    ring
  have hlargest : unitsOfBits 0x7FEFFFFFFFFFFFFF * den = (2 ^ 54 - 2) * (2 ^ 2044 * den) := by
    rw [show 0x7FEFFFFFFFFFFFFF = 2045 * 2 ^ 52 + (2 ^ 53 - 1) from rfl,
      unitsOfBits_place (by omega) (by omega), hplace 2044]
    generalize 2 ^ 2044 = halfPlace
    ring
  have hmono := unitsOfBits_mul_strictMono hden
  have hclosest := nearestUnbounded_closest scaled hden
  simp only [Nat.dist] at hclosest
  generalize nearestUnbounded scaled den = found at *
  generalize 2 ^ 2044 * den = halfPlace at *
  constructor
  · intro hle
    have habove : unitsOfBits 0x7FF0000000000000 * den ≤ unitsOfBits found * den :=
      hmono.monotone hle
    have hnear := (hclosest 0x7FEFFFFFFFFFFFFF).1
    omega
  · intro hle
    by_contra hlt
    have hnear := hclosest 0x7FF0000000000000
    obtain rfl | hbelow : found = 0x7FEFFFFFFFFFFFFF ∨ found < 0x7FEFFFFFFFFFFFFF := by omega
    · omega
    · have hbelow' : unitsOfBits found * den < unitsOfBits 0x7FEFFFFFFFFFFFFF * den :=
        hmono hbelow
      omega

end PocketCalc.Binary64
