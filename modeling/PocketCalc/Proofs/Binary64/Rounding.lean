import Mathlib
import PocketCalc.Proofs.Binary64.Grid

/-! Rounding to binary64 as a property: the number closest to an exact value, of two the even one,
and infinity beyond the finite numbers. There is one such number, and `nearest` finds it. -/

open Float.Model Float.Model.UnpackedFloat

namespace PocketCalc.Binary64

def infinity : Float := Float.ofBits 0x7FF0000000000000

/-- The exact value of a finite number. -/
def exactValue (x : Float) : ℚ := (if signBit x then -1 else 1) * (units x / 2 ^ 1074)

/-- A number is what rounding makes of an exact value that is not negative: the finite number
closest to it, of two the one whose last bit is zero, or infinity from the middle between the
largest finite number and `2^1024` on. -/
structure IsNearest (q : ℚ) (x : Float) : Prop where
  not_negative : signBit x = false
  overflow : 2 ^ 1024 - 2 ^ 970 ≤ q → x = infinity
  finite : q < 2 ^ 1024 - 2 ^ 970 → isFinite x = true
  closest : isFinite x = true → ∀ y, isFinite y = true →
    |exactValue x - q| ≤ |exactValue y - q|
  even : isFinite x = true → ∀ y, isFinite y = true →
    exactValue y ≠ exactValue x → |exactValue y - q| = |exactValue x - q| → bits x % 2 = 0

variable {x y : Float} {q : ℚ} {den : Nat}

/-! ## Numbers and their bits -/

theorem eq_of_bits_eq (h : bits x = bits y) : x = y :=
  Float.toBits_inj.mp (UInt64.toNat_inj.mp h)

theorem toNat_unpackExponent (v : BitVec Format.binary64.numBits) :
    (unpackExponent v).toNat = v.toNat / 2 ^ 52 % 2 ^ 11 := by
  simp [unpackExponent, Nat.shiftRight_eq_div_pow]

theorem toNat_unpackMantissa (v : BitVec Format.binary64.numBits) :
    (unpackMantissa v).toNat = v.toNat % 2 ^ 52 := by
  simp [unpackMantissa, Nat.shiftRight_eq_div_pow]

theorem isNaNBits_eq_false {v : BitVec Format.binary64.numBits}
    (h : v.toNat ≤ 0x7FF0000000000000) : isNaNBits v = false := by
  rw [isNaNBits, decide_eq_false_iff_not]
  rintro ⟨hones, hfraction⟩
  have hexponent : v.toNat / 2 ^ 52 % 2 ^ 11 = 2047 := by
    rw [← toNat_unpackExponent, hones]
    rfl
  refine hfraction (BitVec.eq_of_toNat_eq ?_)
  rw [toNat_unpackMantissa]
  show v.toNat % 2 ^ 52 = 0
  omega

/-- Up to infinity every pattern is that of a number. -/
theorem bits_ofBits {n : Nat} (h : n ≤ 0x7FF0000000000000) :
    bits (Float.ofBits (UInt64.ofNat n)) = n := by
  have hn : (UInt64.ofNat n).toBitVec.toNat = n :=
    UInt64.toNat_ofNat_of_lt (Nat.lt_of_le_of_lt h (by decide))
  show (pack .binary64 (unpack .binary64 (UInt64.ofNat n).toBitVec)).toNat = n
  rw [pack_unpack, isNaNBits_eq_false (hn.trans_le h), if_neg Bool.false_ne_true, hn]

/-! ## Numbers that are not negative -/

theorem signBit_eq_false_iff : signBit x = false ↔ bits x < 2 ^ 63 := by
  simp [signBit]

theorem isFinite_iff (hsign : signBit x = false) :
    isFinite x = true ↔ bits x < 0x7FF0000000000000 := by
  rw [signBit_eq_false_iff] at hsign
  rw [isFinite, decide_eq_true_iff, exponentField]
  omega

theorem units_of_not_negative (hsign : signBit x = false) : units x = unitsOfBits (bits x) := by
  rw [signBit_eq_false_iff] at hsign
  exact congrArg unitsOfBits (Nat.mod_eq_of_lt hsign)

theorem exactValue_of_not_negative (hsign : signBit x = false) :
    exactValue x = (unitsOfBits (bits x) : ℚ) / 2 ^ 1074 := by
  simp [exactValue, hsign, units_of_not_negative hsign]

theorem exactValue_of_negative (hsign : signBit x = true) :
    exactValue x = -(units x / 2 ^ 1074) := by
  simp only [exactValue, hsign, if_true, neg_one_mul]

theorem exists_bits {n : Nat} (h : n < 0x7FF0000000000000) :
    ∃ x, bits x = n ∧ signBit x = false ∧ isFinite x = true := by
  have hbits := bits_ofBits (Nat.le_of_lt h)
  have hsign : signBit (Float.ofBits (UInt64.ofNat n)) = false := by
    rw [signBit_eq_false_iff, hbits]
    omega
  exact ⟨_, hbits, hsign, by rwa [isFinite_iff hsign, hbits]⟩

theorem exactValue_lt (hx : signBit x = false) (hy : signBit y = false) (h : bits x < bits y) :
    exactValue x < exactValue y := by
  rw [exactValue_of_not_negative hx, exactValue_of_not_negative hy,
    div_lt_div_iff_of_pos_right (by positivity), Nat.cast_lt]
  exact unitsOfBits_strictMono h

/-! ## Distances -/

theorem abs_div_sub_div (a n : Nat) {c d : Nat} (hc : 0 < c) (hd : 0 < d) :
    |(a : ℚ) / c - n / d| = (Nat.dist (a * d) (n * c) : ℚ) / (c * d) := by
  have hc' : (0 : ℚ) < c := Nat.cast_pos.mpr hc
  have hd' : (0 : ℚ) < d := Nat.cast_pos.mpr hd
  rw [div_sub_div _ _ hc'.ne' hd'.ne', abs_div, abs_of_pos (mul_pos hc' hd')]
  congr 1
  rcases Nat.le_total (a * d) (n * c) with hle | hle
  · rw [Nat.dist_eq_sub_of_le hle, abs_of_nonpos, Nat.cast_sub hle]
    · push_cast
      ring
    · rw [sub_nonpos, mul_comm (c : ℚ)]
      exact_mod_cast hle
  · rw [Nat.dist_eq_sub_of_le_right hle, abs_of_nonneg, Nat.cast_sub hle]
    · push_cast
      ring
    · rw [sub_nonneg, mul_comm (c : ℚ)]
      exact_mod_cast hle

/-- A negative number is at least as far away as zero is, and farther unless it is zero itself. -/
theorem distance_of_negative (hq : 0 ≤ q) (hsign : signBit y = true) :
    |0 - q| ≤ |exactValue y - q| ∧ (|exactValue y - q| ≤ |0 - q| → exactValue y = 0) := by
  have hvalue : exactValue y ≤ 0 := by
    rw [exactValue_of_negative hsign, neg_nonpos]
    positivity
  rw [zero_sub, abs_neg, abs_of_nonneg hq, abs_of_nonpos (by linarith)]
  constructor
  · linarith
  · intro hle
    linarith

theorem distance_eq (num b : Nat) (hden : 0 < den) :
    |(unitsOfBits b : ℚ) / 2 ^ 1074 - num / den| =
      Nat.dist (unitsOfBits b * den) (num <<< 1074) / (2 ^ 1074 * den) := by
  have h := abs_div_sub_div (unitsOfBits b) num (Nat.two_pow_pos 1074) hden
  simpa only [Nat.cast_pow, Nat.cast_ofNat, Nat.shiftLeft_eq] using h

/-! ## `nearest` rounds -/

/-- Where rounding goes beyond the finite numbers, with the exponents left open. -/
theorem overflow_le_iff_scaled (num place unit : Nat) (hden : 0 < den) :
    (2 : ℚ) ^ (54 + place) - 2 ^ place ≤ num / den ↔
      (2 ^ 54 - 1) * (2 ^ (place + unit) * den) ≤ num * 2 ^ unit := by
  rw [pow_add 2 place, show (2 ^ 54 - 1) * (2 ^ place * 2 ^ unit * den) =
    (2 ^ 54 - 1) * 2 ^ place * den * 2 ^ unit by ring, Nat.mul_le_mul_right_iff (by positivity),
    le_div_iff₀ (Nat.cast_pos.mpr hden), ← Nat.cast_le (α := ℚ)]
  push_cast
  rw [show (2 : ℚ) ^ (54 + place) - 2 ^ place = (2 ^ 54 - 1) * 2 ^ place by ring]
  norm_num

theorem overflow_le_iff (num : Nat) (hden : 0 < den) :
    (2 : ℚ) ^ 1024 - 2 ^ 970 ≤ num / den ↔
      (2 ^ 54 - 1) * (2 ^ 2044 * den) ≤ num <<< 1074 := by
  have hshift (unit : Nat) : num <<< unit = num * 2 ^ unit := Nat.shiftLeft_eq num unit
  rw [hshift, show 2044 = 970 + 1074 from rfl]
  exact overflow_le_iff_scaled num 970 1074 hden

/-- What is nearest among all patterns, with an exponent as large as it takes, is nearest among the
finite numbers, unless it is beyond them. -/
theorem closest_of_bits (num : Nat) (hden : 0 < den) (hsign : signBit x = false)
    (hbits : bits x = nearestUnbounded (num <<< 1074) den) (y : Float) :
    |exactValue x - num / den| ≤ |exactValue y - num / den| ∧
      (exactValue y ≠ exactValue x →
        |exactValue y - num / den| = |exactValue x - num / den| → bits x % 2 = 0) := by
  have hunits : (0 : ℚ) < 2 ^ 1074 * den := by positivity
  have hclosest := nearestUnbounded_closest (num <<< 1074) hden
  have hpattern : ∀ b, |exactValue x - num / den| ≤ |(unitsOfBits b : ℚ) / 2 ^ 1074 - num / den| ∧
      ((unitsOfBits b : ℚ) / 2 ^ 1074 ≠ exactValue x →
        |(unitsOfBits b : ℚ) / 2 ^ 1074 - num / den| = |exactValue x - num / den| →
          bits x % 2 = 0) := by
    intro b
    rw [exactValue_of_not_negative hsign, hbits, distance_eq num _ hden, distance_eq num _ hden,
      div_le_div_iff_of_pos_right hunits, div_left_inj' hunits.ne', Nat.cast_le, Nat.cast_inj]
    exact ⟨(hclosest b).1, fun hne => (hclosest b).2 fun hb => hne (by rw [hb])⟩
  cases hnegative : signBit y with
  | false =>
      rw [exactValue_of_not_negative hnegative]
      exact hpattern _
  | true =>
      have hq : (0 : ℚ) ≤ num / den := div_nonneg (Nat.cast_nonneg _) (Nat.cast_nonneg _)
      obtain ⟨hfar, hzero⟩ := distance_of_negative hq hnegative
      have horigin : (unitsOfBits 0 : ℚ) / 2 ^ 1074 = 0 := by
        rw [show unitsOfBits 0 = 0 from rfl, Nat.cast_zero, zero_div]
      have hnear := hpattern 0
      rw [horigin] at hnear
      refine ⟨hnear.1.trans hfar, fun hne htie => ?_⟩
      have hy := hzero (htie.trans_le hnear.1)
      rw [hy] at hne htie
      exact hnear.2 hne htie

/-- A quotient of natural numbers is rounded as it should be. -/
theorem isNearest_nearest (num : Nat) (hden : 0 < den) :
    IsNearest (num / den) (nearest num den) := by
  have hbits : bits (nearest num den) =
      min (nearestUnbounded (num <<< 1074) den) 0x7FF0000000000000 :=
    (bits_ofBits (nearestBits_le num den)).trans (nearestBits_eq_min num den)
  have hsign : signBit (nearest num den) = false := by
    rw [signBit_eq_false_iff, hbits]
    omega
  have hinfinite := infinity_le_nearestUnbounded_iff (num <<< 1074) hden
  rw [← overflow_le_iff num hden] at hinfinite
  have hunbounded : isFinite (nearest num den) = true →
      bits (nearest num den) = nearestUnbounded (num <<< 1074) den := by
    rw [isFinite_iff hsign]
    omega
  refine ⟨hsign, fun hoverflow => ?_, fun hbelow => ?_, fun hfinite y _ => ?_,
    fun hfinite y _ => ?_⟩
  · apply eq_of_bits_eq
    rw [hbits, Nat.min_eq_right (hinfinite.mpr hoverflow)]
    exact (bits_ofBits (Nat.le_refl _)).symm
  · rw [isFinite_iff hsign, hbits]
    have := mt hinfinite.mp (not_le.mpr hbelow)
    omega
  · exact (closest_of_bits num hden hsign (hunbounded hfinite) y).1
  · exact (closest_of_bits num hden hsign (hunbounded hfinite) y).2

/-! ## What rounding determines -/

theorem isFinite_infinity : isFinite infinity = false := by decide +kernel

theorem isNaN_infinity : isNaN infinity = false := by decide +kernel

theorem bits_zero : bits 0.0 = 0 := rfl

theorem exactValue_zero : exactValue 0.0 = 0 := by
  rw [exactValue_of_not_negative rfl, bits_zero]
  simp [unitsOfBits]

theorem exactValue_of_bits_one (hsign : signBit x = false) (hbits : bits x = 1) :
    exactValue x = 1 / 2 ^ 1074 := by
  rw [exactValue_of_not_negative hsign, hbits, show unitsOfBits 1 = 1 from rfl, Nat.cast_one]

/-- There is no number between zero and the smallest positive one. -/
theorem exactValue_gap (y : Float) : exactValue y ≤ 0 ∨ 1 / 2 ^ 1074 ≤ exactValue y := by
  cases hsign : signBit y with
  | true =>
      left
      rw [exactValue_of_negative hsign, neg_nonpos]
      positivity
  | false =>
      rw [exactValue_of_not_negative hsign]
      rcases Nat.eq_zero_or_pos (unitsOfBits (bits y)) with hzero | hpos
      · left
        rw [hzero, Nat.cast_zero, zero_div]
      · right
        rw [div_le_div_iff_of_pos_right (by positivity)]
        exact Nat.one_le_cast.mpr hpos

theorem two_mul_half : (2 : ℚ) * (1 / 2 ^ 1075) = 1 / 2 ^ 1074 := by
  have hhalf (unit : Nat) : (2 : ℚ) * (1 / 2 ^ (unit + 1)) = 1 / 2 ^ unit := by
    rw [pow_succ]
    field_simp
  exact hhalf 1074

theorem half_lt_overflow : (1 : ℚ) / 2 ^ 1075 < 2 ^ 1024 - 2 ^ 970 := by
  have hlarge (place : Nat) : (1 : ℚ) ≤ 2 ^ (54 + place) - 2 ^ place := by
    have hone : (1 : ℚ) ≤ 2 ^ place := one_le_pow₀ (by norm_num)
    rw [pow_add]
    linarith
  have hsmall : (1 : ℚ) / 2 ^ 1075 < 1 :=
    (div_lt_one (by positivity)).mpr (one_lt_pow₀ (by norm_num) (by norm_num))
  exact hsmall.trans_le (hlarge 970)

/-- Up to half of the smallest positive number zero is nearest. -/
theorem isNearest_zero (hq : 0 ≤ q) (hle : q ≤ 1 / 2 ^ 1075) : IsNearest q 0.0 where
  not_negative := rfl
  overflow hoverflow := absurd (hoverflow.trans hle) (not_le.mpr half_lt_overflow)
  finite _ := rfl
  closest _ y _ := by
    have hunit := two_mul_half
    have hgap := exactValue_gap y
    rw [exactValue_zero, zero_sub, abs_neg, abs_of_nonneg hq]
    generalize (1 : ℚ) / 2 ^ 1075 = half at *
    generalize (1 : ℚ) / 2 ^ 1074 = unit at *
    rcases hgap with hgap | hgap
    · rw [abs_of_nonpos (by linarith)]
      linarith
    · rw [abs_of_nonneg (by linarith)]
      linarith
  even _ _ _ _ _ := rfl

namespace IsNearest

theorem isNaN_eq (h : IsNearest q x) : isNaN x = false := by
  cases hfinite : isFinite x with
  | true => simp [isNaN, hfinite]
  | false =>
      have hoverflow : 2 ^ 1024 - 2 ^ 970 ≤ q := by
        by_contra hlt
        simp [h.finite (not_le.mp hlt)] at hfinite
      rw [h.overflow hoverflow, isNaN_infinity]

theorem eq_infinity_iff (h : IsNearest q x) : x = infinity ↔ 2 ^ 1024 - 2 ^ 970 ≤ q := by
  refine ⟨?_, h.overflow⟩
  rintro rfl
  by_contra hlt
  have hfinite := h.finite (not_le.mp hlt)
  rw [isFinite_infinity] at hfinite
  cases hfinite

/-- Two numbers that round the same value are equal: neither has larger bits. -/
theorem bits_le (hx : IsNearest q x) (hy : IsNearest q y) : bits y ≤ bits x := by
  by_contra hlt
  rcases le_or_gt (2 ^ 1024 - 2 ^ 970) q with hoverflow | hbelow
  · rw [hx.overflow hoverflow, hy.overflow hoverflow] at hlt
    exact hlt le_rfl
  · have hxfinite := hx.finite hbelow
    have hyfinite := hy.finite hbelow
    have hxy := exactValue_lt hx.not_negative hy.not_negative (not_le.mp hlt)
    have htie := le_antisymm (hx.closest hxfinite y hyfinite) (hy.closest hyfinite x hxfinite)
    -- both are even, so that there is a number between them, which is closer
    have hxeven := hx.even hxfinite y hyfinite hxy.ne' htie.symm
    have hyeven := hy.even hyfinite x hxfinite hxy.ne htie
    have hybound := (isFinite_iff hy.not_negative).mp hyfinite
    obtain ⟨z, hz, hzsign, hzfinite⟩ := exists_bits (n := bits x + 1) (by omega)
    have hxz : exactValue x < exactValue z := exactValue_lt hx.not_negative hzsign (by omega)
    have hzy : exactValue z < exactValue y := exactValue_lt hzsign hy.not_negative (by omega)
    have hclosest := hx.closest hxfinite z hzfinite
    rcases abs_cases (exactValue x - q) with ⟨hxq, _⟩ | ⟨hxq, _⟩ <;>
      rcases abs_cases (exactValue y - q) with ⟨hyq, _⟩ | ⟨hyq, _⟩ <;>
        rcases abs_cases (exactValue z - q) with ⟨hzq, _⟩ | ⟨hzq, _⟩ <;> linarith

theorem unique (hx : IsNearest q x) (hy : IsNearest q y) : x = y :=
  eq_of_bits_eq (Nat.le_antisymm (hy.bits_le hx) (hx.bits_le hy))

/-- Zero is what is nearest up to half of the smallest positive number, and beyond it that number is
closer. -/
theorem eq_zero_iff (h : IsNearest q x) (hq : 0 ≤ q) : x = 0.0 ↔ q ≤ 1 / 2 ^ 1075 := by
  refine ⟨?_, fun hle => h.unique (isNearest_zero hq hle)⟩
  rintro rfl
  obtain ⟨y, hbits, hsign, hfinite⟩ := exists_bits (n := 1) (by omega)
  have hclosest := h.closest rfl y hfinite
  have hunit := two_mul_half
  have hpos : (0 : ℚ) < 1 / 2 ^ 1074 := by positivity
  rw [exactValue_zero, exactValue_of_bits_one hsign hbits, zero_sub, abs_neg,
    abs_of_nonneg hq] at hclosest
  generalize (1 : ℚ) / 2 ^ 1075 = half at *
  generalize (1 : ℚ) / 2 ^ 1074 = unit at *
  rcases abs_cases (unit - q) with ⟨hyq, _⟩ | ⟨hyq, _⟩ <;> linarith

end IsNearest

end PocketCalc.Binary64
