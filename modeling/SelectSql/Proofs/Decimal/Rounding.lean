import SelectSql.Decimal.Binary64
import Mathlib.Algebra.Order.Field.Power
import Mathlib.Data.Rat.Cast.Order
import Mathlib.Tactic.FieldSimp
import Mathlib.Tactic.Linarith
import Mathlib.Tactic.NormNum
import Mathlib.Tactic.Positivity
import Mathlib.Tactic.Ring

/-!
# SelectSql.Proofs.Decimal.Rounding

What a decimal is rounded to. The numbers that round to a magnitude `m * 2 ^ q` are those
between two ends (`Magnitude.Rounds`): half a unit above it and half a unit below, or a
quarter below where `m` is a power of two and the numbers below are twice as dense.

Design points:

* **Ends are counted in quarters of a unit**, so that both kinds of lower end are whole, and
  all comparisons are between rational numbers. The shifts and products of the program are
  related to powers once, in `roundQuotient_shift` and `quotientLog2_spec`.
* **The unit of the result is not known before**: the quotient may lie just below a power of
  two that it is rounded to. There it is rounded in half the unit, and the carry gives the
  bits of the power (`roundQuotient_of_below`).
* **The bits are a sum**, `m + (q + 1074) * 2 ^ 52`, for normal and subnormal numbers alike.

Main statement: `Binary64.ofDecimal_eq`.
-/

namespace SelectSql

/-! ## Powers -/

section Powers

variable {b : ℚ} (hb : b ≠ 0)
include hb

/-- A power as a quotient of powers with natural exponents. -/
theorem zpow_mul_pow_toNat (i : ℤ) : b ^ i * b ^ (-i).toNat = b ^ i.toNat := by
  rw [← zpow_natCast, ← zpow_natCast, ← zpow_add₀ hb]
  congr 1
  omega

theorem zpow_eq_div (i : ℤ) : b ^ i = b ^ i.toNat / b ^ (-i).toNat := by
  rw [eq_div_iff (pow_ne_zero _ hb), zpow_mul_pow_toNat hb]

end Powers

namespace Binary64

theorem tenPow_eq (n : ℕ) : ((tenPow n : ℕ) : ℚ) = 10 ^ n := by
  show ((10 ^ n : ℕ) : ℚ) = 10 ^ n
  push_cast
  rfl

theorem tenPow_pos (n : ℕ) : 0 < tenPow n :=
  Nat.pow_pos (by decide)

theorem cast_shiftLeft (n k : ℕ) : ((n <<< k : ℕ) : ℚ) = n * 2 ^ k := by
  rw [Nat.shiftLeft_eq]
  push_cast
  rfl

/-! ## Rounding a quotient -/

/-- The whole number that a quotient is rounded to: it is at most half a unit away, and even
if it is as much. -/
theorem roundQuotient_eq {num den m : ℕ} (hden : 0 < den)
    (hlow : 2 * (m * den) ≤ 2 * num + den) (hhigh : 2 * num ≤ 2 * (m * den) + den)
    (hodd : m % 2 = 1 → 2 * (m * den) < 2 * num + den ∧ 2 * num < 2 * (m * den) + den) :
    roundQuotient num den = m := by
  have hdiv : den * (num / den) + num % den = num := Nat.div_add_mod num den
  have hmod : num % den < den := Nat.mod_lt num hden
  -- the whole number is the quotient rounded down or the next one
  have hle : num / den ≤ m := by
    by_contra h
    have hstep : (m + 1) * den ≤ num / den * den := Nat.mul_le_mul_right den (by omega)
    rw [Nat.add_mul, Nat.mul_comm (num / den)] at hstep
    omega
  have hge : m ≤ num / den + 1 := by
    by_contra h
    have hstep : (num / den + 2) * den ≤ m * den := Nat.mul_le_mul_right den (by omega)
    rw [Nat.add_mul, Nat.mul_comm (num / den)] at hstep
    omega
  have hcases : m = num / den ∨ m = num / den + 1 := by omega
  rcases hcases with heq | heq
  · have hprod : m * den = den * (num / den) := by rw [heq, Nat.mul_comm]
    unfold roundQuotient
    simp only
    split
    · exact heq.symm
    · split
      · omega
      · omega
  · have hprod : m * den = den * (num / den) + den := by rw [heq, Nat.add_mul, Nat.mul_comm]; omega
    unfold roundQuotient
    simp only
    split
    · omega
    · split
      · omega
      · omega

/-- The binary logarithm of a quotient, rounded down. -/
theorem quotientLog2_spec {num den : ℕ} (hnum : 0 < num) (hden : 0 < den) :
    (2 : ℚ) ^ quotientLog2 num den ≤ num / den ∧
      (num : ℚ) / den < 2 ^ (quotientLog2 num den + 1) := by
  have htwo : (2 : ℚ) ≠ 0 := two_ne_zero
  have hden' : (0 : ℚ) < den := by exact_mod_cast hden
  have hnumLow : (2 : ℚ) ^ (num.log2 : ℤ) ≤ num := by
    exact_mod_cast Nat.log2_self_le hnum.ne'
  have hnumHigh : (num : ℚ) < 2 ^ ((num.log2 : ℤ) + 1) := by
    exact_mod_cast Nat.lt_log2_self
  have hdenLow : (2 : ℚ) ^ (den.log2 : ℤ) ≤ den := by
    exact_mod_cast Nat.log2_self_le hden.ne'
  have hdenHigh : (den : ℚ) < 2 ^ ((den.log2 : ℤ) + 1) := by
    exact_mod_cast Nat.lt_log2_self
  have hlow : (2 : ℚ) ^ ((num.log2 : ℤ) - den.log2 - 1) ≤ num / den := by
    rw [le_div_iff₀ hden']
    calc (2 : ℚ) ^ ((num.log2 : ℤ) - den.log2 - 1) * den
        ≤ 2 ^ ((num.log2 : ℤ) - den.log2 - 1) * 2 ^ ((den.log2 : ℤ) + 1) := by gcongr
      _ = 2 ^ (num.log2 : ℤ) := by rw [← zpow_add₀ htwo]; congr 1; omega
      _ ≤ num := hnumLow
  have hhigh : (num : ℚ) / den < 2 ^ ((num.log2 : ℤ) - den.log2 + 1) := by
    rw [div_lt_iff₀ hden']
    calc (num : ℚ) < 2 ^ ((num.log2 : ℤ) + 1) := hnumHigh
      _ = 2 ^ ((num.log2 : ℤ) - den.log2 + 1) * 2 ^ (den.log2 : ℤ) := by
          rw [← zpow_add₀ htwo]; congr 1; omega
      _ ≤ 2 ^ ((num.log2 : ℤ) - den.log2 + 1) * den := by gcongr
  -- the shifted numbers are compared as the quotient and the power are
  have htest (l : ℤ) : num <<< (-l).toNat < den <<< l.toNat ↔ (num : ℚ) / den < 2 ^ l := by
    rw [← Nat.cast_lt (α := ℚ), cast_shiftLeft, cast_shiftLeft, zpow_eq_div htwo l,
      div_lt_div_iff₀ hden' (by positivity), mul_comm ((2 : ℚ) ^ l.toNat)]
  unfold quotientLog2
  simp only [htest]
  split
  · next h =>
    rw [sub_add_cancel]
    exact ⟨hlow, h⟩
  · next h => exact ⟨not_lt.1 h, hhigh⟩

/-- What the quotient of shifted numbers is rounded to, for a quotient that is at most half a
power of two away from a multiple of that power. -/
theorem roundQuotient_shift {num den m : ℕ} (hden : 0 < den) {k : ℤ}
    (hlow : (2 * m - 1 : ℚ) * 2 ^ k ≤ 2 * (num / den))
    (hhigh : 2 * (num / den : ℚ) ≤ (2 * m + 1) * 2 ^ k)
    (hodd : m % 2 = 1 → (2 * m - 1 : ℚ) * 2 ^ k < 2 * (num / den) ∧
      2 * (num / den : ℚ) < (2 * m + 1) * 2 ^ k) :
    roundQuotient (num <<< (-k).toNat) (den <<< k.toNat) = m := by
  have hden' : (0 : ℚ) < den := by exact_mod_cast hden
  have hpos : (0 : ℚ) < den * 2 ^ (-k).toNat := by positivity
  -- power and quotient have a denominator in common
  have hquot : (num / den : ℚ) = num * 2 ^ (-k).toNat / (den * 2 ^ (-k).toNat) := by
    rw [mul_div_mul_right _ _ (by positivity)]
  have hpow : (2 : ℚ) ^ k = den * 2 ^ k.toNat / (den * 2 ^ (-k).toNat) := by
    rw [mul_div_mul_left _ _ hden'.ne', zpow_eq_div two_ne_zero]
  simp only [hquot, hpow, ← mul_div_assoc, div_le_div_iff_of_pos_right hpos,
    div_lt_div_iff_of_pos_right hpos] at hlow hhigh hodd
  have hdenShift : 0 < den <<< k.toNat := by
    rw [Nat.shiftLeft_eq]
    positivity
  refine roundQuotient_eq hdenShift ?_ ?_ fun hm => ⟨?_, ?_⟩
  · rw [← Nat.cast_le (α := ℚ)]
    push_cast [cast_shiftLeft]
    linarith
  · rw [← Nat.cast_le (α := ℚ)]
    push_cast [cast_shiftLeft]
    linarith
  · rw [← Nat.cast_lt (α := ℚ)]
    push_cast [cast_shiftLeft]
    linarith [(hodd hm).1]
  · rw [← Nat.cast_lt (α := ℚ)]
    push_cast [cast_shiftLeft]
    linarith [(hodd hm).2]

/-! ## Magnitudes -/

namespace Magnitude

/-- The bits of a magnitude without a sign. -/
def bits (x : Magnitude) : ℕ :=
  x.m + (x.q + 1074).toNat * fractionSize

/-- The magnitudes of finite numbers. -/
structure Regular (x : Magnitude) : Prop where
  exponent : -1074 ≤ x.q
  high : x.m < 2 * fractionSize
  low : -1074 < x.q → fractionSize ≤ x.m
  narrow : x.narrowBelow = true ↔ x.m = fractionSize ∧ -1074 < x.q
  finite : x.bits < 0x7FF * fractionSize

/-- The lower end of the numbers that round to a magnitude, in quarters of its unit. -/
def lowQuarters (x : Magnitude) : ℕ :=
  if x.narrowBelow then 4 * x.m - 1 else 4 * x.m - 2

/-- The upper end of the numbers that round to a magnitude, in quarters of its unit. -/
def highQuarters (x : Magnitude) : ℕ :=
  4 * x.m + 2

/-- A number is among those that round to a magnitude; the ends are if `m` is even. -/
structure Rounds (x : Magnitude) (v : ℚ) : Prop where
  low : x.lowQuarters * 2 ^ (x.q - 2) ≤ v
  high : v ≤ x.highQuarters * 2 ^ (x.q - 2)
  odd : x.m % 2 = 1 → x.lowQuarters * 2 ^ (x.q - 2) < v ∧ v < x.highQuarters * 2 ^ (x.q - 2)

variable {x : Magnitude} {v : ℚ}

theorem le_lowQuarters (x : Magnitude) : (4 * x.m - 2 : ℚ) ≤ x.lowQuarters := by
  have h : 4 * x.m ≤ x.lowQuarters + 2 := by
    unfold lowQuarters
    split <;> omega
  have hcast : (4 * x.m : ℚ) ≤ x.lowQuarters + 2 := by exact_mod_cast h
  linarith

/-- A power of two in quarters of a unit. -/
theorem pow_eq_quarters (q : ℤ) (k : ℕ) : (2 : ℚ) ^ (q - 2 + k) = 2 ^ k * 2 ^ (q - 2) := by
  rw [zpow_add₀ two_ne_zero, zpow_natCast, mul_comm]

theorem Rounds.pos (h : x.Rounds v) (hm : x.m ≠ 0) : 0 < v := by
  have hlow : 0 < x.lowQuarters := by
    unfold lowQuarters
    split <;> omega
  exact lt_of_lt_of_le (by positivity) h.low

/-- What rounds to a finite magnitude is below the next power of two. -/
theorem Rounds.lt_pow (h : x.Rounds v) (hx : x.Regular) : v < 2 ^ (x.q + 53) := by
  have hm : x.highQuarters < 2 ^ 55 := by
    have := hx.high
    simp only [highQuarters, fractionSize] at *
    omega
  have hcast : (x.highQuarters : ℚ) < 2 ^ 55 := by exact_mod_cast hm
  calc v ≤ x.highQuarters * 2 ^ (x.q - 2) := h.high
    _ < 2 ^ 55 * 2 ^ (x.q - 2) := by gcongr
    _ = 2 ^ (x.q - 2 + 55) := (pow_eq_quarters x.q 55).symm
    _ = 2 ^ (x.q + 53) := by congr 1; omega

theorem unit_eq_quarters (x : Magnitude) : (2 : ℚ) ^ x.q = 4 * 2 ^ (x.q - 2) := by
  have hq : x.q = x.q - 2 + (2 : ℕ) := by omega
  rw [hq, pow_eq_quarters, ← hq]
  norm_num

theorem cast_highQuarters (x : Magnitude) : (x.highQuarters : ℚ) = 4 * x.m + 2 := by
  simp [highQuarters]

/-- At a power of two, the lower end is a quarter of a unit below. -/
theorem Regular.lowQuarters_eq (hx : x.Regular) (hm : x.m = fractionSize) (hq : -1074 < x.q) :
    x.lowQuarters = 2 ^ 54 - 1 := by
  rw [lowQuarters, hx.narrow.2 ⟨hm, hq⟩, if_pos rfl, hm]
  rfl

end Magnitude

section Rounding

variable {x : Magnitude} {num den : ℕ} (hden : 0 < den) (h : x.Rounds (num / den))
include hden h

/-- In its own unit, what rounds to a magnitude is rounded to its multiple. -/
theorem roundQuotient_of_rounds :
    roundQuotient (num <<< (-x.q).toNat) (den <<< x.q.toNat) = x.m := by
  have hunit := x.unit_eq_quarters
  have hlow : (4 * x.m - 2) * (2 : ℚ) ^ (x.q - 2) ≤ x.lowQuarters * 2 ^ (x.q - 2) :=
    mul_le_mul_of_nonneg_right x.le_lowQuarters (by positivity)
  refine roundQuotient_shift hden ?_ ?_ fun hodd => ⟨?_, ?_⟩
  · have hv := hlow.trans h.low
    rw [hunit]
    linarith
  · have hv := h.high
    rw [x.cast_highQuarters] at hv
    rw [hunit]
    linarith
  · have hv := hlow.trans_lt (h.odd hodd).1
    rw [hunit]
    linarith
  · have hv := (h.odd hodd).2
    rw [x.cast_highQuarters] at hv
    rw [hunit]
    linarith

/-- In half the unit, what is a quarter below a power of two is rounded to this power. -/
theorem roundQuotient_of_below (hlow : x.lowQuarters = 2 ^ 54 - 1)
    (hbelow : (num / den : ℚ) < 2 ^ 54 * 2 ^ (x.q - 2)) :
    roundQuotient (num <<< (-(x.q - 1)).toNat) (den <<< (x.q - 1).toNat) = 2 ^ 53 := by
  have hhalf : (2 : ℚ) ^ (x.q - 1) = 2 * 2 ^ (x.q - 2) := by
    have hq : x.q - 1 = x.q - 2 + (1 : ℕ) := by omega
    rw [hq, Magnitude.pow_eq_quarters]
    norm_num
  have hv := h.low
  rw [hlow] at hv
  refine roundQuotient_shift hden ?_ ?_ fun hodd => ?_
  · rw [hhalf]
    push_cast at hv ⊢
    linarith
  · rw [hhalf]
    push_cast
    linarith
  · norm_num at hodd

/-- Where the unit of a quotient is smaller than that of the magnitude it rounds to, the
magnitude is a power of two, and the quotient is just below it. -/
theorem below_of_log2_lt (hx : x.Regular) (hnum : 0 < num) (hq : -1074 < x.q)
    (hlog : quotientLog2 num den - 52 < x.q) :
    (num / den : ℚ) < 2 ^ 54 * 2 ^ (x.q - 2) ∧ x.m = fractionSize ∧
      quotientLog2 num den - 52 = x.q - 1 := by
  have hone : (1 : ℚ) < 2 := one_lt_two
  have hlogHigh := (quotientLog2_spec hnum hden).2
  have hbelow : (num / den : ℚ) < 2 ^ 54 * 2 ^ (x.q - 2) := by
    rw [← Magnitude.pow_eq_quarters]
    refine hlogHigh.trans_le (zpow_le_zpow_right₀ hone.le ?_)
    omega
  have hsize : x.m = fractionSize := by
    have hquarters : (x.lowQuarters : ℚ) < 2 ^ 54 :=
      lt_of_mul_lt_mul_right (h.low.trans_lt hbelow) (by positivity)
    have hlt : x.lowQuarters < 2 ^ 54 := by exact_mod_cast hquarters
    have hge := hx.low hq
    unfold Magnitude.lowQuarters at hlt
    simp only [fractionSize] at *
    split at hlt <;> omega
  have habove : (2 : ℚ) ^ (x.q - 2 + (53 : ℕ)) < 2 ^ (quotientLog2 num den + 1) := by
    rw [Magnitude.pow_eq_quarters]
    refine lt_of_le_of_lt (le_trans ?_ h.low) hlogHigh
    rw [hx.lowQuarters_eq hsize hq]
    gcongr
    norm_num
  rw [zpow_lt_zpow_iff_right₀ hone] at habove
  exact ⟨hbelow, hsize, by omega⟩

/-- **A quotient that rounds to a magnitude gives its bits.** -/
theorem bitsOfQuotient_eq (hx : x.Regular) (hm : x.m ≠ 0) : bitsOfQuotient num den = x.bits := by
  have hnum : 0 < num := by
    have hv := h.pos hm
    rw [lt_div_iff₀ (by exact_mod_cast hden), zero_mul] at hv
    exact_mod_cast hv
  have hle : quotientLog2 num den - 52 ≤ x.q := by
    have hlt := (quotientLog2_spec hnum hden).1.trans_lt (h.lt_pow hx)
    rw [zpow_lt_zpow_iff_right₀ one_lt_two] at hlt
    omega
  have hexponent := hx.exponent
  by_cases hside : max (quotientLog2 num den - 52) (-1074) = x.q
  · unfold bitsOfQuotient
    simp only [hside, roundQuotient_of_rounds hden h]
    exact Nat.min_eq_left hx.finite.le
  · -- the carry of the rounding makes up for the smaller unit
    have hq : -1074 < x.q := by omega
    obtain ⟨hbelow, hsize, hlog⟩ := below_of_log2_lt hden h hx hnum hq (by omega)
    have hunit : max (quotientLog2 num den - 52) (-1074) = x.q - 1 := by omega
    have hround := roundQuotient_of_below hden h (hx.lowQuarters_eq hsize hq) hbelow
    have hfinite := hx.finite
    unfold bitsOfQuotient
    simp only [hunit, hround]
    unfold Magnitude.bits at *
    simp only [fractionSize] at *
    omega

end Rounding

/-! ## Bits -/

theorem exponentField_eq (x : Binary64) :
    x.exponentField = x.bits.toNat / fractionSize % 0x800 := by
  have h := Nat.and_two_pow_sub_one_eq_mod (x.bits.toNat >>> 52) 11
  rw [exponentField, UInt64.toNat_and, UInt64.toNat_shiftRight]
  simpa [Nat.shiftRight_eq_div_pow, fractionSize] using h

theorem fractionField_eq (x : Binary64) :
    x.fractionField = x.bits.toNat % fractionSize := by
  have h := Nat.and_two_pow_sub_one_eq_mod x.bits.toNat 52
  rw [fractionField, UInt64.toNat_and]
  simpa [fractionSize] using h

theorem isNegative_iff (x : Binary64) :
    x.isNegative = true ↔ x.bits.toNat / 0x8000000000000000 = 1 := by
  rw [isNegative, beq_iff_eq, ← UInt64.toNat_inj, UInt64.toNat_shiftRight]
  simp [Nat.shiftRight_eq_div_pow]

/-- The bits of a magnitude are its fields. -/
theorem bits_magnitude (x : Binary64) :
    x.magnitude.bits = x.exponentField * fractionSize + x.fractionField := by
  unfold Magnitude.bits magnitude
  split
  · next he => simp [he]
  · next he =>
    obtain ⟨e, he⟩ := Nat.exists_eq_add_one_of_ne_zero he
    have hshift : (((e + 1 : ℕ) : ℤ) - 1075 + 1074).toNat = e := by omega
    simp only [he, hshift, Nat.add_mul]
    omega

/-- A number is its sign and the bits of its magnitude. -/
theorem withSign_bits (x : Binary64) : withSign x.isNegative x.magnitude.bits = x := by
  have hlt : x.bits.toNat < 2 ^ 64 := x.bits.toNat_lt
  have hbits : x.magnitude.bits = x.bits.toNat % 0x8000000000000000 := by
    have he := exponentField_eq x
    have hf := fractionField_eq x
    rw [bits_magnitude, he, hf]
    simp only [fractionSize]
    omega
  have hsign := isNegative_iff x
  have htoNat : (withSign x.isNegative x.magnitude.bits).bits.toNat = x.bits.toNat := by
    rw [hbits]
    show (UInt64.ofNat _).toNat = _
    rw [UInt64.toNat_ofNat']
    cases hneg : x.isNegative with
    | true =>
        have := hsign.1 hneg
        simp only [if_true]
        omega
    | false =>
        have : x.bits.toNat / 0x8000000000000000 ≠ 1 := fun h => by
          rw [hsign.2 h] at hneg
          contradiction
        simp only [Bool.false_eq_true, if_false]
        omega
  exact congrArg Binary64.mk (UInt64.toNat_inj.1 htoNat)

/-- The magnitude of a finite number is regular. -/
theorem regular_magnitude {x : Binary64} (h : x.isFinite = true) : x.magnitude.Regular := by
  have he := exponentField_eq x
  have hf := fractionField_eq x
  have hfinite : x.exponentField ≠ 0x7FF := by simpa [isFinite] using h
  unfold magnitude
  split
  · refine ⟨?_, ?_, ?_, ?_, ?_⟩ <;> simp only [Magnitude.bits, fractionSize] at *
    · omega
    · omega
    · omega
    · simp
    · omega
  · refine ⟨?_, ?_, ?_, ?_, ?_⟩ <;> simp only [Magnitude.bits, fractionSize] at *
    · omega
    · omega
    · omega
    · simp
      omega
    · omega

/-- A number without a magnitude is a zero. -/
theorem withSign_zero {x : Binary64} (h : x.isFinite = true) (hm : x.magnitude.m = 0) :
    withSign x.isNegative 0 = x := by
  have hbits : x.magnitude.bits = 0 := by
    have hx := regular_magnitude h
    have hlow := hx.low
    unfold Magnitude.bits
    simp only [fractionSize] at *
    omega
  rw [← hbits, withSign_bits]

/-! ## Decimals -/

theorem decimalLength_bounds {n : ℕ} (hn : n ≠ 0) :
    10 ^ (decimalLength n - 1) ≤ n ∧ n < 10 ^ decimalLength n ∧ decimalLength n ≠ 0 := by
  have hlen : decimalLength n = (Nat.toDigits 10 n).length := by rw [decimalLength, if_neg hn]
  have hpos : 0 < (Nat.toDigits 10 n).length := Nat.length_toDigits_pos
  rw [hlen]
  refine ⟨?_, (Nat.length_toDigits_le_iff (by decide) hpos).1 le_rfl, hpos.ne'⟩
  by_contra hlt
  rw [not_le] at hlt
  by_cases hone : (Nat.toDigits 10 n).length - 1 = 0
  · rw [hone] at hlt
    omega
  · have hle := (Nat.length_toDigits_le_iff (b := 10) (by decide) (by omega)).2 hlt
    omega

/-- Where the point of a decimal stands tells how large it is. -/
theorem point_bounds {digits : ℕ} (hd : digits ≠ 0) (exponent : ℤ) :
    (10 : ℚ) ^ ((decimalLength digits : ℤ) + exponent - 1) ≤ digits * 10 ^ exponent ∧
      (digits : ℚ) * 10 ^ exponent < 10 ^ ((decimalLength digits : ℤ) + exponent) := by
  obtain ⟨hlow, hhigh, hlen⟩ := decimalLength_bounds hd
  have hten : (10 : ℚ) ≠ 0 := by norm_num
  have hlow' : (10 : ℚ) ^ (((decimalLength digits - 1 : ℕ) : ℤ)) ≤ digits := by
    exact_mod_cast hlow
  have hhigh' : (digits : ℚ) < 10 ^ (decimalLength digits : ℤ) := by exact_mod_cast hhigh
  constructor
  · calc (10 : ℚ) ^ ((decimalLength digits : ℤ) + exponent - 1)
        = 10 ^ (((decimalLength digits - 1 : ℕ) : ℤ)) * 10 ^ exponent := by
          rw [← zpow_add₀ hten]
          congr 1
          omega
      _ ≤ digits * 10 ^ exponent := by gcongr
  · rw [zpow_add₀ hten]
    gcongr

namespace Magnitude

variable {x : Magnitude} {v : ℚ} (hx : x.Regular) (h : x.Rounds v)
include hx h

/-- What rounds to a finite magnitude is in the range of finite numbers. -/
theorem Rounds.range (hm : x.m ≠ 0) : (10 : ℚ) ^ (-330 : ℤ) ≤ v ∧ v < 10 ^ (310 : ℤ) := by
  constructor
  · have hlow : 2 ≤ x.lowQuarters := by
      unfold lowQuarters
      split <;> omega
    have hexp : (2 : ℚ) ^ (-1076 : ℤ) ≤ 2 ^ (x.q - 2) := by
      refine zpow_le_zpow_right₀ one_le_two ?_
      have := hx.exponent
      omega
    have hcast : (2 : ℚ) ≤ x.lowQuarters := by exact_mod_cast hlow
    have hnat : 2 ^ 1075 ≤ 10 ^ 330 := by decide +kernel
    have hpow : (2 : ℚ) ^ 1075 ≤ 10 ^ 330 := by exact_mod_cast hnat
    calc (10 : ℚ) ^ (-330 : ℤ) = (10 ^ 330)⁻¹ := by rw [zpow_neg]; rfl
      _ ≤ (2 ^ 1075)⁻¹ := by gcongr
      _ = 2 ^ (-1075 : ℤ) := by rw [zpow_neg]; rfl
      _ = 2 * 2 ^ (-1076 : ℤ) := by rw [← zpow_one_add₀ two_ne_zero]; rfl
      _ ≤ x.lowQuarters * 2 ^ (x.q - 2) := by gcongr
      _ ≤ v := h.low
  · have hq : x.q + 53 ≤ 1024 := by
      have hfinite := hx.finite
      have hlow := hx.low
      unfold bits at hfinite
      simp only [fractionSize] at *
      omega
    have hnat : 2 ^ 1024 ≤ 10 ^ 310 := by decide +kernel
    have hpow : (2 : ℚ) ^ 1024 ≤ 10 ^ 310 := by exact_mod_cast hnat
    calc v < 2 ^ (x.q + 53) := h.lt_pow hx
      _ ≤ (2 : ℚ) ^ (1024 : ℤ) := zpow_le_zpow_right₀ one_le_two hq
      _ ≤ 10 ^ (310 : ℤ) := hpow

end Magnitude

/-- **A decimal that rounds to a number reads as this number**, with its sign. -/
theorem ofDecimal_eq {x : Binary64} (hfinite : x.isFinite = true) (hm : x.magnitude.m ≠ 0)
    {digits : ℕ} {exponent : ℤ} (h : x.magnitude.Rounds (digits * 10 ^ exponent)) :
    ofDecimal x.isNegative digits exponent = x := by
  have hx := regular_magnitude hfinite
  have hten : (1 : ℚ) < 10 := by norm_num
  have hd : digits ≠ 0 := by
    rintro rfl
    have hpos := h.pos hm
    simp at hpos
  obtain ⟨hpointLow, hpointHigh⟩ := point_bounds hd exponent
  obtain ⟨hlow, hhigh⟩ := Magnitude.Rounds.range hx h hm
  have htiny : -330 < (decimalLength digits : ℤ) + exponent :=
    (zpow_lt_zpow_iff_right₀ hten).1 (hlow.trans_lt hpointHigh)
  have hhuge : (decimalLength digits : ℤ) + exponent - 1 < 310 :=
    (zpow_lt_zpow_iff_right₀ hten).1 (hpointLow.trans_lt hhigh)
  have hquot : ((digits * tenPow exponent.toNat : ℕ) : ℚ) / (tenPow (-exponent).toNat : ℕ) =
      digits * 10 ^ exponent := by
    rw [Nat.cast_mul, tenPow_eq, tenPow_eq, mul_div_assoc, ← zpow_eq_div (by norm_num)]
  rw [← hquot] at h
  have hbits := bitsOfQuotient_eq (tenPow_pos _) h hx hm
  unfold ofDecimal
  simp only
  rw [if_neg, if_neg, hbits, withSign_bits]
  · omega
  · omega

end Binary64

end SelectSql
