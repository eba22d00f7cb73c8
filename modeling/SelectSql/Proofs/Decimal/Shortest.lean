import SelectSql.Decimal.Shortest
import SelectSql.Proofs.Decimal.Rounding

/-!
# SelectSql.Proofs.Decimal.Shortest

The shortest decimal of a number reads back to this number. The test that chooses the digits
compares products of natural numbers; it decides whether the decimal is among the numbers
that round to the magnitude (`readsBack_iff`). Whichever grid has a hit passed this test, the
exact value passes it, and moving trailing zeros into the exponent changes no value.

Main statement: `Decimal.rounds_shortest`.
-/

namespace SelectSql.Decimal

open Binary64 (Magnitude tenPow tenPow_eq cast_shiftLeft)

/-- The number that a decimal writes. -/
def value (d : Decimal) : ℚ :=
  d.digits * 10 ^ d.exponent

/-! ## The test of a decimal -/

theorem compareScaled_eq (a : ℕ) (i : ℤ) (n : ℕ) (j : ℤ) :
    compareScaled a i n j = compare ((a : ℚ) * 10 ^ i) (n * 2 ^ j) := by
  have hten : (10 : ℚ) ≠ 0 := by norm_num
  have hpos : (0 : ℚ) < 2 ^ (-j).toNat * 10 ^ (-i).toNat := by positivity
  -- both sides are multiplied by the denominators of the powers
  have hleft : (((a * tenPow i.toNat) <<< (-j).toNat : ℕ) : ℚ) =
      a * 10 ^ i * (2 ^ (-j).toNat * 10 ^ (-i).toNat) := by
    rw [cast_shiftLeft, Nat.cast_mul, tenPow_eq, ← zpow_mul_pow_toNat hten i]
    ring
  have hright : (((n <<< j.toNat) * tenPow (-i).toNat : ℕ) : ℚ) =
      n * 2 ^ j * (2 ^ (-j).toNat * 10 ^ (-i).toNat) := by
    rw [Nat.cast_mul, cast_shiftLeft, tenPow_eq, ← zpow_mul_pow_toNat two_ne_zero j]
    ring
  unfold compareScaled
  rw [← cmp_eq_compare, ← cmp_eq_compare, ← (Nat.strictMono_cast (α := ℚ)).cmp_map_eq, hleft,
    hright, cmp_mul_pos_right hpos]

theorem readsBack_iff (x : Magnitude) (d : Decimal) :
    readsBack x d = true ↔ x.Rounds d.value := by
  have hends : readsBack x d = true ↔
      (x.lowQuarters * 2 ^ (x.q - 2) < d.value ∨
        x.m % 2 = 0 ∧ d.value = x.lowQuarters * 2 ^ (x.q - 2)) ∧
      (d.value < x.highQuarters * 2 ^ (x.q - 2) ∨
        x.m % 2 = 0 ∧ d.value = x.highQuarters * 2 ^ (x.q - 2)) := by
    unfold readsBack
    simp only [compareScaled_eq, Bool.and_eq_true, Bool.or_eq_true, beq_iff_eq,
      compare_gt_iff_gt, compare_lt_iff_lt, compare_eq_iff_eq]
    exact Iff.rfl
  rw [hends]
  constructor
  · rintro ⟨hlow, hhigh⟩
    refine ⟨?_, ?_, fun hodd => ⟨?_, ?_⟩⟩
    · rcases hlow with h | ⟨-, h⟩
      · exact h.le
      · exact h.ge
    · rcases hhigh with h | ⟨-, h⟩
      · exact h.le
      · exact h.le
    · exact hlow.resolve_right fun h => by omega
    · exact hhigh.resolve_right fun h => by omega
  · intro h
    rcases Nat.mod_two_eq_zero_or_one x.m with heven | hodd
    · exact ⟨h.low.lt_or_eq.imp_right fun h => ⟨heven, h.symm⟩,
        h.high.lt_or_eq.imp_right fun h => ⟨heven, h⟩⟩
    · exact ⟨.inl (h.odd hodd).1, .inl (h.odd hodd).2⟩

/-! ## The choice of the digits -/

/-- A hit on a grid passed the test. -/
theorem rounds_onGrid? {tie : Tie} {x : Magnitude} {exponent : ℤ} {d : Decimal}
    (h : onGrid? tie x exponent = some d) : x.Rounds d.value := by
  rw [← readsBack_iff]
  unfold onGrid? at h
  simp only at h
  split at h
  · contradiction
  · next hlow hhigh =>
    obtain rfl := Option.some.inj h
    exact hlow
  · next hlow hhigh =>
    obtain rfl := Option.some.inj h
    exact hhigh
  · next hlow hhigh =>
    split at h
    · obtain rfl := Option.some.inj h
      exact hlow
    · obtain rfl := Option.some.inj h
      exact hhigh
    · obtain rfl := Option.some.inj h
      exact hhigh
    · obtain rfl := Option.some.inj h
      split
      · exact hlow
      · exact hhigh

/-- The exact value is among those that round to the magnitude. -/
theorem rounds_exact {x : Magnitude} (hm : x.m ≠ 0) : x.Rounds (x.m * 2 ^ x.q) := by
  have hpos : (0 : ℚ) < 2 ^ (x.q - 2) := by positivity
  have hlow : (x.lowQuarters : ℚ) < 4 * x.m := by
    have h : x.lowQuarters < 4 * x.m := by
      unfold Magnitude.lowQuarters
      split <;> omega
    exact_mod_cast h
  have hhigh : (4 * x.m : ℚ) < x.highQuarters := by
    rw [x.cast_highQuarters]
    linarith
  have hvalue : (x.m * 2 ^ x.q : ℚ) = 4 * x.m * 2 ^ (x.q - 2) := by
    rw [x.unit_eq_quarters]
    ring
  rw [hvalue]
  exact ⟨by gcongr, by gcongr, fun _ => ⟨by gcongr, by gcongr⟩⟩

/-- The decimal that is taken where no grid has a hit is the exact value. -/
theorem value_exact (x : Magnitude) :
    value ⟨(x.m <<< x.q.toNat) * Nat.pow 5 (-x.q).toNat, -(-x.q).toNat⟩ = x.m * 2 ^ x.q := by
  have hfive : ((Nat.pow 5 (-x.q).toNat : ℕ) : ℚ) = 5 ^ (-x.q).toNat := by
    show ((5 ^ (-x.q).toNat : ℕ) : ℚ) = _
    push_cast
    rfl
  have hten : (10 : ℚ) ^ (-x.q).toNat = 2 ^ (-x.q).toNat * 5 ^ (-x.q).toNat := by
    rw [← mul_pow]
    norm_num
  unfold value
  simp only
  rw [Nat.cast_mul, cast_shiftLeft, hfive, zpow_neg, zpow_natCast, hten,
    zpow_eq_div two_ne_zero x.q]
  field_simp

/-- Moving zeros into the exponent changes no value. -/
theorem value_stripZeros (fuel : ℕ) (d : Decimal) : (stripZeros fuel d).value = d.value := by
  fun_induction stripZeros fuel d with
  | case1 d => rfl
  | case2 fuel d hzero ih =>
      obtain ⟨n, hn⟩ := Nat.dvd_of_mod_eq_zero hzero.2
      have hten : (10 : ℚ) ≠ 0 := by norm_num
      rw [ih]
      unfold value
      simp only [hn, Nat.mul_div_cancel_left n (show 0 < 10 by decide)]
      rw [zpow_add_one₀ hten]
      push_cast
      ring
  | case3 fuel d hzero => rfl

/-- **The shortest decimal of a magnitude rounds to it.** -/
theorem rounds_shortest (tie : Tie) {x : Magnitude} (hm : x.m ≠ 0) :
    x.Rounds (shortest tie x).value := by
  unfold shortest
  simp only [hm, if_false]
  rw [value_stripZeros]
  cases hfound : (List.range 17).findSome? fun n => onGrid? tie x (pointOf x - (n + 1 : ℕ)) with
  | none =>
      rw [Option.getD_none, value_exact]
      exact rounds_exact hm
  | some d =>
      obtain ⟨n, -, hn⟩ := List.exists_of_findSome?_eq_some hfound
      exact rounds_onGrid? hn

end SelectSql.Decimal
