import Conduit.Proofs.Json.Scaling

/-!
Natural numbers that have no more digits than a significand: they are floats, and as long as their
sum is one too they are added as they are.
-/

namespace Conduit.Binary64

variable {n m : ℕ}

theorem exists_scaled (positive : 0 < n) (small : n < 2 * blockSize) :
    ∃ k ≤ 52, blockSize ≤ n * 2 ^ k ∧ n * 2 ^ k < 2 * blockSize := by
  have low : 2 ^ n.log2 ≤ n := Nat.log2_self_le positive.ne'
  have high : n < 2 ^ (n.log2 + 1) := Nat.lt_log2_self
  have digits : n.log2 < 53 := (Nat.log2_lt positive.ne').2 (small.trans_eq (by decide))
  have block : blockSize = 2 ^ n.log2 * 2 ^ (52 - n.log2) := by
    rw [← pow_add, Nat.add_sub_cancel' (by omega)]
    rfl
  refine ⟨52 - n.log2, Nat.sub_le .., ?_, ?_⟩
  · rw [block]
    exact Nat.mul_le_mul_right _ low
  · calc n * 2 ^ (52 - n.log2) < 2 ^ (n.log2 + 1) * 2 ^ (52 - n.log2) :=
          Nat.mul_lt_mul_of_pos_right high (Nat.two_pow_pos _)
      _ = 2 * blockSize := by rw [block, pow_succ]; ring

theorem exists_value_eq (positive : 0 < n) (small : n < 2 * blockSize) :
    ∃ m : Magnitude, m.value = n := by
  obtain ⟨k, hk, low, high⟩ := exists_scaled positive small
  -- the block of magnitudes whose last place is `2 ^ -k`
  have block : 0 < blockSize := by decide
  have bound : (1075 - k) * blockSize + (n * 2 ^ k - blockSize) < top + 1 := by
    have := Nat.mul_le_mul_right blockSize (Nat.sub_le 1075 k)
    rw [top]
    omega
  have blocks : ((1075 - k) * blockSize + (n * 2 ^ k - blockSize)) / blockSize = 1075 - k := by
    rw [Nat.mul_comm, Nat.mul_add_div block, Nat.div_eq_of_lt (by omega), Nat.add_zero]
  have inside : ((1075 - k) * blockSize + (n * 2 ^ k - blockSize)) % blockSize =
      n * 2 ^ k - blockSize := by
    rw [Nat.mul_add_mod', Nat.mod_eq_of_lt (by omega)]
  have normal : ¬ (1075 - k) * blockSize + (n * 2 ^ k - blockSize) < blockSize := by
    have := Nat.mul_le_mul_right blockSize (show 1 ≤ 1075 - k by omega)
    omega
  refine ⟨⟨_, bound⟩, ?_⟩
  rw [Magnitude.value, Magnitude.significand, Magnitude.ulpExponent]
  simp only [if_neg normal, blocks, inside]
  have exponent : ((1075 - k : ℕ) : ℤ) - 1075 = -k := by omega
  rw [Nat.add_sub_cancel' low, exponent, zpow_neg, zpow_natCast]
  push_cast
  field_simp

theorem value_nearest_natCast (small : n < 2 * blockSize) : (Magnitude.nearest n).value = n := by
  rcases Nat.eq_zero_or_pos n with rfl | positive
  · rw [Nat.cast_zero, nearest_zero]
    decide +kernel
  · obtain ⟨m, value⟩ := exists_value_eq positive small
    rw [← value, Magnitude.nearest_value]

theorem nearest_natCast_finite (small : n < 2 * blockSize) :
    Magnitude.nearest (n : ℚ) ≠ .infinity := by
  refine nearest_ne_infinity (Nat.cast_nonneg n) ?_
  have below : (n : ℚ) < (2 * blockSize : ℕ) := by exact_mod_cast small
  calc (n : ℚ) < (2 * blockSize : ℕ) := below
    _ = 2 ^ (53 : ℤ) := by norm_num [blockSize]
    _ < 2 ^ (1023 : ℤ) := zpow_lt_zpow_right₀ one_lt_two (by norm_num)

theorem isFloat_of_lt (small : n < 2 * blockSize) : IsFloat n := by
  rw [IsFloat, ofNat_eq, toRat, if_neg (nearest_natCast_finite small), value_nearest_natCast small]

theorem ofNat_add (small : n + m < 2 * blockSize) : ofNat n + ofNat m = ofNat (n + m) := by
  have left : n < 2 * blockSize := by omega
  have right : m < 2 * blockSize := by omega
  have exact_ : (ofNat n).toRat + (ofNat m).toRat = (n + m : ℕ) := by
    rw [isFloat_of_lt left, isFloat_of_lt right, Nat.cast_add]
  rw [ofNat_eq, ofNat_eq] at exact_
  change Binary64.add _ _ = _
  rw [ofNat_eq, ofNat_eq, Binary64.add, if_neg (nearest_natCast_finite left),
    if_neg (nearest_natCast_finite right), exact_]
  rfl

end Conduit.Binary64
