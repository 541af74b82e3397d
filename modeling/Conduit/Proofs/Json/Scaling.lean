import Conduit.Json.Numeral
import Conduit.Proofs.Number.Literal

/-!
Scaling by powers of ten.  A numeral is rounded first when its digits become a float and then at
every scaling, so it is read as the float that is nearest to it if no more than one of these
roundings changes anything.
-/

namespace Conduit

open Binary64 (Magnitude)

namespace Binary64

/-! ### Natural numbers that are floats -/

def IsFloat (n : ℕ) : Prop := (ofNat n).toRat = n

instance (n : ℕ) : Decidable (IsFloat n) := inferInstanceAs (Decidable ((ofNat n).toRat = n))

theorem IsFloat.value_nearest {n : ℕ} (exact_ : IsFloat n) : (Magnitude.nearest n).value = n := by
  rw [IsFloat, ofNat_eq] at exact_
  by_cases infinite : Magnitude.nearest n = .infinity
  · rw [toRat, if_pos infinite] at exact_
    rw [← exact_, nearest_zero] at infinite
    exact absurd infinite (by decide)
  · rwa [toRat, if_neg infinite] at exact_

theorem mul_finite {a b : Magnitude} (left : a ≠ .infinity) (right : b ≠ .infinity) :
    signed false a * signed false b = signed false (.nearest (a.value * b.value)) := by
  change Binary64.mul _ _ = _
  rw [Binary64.mul, if_neg (not_or.2 ⟨left, right⟩)]
  rfl

theorem div_finite {a b : Magnitude} (left : a ≠ .infinity) (right : b ≠ .infinity)
    (nonzero : b ≠ .zero) :
    signed false a / signed false b = signed false (.nearest (a.value / b.value)) := by
  change Binary64.div _ _ = _
  rw [Binary64.div, if_neg left, if_neg right, if_neg nonzero]
  rfl

end Binary64

open Binary64 (IsFloat nearest_ne_infinity nearest_zero)

namespace Json

namespace Numeral

/-! ### Powers of ten -/

def power (k : ℕ) : Magnitude := .nearest ((10 ^ k : ℕ) : ℚ)

theorem powerOfTen_eq (k : ℕ) : powerOfTen k = .signed false (power k) := Binary64.ofNat_eq _

theorem power_proper : ∀ k ≤ greatestPower, power k ≠ .infinity ∧ power k ≠ .zero := by
  decide +kernel

theorem isFloat_ten_pow : ∀ k ≤ 22, IsFloat (10 ^ k) := by decide +kernel

theorem value_power {k : ℕ} (small : k ≤ 22) : (power k).value = 10 ^ k := by
  rw [power, (isFloat_ten_pow k small).value_nearest]
  push_cast
  rfl

/-! ### Scaling -/

variable {a : Magnitude} {w : ℕ} {e : ℤ}

theorem scale_of_neg (finite : a ≠ .infinity) (below : e < 0)
    (small : e.natAbs ≤ greatestPower) : scale (.signed false a) e =
      some (.signed false (.nearest (a.value / (power e.natAbs).value))) := by
  rw [scale, if_pos small, if_pos below, powerOfTen_eq,
    Binary64.div_finite finite (power_proper _ small).1 (power_proper _ small).2]

theorem scale_of_nonneg (finite : a ≠ .infinity) (above : 0 ≤ e) (small : e.natAbs ≤ greatestPower)
    (product : Magnitude.nearest (a.value * (power e.natAbs).value) ≠ .infinity) :
    scale (.signed false a) e =
      some (.signed false (.nearest (a.value * (power e.natAbs).value))) := by
  rw [scale, if_pos small, if_neg (not_lt.2 above), powerOfTen_eq,
    Binary64.mul_finite finite (power_proper _ small).1]
  exact if_neg (by simpa [Binary64.isInfinite] using product)

theorem scale_zero (finite : a ≠ .infinity) :
    scale (.signed false a) 0 = some (.signed false a) := by
  have one : (power (0 : ℤ).natAbs).value = 1 := by simpa using value_power (Nat.zero_le 22)
  have same : Magnitude.nearest (a.value * (power (0 : ℤ).natAbs).value) = a := by
    rw [one, mul_one, Magnitude.nearest_value]
  rw [scale_of_nonneg finite le_rfl (Nat.zero_le _) (by rwa [same]), same]

theorem scale_of_zero (e : ℤ) :
    scale (.signed false .zero) e = some (.signed false .zero) := by
  have finite : Magnitude.zero ≠ .infinity := by decide
  have value : Magnitude.zero.value = 0 := by decide +kernel
  by_cases small : e.natAbs ≤ greatestPower
  · by_cases below : e < 0
    · rw [scale_of_neg finite below small, value, zero_div, nearest_zero]
    · have product : Magnitude.nearest (Magnitude.zero.value * (power e.natAbs).value) = .zero := by
        rw [value, zero_mul, nearest_zero]
      rw [scale_of_nonneg finite (not_lt.1 below) small (by rwa [product]), product]
  · rw [scale, if_neg small]
    exact if_pos rfl

theorem word_le (fits : w < wordLimit) : (w : ℚ) ≤ 2 ^ (64 : ℤ) := by
  have below : (w : ℚ) < (wordLimit : ℕ) := by exact_mod_cast fits
  exact below.le.trans (by norm_num [wordLimit])

theorem word_finite (fits : w < wordLimit) : Magnitude.nearest (w : ℚ) ≠ .infinity :=
  nearest_ne_infinity (Nat.cast_nonneg w)
    ((word_le fits).trans_lt (zpow_lt_zpow_right₀ one_lt_two (by norm_num)))

theorem scale_of_isFloat (fits : w < wordLimit) (isFloat : IsFloat w) (small : e.natAbs ≤ 22) :
    scale (.ofNat w) e = some (.signed false (.nearest (w * 10 ^ e))) := by
  have finite := word_finite fits
  have few : e.natAbs ≤ greatestPower := small.trans (by decide)
  rw [Binary64.ofNat_eq]
  by_cases below : e < 0
  · rw [scale_of_neg finite below few, isFloat.value_nearest, value_power small, div_eq_mul_inv,
      ← zpow_natCast, ← zpow_neg]
    congr 6
    omega
  · have exponent : (10 : ℚ) ^ e = 10 ^ e.natAbs := by
      rw [← zpow_natCast]
      congr 1
      omega
    have product : (Magnitude.nearest (w : ℚ)).value * (power e.natAbs).value = w * 10 ^ e := by
      rw [isFloat.value_nearest, value_power small, exponent]
    have least : 0 ≤ (w : ℚ) * 10 ^ e := by positivity
    have range : (w : ℚ) * 10 ^ e < (2 : ℚ) ^ (1023 : ℤ) := by
      have powers : (10 : ℚ) ^ e ≤ 10 ^ (22 : ℤ) :=
        zpow_le_zpow_right₀ (by norm_num) (by omega)
      calc (w : ℚ) * 10 ^ e ≤ 2 ^ (64 : ℤ) * 10 ^ (22 : ℤ) :=
            mul_le_mul (word_le fits) powers (by positivity) (by positivity)
        _ ≤ 2 ^ (200 : ℤ) := by norm_num
        _ < 2 ^ (1023 : ℤ) := zpow_lt_zpow_right₀ one_lt_two (by norm_num)
    rw [scale_of_nonneg finite (not_lt.1 below) few, product]
    rw [product]
    exact nearest_ne_infinity least range

/-! ### The digits that count -/

def gathered (n : Numeral) : ℕ × ℤ :=
  let (word, excess) := gather 0 n.whole
  let fraction := n.fraction.getD []
  let (word, dropped) := gather word fraction
  (word, excess.length - (fraction.length - dropped.length : ℕ) + n.exponent.getD 0)

theorem gather_lt {ds : List Char} (fits : w < wordLimit) : (gather w ds).1 < wordLimit := by
  induction ds generalizing w with
  | nil => exact fits
  | cons d ds ih =>
    rw [gather]
    split
    · next longer => exact ih longer
    · exact fits

theorem gathered_lt (n : Numeral) : n.gathered.1 < wordLimit := gather_lt (gather_lt (by decide))

theorem magnitude?_eq (n : Numeral) :
    n.magnitude? = scale (.ofNat n.gathered.1) n.gathered.2 := by
  have fits : (gather 0 n.whole).1 < wordLimit := gather_lt (by decide)
  rw [magnitude?, gathered]
  generalize gather 0 n.whole = first at fits ⊢
  obtain ⟨word, excess⟩ := first
  dsimp only at fits ⊢
  split
  · next plain =>
    -- a plain integer is scaled by no power of ten
    simp only [Bool.and_eq_true, List.isEmpty_iff, Option.isNone_iff_eq_none] at plain
    obtain ⟨⟨rfl, fraction⟩, exponent⟩ := plain
    rw [fraction, exponent]
    change some (Binary64.ofNat word) = scale (.ofNat word) 0
    rw [Binary64.ofNat_eq, scale_zero (word_finite fits)]
  · rfl

inductive RoundedOnce (w : ℕ) (e : ℤ) : Prop
  | zero (zero : w = 0)
  | unscaled (zero : e = 0)
  | scaled (isFloat : IsFloat w) (small : e.natAbs ≤ 22)

theorem scale_of_roundedOnce (fits : w < wordLimit) (once : RoundedOnce w e) :
    scale (.ofNat w) e = some (.signed false (.nearest (w * 10 ^ e))) := by
  cases once with
  | zero zero =>
    rw [zero, Binary64.ofNat_eq, Nat.cast_zero, zero_mul, nearest_zero, scale_of_zero]
  | unscaled zero =>
    rw [zero, zpow_zero, mul_one, Binary64.ofNat_eq, scale_zero (word_finite fits)]
  | scaled isFloat small => exact scale_of_isFloat fits isFloat small

theorem value?_of_roundedOnce {n : Numeral} (once : RoundedOnce n.gathered.1 n.gathered.2) :
    n.value? = some (.signed n.negative (.nearest (n.gathered.1 * 10 ^ n.gathered.2))) := by
  rw [value?, magnitude?_eq, scale_of_roundedOnce n.gathered_lt once]
  cases n.negative <;> rfl

end Numeral

end Json

end Conduit
