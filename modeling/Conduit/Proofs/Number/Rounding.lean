import Conduit.Number.Binary64
import Mathlib.Data.Int.Log
import Mathlib.Data.Rat.Floor
import Mathlib.Algebra.Order.Floor.Semifield
import Mathlib.Algebra.Order.Field.Power
import Mathlib.Tactic.FieldSimp
import Mathlib.Tactic.Linarith
import Mathlib.Tactic.NormNum
import Mathlib.Tactic.Positivity
import Mathlib.Tactic.Ring

/-!
Rounding to the nearest magnitude as a function of the exact quotient, whatever numerator and
denominator it is given by.  A magnitude is the nearest to its own value.
-/

namespace Conduit.Binary64

/-! ### Quotients and powers -/

theorem cast_scaled {b : ℕ} (base : 0 < b) (n d : ℕ) (e : ℤ) :
    ((n * Nat.pow b (-e).toNat : ℕ) : ℚ) / (d * Nat.pow b e.toNat : ℕ) = n / d / (b : ℚ) ^ e := by
  have base : (b : ℚ) ≠ 0 := by positivity
  have split : (b : ℚ) ^ e * (b : ℚ) ^ (-e).toNat = (b : ℚ) ^ e.toNat := by
    rw [← zpow_natCast, ← zpow_natCast, ← zpow_add₀ base]
    congr 1
    omega
  push_cast [Nat.pow_eq]
  rw [← split]
  field_simp

theorem cast_shifted {b : ℕ} (base : 0 < b) (n : ℕ) (e : ℤ) :
    ((n * Nat.pow b e.toNat : ℕ) : ℚ) / (Nat.pow b (-e).toNat : ℕ) = n * (b : ℚ) ^ e := by
  have scaled := cast_scaled base n 1 (-e)
  rwa [neg_neg, Nat.one_mul, Nat.cast_one, div_one, zpow_neg, div_inv_eq_mul] at scaled

theorem log_eq_of {b : ℕ} (base : 1 < b) {q : ℚ} {e : ℤ} (low : (b : ℚ) ^ e ≤ q)
    (high : q < (b : ℚ) ^ (e + 1)) : Int.log b q = e := by
  have positive : 0 < q := lt_of_lt_of_le (by positivity) low
  have atLeast := (Int.zpow_le_iff_le_log base positive).1 low
  have below := (Int.lt_zpow_iff_log_lt base positive).1 high
  omega

theorem zpow_log_le {b : ℕ} (base : 1 < b) {q : ℚ} (positive : 0 < q) :
    (b : ℚ) ^ Int.log b q ≤ q := Int.zpow_log_le_self base positive

theorem lt_zpow_log {b : ℕ} (base : 1 < b) (q : ℚ) : q < (b : ℚ) ^ (Int.log b q + 1) :=
  Int.lt_zpow_succ_log_self base q

/-! ### The nearest natural number -/

def roundEven (q : ℚ) : ℕ :=
  if 2 * (q - ⌊q⌋₊) < 1 ∨ 2 * (q - ⌊q⌋₊) = 1 ∧ ⌊q⌋₊ % 2 = 0 then ⌊q⌋₊ else ⌊q⌋₊ + 1

theorem twice_rest (n : ℕ) {d : ℕ} (positive : 0 < d) :
    2 * ((n : ℚ) / d - (n / d : ℕ)) = (2 * (n % d) : ℕ) / (d : ℚ) := by
  have below : (d : ℚ) ≠ 0 := by exact_mod_cast positive.ne'
  have parts : (n : ℚ) = d * (n / d : ℕ) + (n % d : ℕ) := by
    exact_mod_cast (Nat.div_add_mod n d).symm
  rw [eq_div_iff below, mul_assoc, sub_mul, div_mul_cancel₀ _ below, parts]
  push_cast
  ring

theorem nearestEven_eq (n : ℕ) {d : ℕ} (positive : 0 < d) :
    nearestEven n d = roundEven (n / d) := by
  have below : (0 : ℚ) < d := by exact_mod_cast positive
  have floor : ⌊(n : ℚ) / d⌋₊ = n / d := Nat.floor_div_eq_div n d
  have lt : (2 * (n % d) : ℕ) / (d : ℚ) < 1 ↔ 2 * (n % d) < d := by
    rw [div_lt_one below, Nat.cast_lt]
  have eq : (2 * (n % d) : ℕ) / (d : ℚ) = 1 ↔ 2 * (n % d) = d := by
    rw [div_eq_one_iff_eq below.ne', Nat.cast_inj]
  simp only [nearestEven, roundEven, floor, twice_rest n positive, lt, eq]

theorem roundEven_natCast (n : ℕ) : roundEven n = n := by
  simp [roundEven]

theorem roundEven_of_lt {q : ℚ} (small : q < 1 / 2) : roundEven q = 0 := by
  have floor : ⌊q⌋₊ = 0 := Nat.floor_eq_zero.2 (by linarith)
  rw [roundEven, floor, if_pos]
  left
  push_cast
  linarith

theorem le_roundEven {q : ℚ} {n : ℕ} (low : n ≤ q) : n ≤ roundEven q := by
  have floor : n ≤ ⌊q⌋₊ := Nat.le_floor low
  rw [roundEven]
  split <;> omega

theorem roundEven_le {q : ℚ} {n : ℕ} (high : q ≤ n) : roundEven q ≤ n := by
  have floor : ⌊q⌋₊ ≤ n := Nat.floor_le_of_le high
  rw [roundEven]
  split
  · exact floor
  · next up =>
    have apart : ⌊q⌋₊ ≠ n := fun same => up (.inl (by rw [same]; linarith))
    omega

/-! ### The nearest magnitude -/

def lastPlace (q : ℚ) : ℤ := max (Int.log 2 q - 52) (-1074)

def place (q : ℚ) : ℕ :=
  if q = 0 then 0
  else (lastPlace q + 1074).toNat * blockSize + roundEven (q / 2 ^ lastPlace q)

theorem log2_le {n : ℕ} (positive : 0 < n) : (2 : ℚ) ^ (n.log2 : ℤ) ≤ n := by
  rw [zpow_natCast]
  exact_mod_cast Nat.log2_self_le positive.ne'

theorem lt_log2 (n : ℕ) : (n : ℚ) < 2 ^ ((n.log2 : ℤ) + 1) := by
  have below : n < 2 ^ (n.log2 + 1) := Nat.lt_log2_self
  exact_mod_cast below

theorem scaled_le_iff (n : ℕ) {d : ℕ} (hd : 0 < d) (e : ℤ) :
    d * Nat.pow 2 e.toNat ≤ n * Nat.pow 2 (-e).toNat ↔ (2 : ℚ) ^ e ≤ n / d := by
  have scaled := cast_scaled (b := 2) (by decide) n d e
  have denominator : (0 : ℚ) < (d * Nat.pow 2 e.toNat : ℕ) := by
    exact_mod_cast Nat.mul_pos hd (Nat.pow_pos (by decide))
  rw [← @Nat.cast_le ℚ, ← one_le_div denominator, scaled, Nat.cast_ofNat,
    one_le_div (by positivity)]

theorem le_quotient {n d : ℕ} (hn : 0 < n) (hd : 0 < d) :
    (2 : ℚ) ^ ((n.log2 : ℤ) - d.log2 - 1) ≤ n / d := by
  have below : (0 : ℚ) < d := by exact_mod_cast hd
  rw [le_div_iff₀ below]
  calc (2 : ℚ) ^ ((n.log2 : ℤ) - d.log2 - 1) * d
      ≤ 2 ^ ((n.log2 : ℤ) - d.log2 - 1) * 2 ^ ((d.log2 : ℤ) + 1) :=
        mul_le_mul_of_nonneg_left (lt_log2 d).le (by positivity)
    _ = 2 ^ (n.log2 : ℤ) := by rw [← zpow_add₀ two_ne_zero]; congr 1; ring
    _ ≤ n := log2_le hn

theorem quotient_lt (n : ℕ) {d : ℕ} (hd : 0 < d) :
    (n : ℚ) / d < 2 ^ ((n.log2 : ℤ) - d.log2 + 1) := by
  have below : (0 : ℚ) < d := by exact_mod_cast hd
  rw [div_lt_iff₀ below]
  calc (n : ℚ) < 2 ^ ((n.log2 : ℤ) + 1) := lt_log2 n
    _ = 2 ^ ((n.log2 : ℤ) - d.log2 + 1) * 2 ^ (d.log2 : ℤ) := by
        rw [← zpow_add₀ two_ne_zero]; congr 1; ring
    _ ≤ 2 ^ ((n.log2 : ℤ) - d.log2 + 1) * d :=
        mul_le_mul_of_nonneg_left (log2_le hd) (by positivity)

theorem floorLog2_eq {n d : ℕ} (hn : 0 < n) (hd : 0 < d) :
    floorLog2 n d = Int.log 2 ((n : ℚ) / d) := by
  have base : (1 : ℕ) < 2 := by decide
  have low := le_quotient hn hd
  have high := quotient_lt n hd
  simp only [floorLog2, scaled_le_iff n hd]
  split
  · next atLeast => exact (log_eq_of base (by exact_mod_cast atLeast) (by exact_mod_cast high)).symm
  · next less =>
    refine (log_eq_of base (by exact_mod_cast low) ?_).symm
    rw [sub_add_cancel]
    exact_mod_cast not_le.1 less

theorem nearestIndex_eq (n : ℕ) {d : ℕ} (hd : 0 < d) :
    nearestIndex n d = place ((n : ℚ) / d) := by
  have below : (d : ℚ) ≠ 0 := by exact_mod_cast hd.ne'
  by_cases zero : n = 0
  · simp [nearestIndex, place, zero]
  · have positive : 0 < n := Nat.pos_of_ne_zero zero
    have nonzero : (n : ℚ) / d ≠ 0 := div_ne_zero (by exact_mod_cast zero) below
    have scaled (e : ℤ) : scaledNearest n d e = roundEven ((n : ℚ) / d / 2 ^ e) := by
      have denominator : 0 < d * Nat.pow 2 e.toNat := Nat.mul_pos hd (Nat.pow_pos (by decide))
      rw [scaledNearest, nearestEven_eq _ denominator, cast_scaled (by decide)]
      rfl
    simp only [nearestIndex, zero, ↓reduceIte, floorLog2_eq positive hd, scaled, place, nonzero,
      lastPlace]

theorem natAbs_num_div_den (q : ℚ) : (q.num.natAbs : ℚ) / q.den = |q| := by
  rw [Nat.cast_natAbs, Int.cast_abs]
  conv_rhs => rw [← Rat.num_div_den q, abs_div, Nat.abs_cast]

theorem nearest_val (q : ℚ) : (Magnitude.nearest q).val = min (place |q|) top := by
  simp only [Magnitude.nearest, nearestIndex_eq _ q.den_pos, natAbs_num_div_den]

theorem place_of_le {q : ℚ} (large : (2 : ℚ) ^ (1024 : ℤ) ≤ q) : top ≤ place q := by
  have positive : 0 < q := lt_of_lt_of_le (by positivity) large
  have log : 1024 ≤ Int.log 2 q := (Int.zpow_le_iff_le_log (b := 2) (by decide) positive).1 large
  have exponent : lastPlace q = Int.log 2 q - 52 := max_eq_left (by omega)
  have digits : blockSize ≤ roundEven (q / 2 ^ lastPlace q) := by
    refine le_roundEven ?_
    rw [le_div_iff₀ (by positivity), exponent]
    calc ((blockSize : ℕ) : ℚ) * 2 ^ (Int.log 2 q - 52)
        = 2 ^ (52 : ℤ) * 2 ^ (Int.log 2 q - 52) := by norm_num [blockSize]
      _ = 2 ^ Int.log 2 q := by rw [← zpow_add₀ two_ne_zero]; congr 1; ring
      _ ≤ q := by exact_mod_cast zpow_log_le (b := 2) (by decide) positive
  rw [place, if_neg positive.ne']
  have blocks : 2046 ≤ (lastPlace q + 1074).toNat := by omega
  have := Nat.mul_le_mul_right blockSize blocks
  rw [top]
  omega

theorem place_lt_top {q : ℚ} (positive : 0 < q) (small : q < (2 : ℚ) ^ (1023 : ℤ)) :
    place q < top := by
  have log : Int.log 2 q < 1023 := (Int.lt_zpow_iff_log_lt (b := 2) (by decide) positive).1 small
  have last : Int.log 2 q - 52 ≤ lastPlace q := le_max_left _ _
  have digits : roundEven (q / 2 ^ lastPlace q) ≤ 2 * blockSize := by
    refine roundEven_le ?_
    rw [div_le_iff₀ (by positivity)]
    calc q ≤ 2 ^ (Int.log 2 q + 1) := (lt_zpow_log (b := 2) (by decide) q).le
      _ ≤ 2 ^ (53 + lastPlace q) := zpow_le_zpow_right₀ (by norm_num) (by omega)
      _ = (2 * blockSize : ℕ) * 2 ^ lastPlace q := by
        rw [zpow_add₀ two_ne_zero]
        norm_num [blockSize]
  have blocks : (lastPlace q + 1074).toNat ≤ 2044 := by
    rw [lastPlace]
    omega
  have := Nat.mul_le_mul_right blockSize blocks
  have block : 0 < blockSize := by decide
  rw [place, if_neg positive.ne', top]
  omega

theorem place_of_lt {q : ℚ} (nonneg : 0 ≤ q) (small : q < (2 : ℚ) ^ (-1075 : ℤ)) :
    place q = 0 := by
  rcases nonneg.eq_or_lt with rfl | positive
  · exact if_pos rfl
  · have log : Int.log 2 q < -1075 := (Int.lt_zpow_iff_log_lt (b := 2) (by decide) positive).1 small
    have exponent : lastPlace q = -1074 := max_eq_right (by omega)
    have half : q / 2 ^ (-1074 : ℤ) < 1 / 2 := by
      rw [div_lt_iff₀ (by positivity)]
      calc q < 2 ^ (-1075 : ℤ) := small
        _ = 1 / 2 * 2 ^ (-1074 : ℤ) := by
          rw [show (-1075 : ℤ) = -1 + -1074 by norm_num, zpow_add₀ two_ne_zero]; norm_num
    rw [place, if_neg positive.ne', exponent, roundEven_of_lt half]
    rfl

theorem nearest_neg (q : ℚ) : Magnitude.nearest (-q) = .nearest q := by
  apply Fin.ext
  rw [nearest_val, nearest_val, abs_neg]

theorem ofNat_eq (n : ℕ) : ofNat n = signed false (.nearest n) := by
  rw [ofNat, round]
  split
  · rfl
  · rw [decide_eq_false (not_lt.2 (Nat.cast_nonneg n))]

theorem nearest_zero : Magnitude.nearest 0 = .zero := by
  apply Fin.ext
  rw [nearest_val, abs_zero, place, if_pos rfl]
  rfl

theorem nearest_ne_infinity {q : ℚ} (nonneg : 0 ≤ q) (small : q < (2 : ℚ) ^ (1023 : ℤ)) :
    Magnitude.nearest q ≠ .infinity := by
  intro infinite
  have same : (Magnitude.nearest q).val = top := congrArg Fin.val infinite
  rw [nearest_val, abs_of_nonneg nonneg] at same
  rcases nonneg.eq_or_lt with rfl | positive
  · rw [place, if_pos rfl] at same
    exact absurd same (by decide)
  · have below := place_lt_top positive small
    omega

/-! ### A magnitude and its value -/

namespace Magnitude

theorem value_nonneg (m : Magnitude) : 0 ≤ m.value := by
  rw [value]
  positivity

theorem value_pos {m : Magnitude} (some : m ≠ zero) : 0 < m.value := by
  have nonzero : m.val ≠ 0 := fun same => some (Fin.ext same)
  have digits : 0 < m.significand := by
    rw [significand]
    split
    · exact Nat.pos_of_ne_zero nonzero
    · exact Nat.add_pos_left (by decide) _
  have : (0 : ℚ) < m.significand := by exact_mod_cast digits
  rw [value]
  positivity

theorem place_of_lastPlace {n : ℕ} {e : ℤ} (positive : 0 < n)
    (last : lastPlace ((n : ℚ) * 2 ^ e) = e) :
    place ((n : ℚ) * 2 ^ e) = (e + 1074).toNat * blockSize + n := by
  have digits : (n : ℚ) * 2 ^ e / 2 ^ e = n := mul_div_cancel_right₀ _ (by positivity)
  have nonzero : (n : ℚ) * 2 ^ e ≠ 0 := by positivity
  rw [place, if_neg nonzero, last, digits, roundEven_natCast]

theorem lastPlace_normal {n : ℕ} {e : ℤ} (low : blockSize ≤ n) (high : n < 2 * blockSize)
    (normal : -1074 ≤ e) : lastPlace ((n : ℚ) * 2 ^ e) = e := by
  have log : Int.log 2 ((n : ℚ) * 2 ^ e) = e + 52 := by
    refine log_eq_of (by decide) ?_ ?_
    · have low : (2 : ℚ) ^ (52 : ℤ) ≤ n := by
        have : ((blockSize : ℕ) : ℚ) ≤ n := by exact_mod_cast low
        norm_num [blockSize] at this ⊢
        exact this
      rw [add_comm, Nat.cast_ofNat, zpow_add₀ two_ne_zero]
      exact mul_le_mul_of_nonneg_right low (by positivity)
    · have high : (n : ℚ) < 2 ^ (53 : ℤ) := by
        have : (n : ℚ) < ((2 * blockSize : ℕ) : ℚ) := by exact_mod_cast high
        norm_num [blockSize] at this ⊢
        exact this
      have split : e + 52 + 1 = 53 + e := by ring
      rw [split, Nat.cast_ofNat, zpow_add₀ two_ne_zero]
      exact mul_lt_mul_of_pos_right high (by positivity)
  rw [lastPlace, log]
  omega

theorem lastPlace_subnormal {n : ℕ} (positive : 0 < n) (high : n < blockSize) :
    lastPlace ((n : ℚ) * 2 ^ (-1074 : ℤ)) = -1074 := by
  have nonzero : 0 < (n : ℚ) * 2 ^ (-1074 : ℤ) := by positivity
  have log : Int.log 2 ((n : ℚ) * 2 ^ (-1074 : ℤ)) < -1022 := by
    refine (Int.lt_zpow_iff_log_lt (by decide) nonzero).1 ?_
    have high : (n : ℚ) < 2 ^ (52 : ℤ) := by
      have : (n : ℚ) < (blockSize : ℕ) := by exact_mod_cast high
      norm_num [blockSize] at this ⊢
      exact this
    rw [show (-1022 : ℤ) = 52 + -1074 by norm_num, Nat.cast_ofNat, zpow_add₀ two_ne_zero]
    exact mul_lt_mul_of_pos_right high (by positivity)
  rw [lastPlace]
  omega

theorem place_value (m : Magnitude) : place m.value = m.val := by
  by_cases small : m.val < blockSize
  · have digits : m.significand = m.val := if_pos small
    have exponent : m.ulpExponent = -1074 := if_pos small
    rw [value, digits, exponent]
    rcases Nat.eq_zero_or_pos m.val with zero | positive
    · simp [place, zero]
    · rw [place_of_lastPlace positive (lastPlace_subnormal positive small)]
      simp
  · have digits : m.significand = blockSize + m.val % blockSize := if_neg small
    have exponent : m.ulpExponent = (m.val / blockSize : ℕ) - 1075 := if_neg small
    have block : 0 < blockSize := by decide
    have first : 1 ≤ m.val / blockSize := (Nat.one_le_div_iff block).2 (not_lt.1 small)
    have inside := Nat.mod_lt m.val block
    have parts := Nat.div_add_mod' m.val blockSize
    have carry := Nat.sub_mul (m.val / blockSize) 1 blockSize
    have atLeast := Nat.mul_le_mul_right blockSize first
    rw [value, digits, exponent, place_of_lastPlace (Nat.add_pos_left block _)
      (lastPlace_normal (by omega) (by omega) (by omega))]
    have toNat : ((m.val / blockSize : ℕ) - 1075 + 1074 : ℤ).toNat = m.val / blockSize - 1 := by
      omega
    rw [toNat]
    omega

theorem nearest_value (m : Magnitude) : nearest m.value = m := by
  apply Fin.ext
  rw [nearest_val, abs_of_nonneg m.value_nonneg, place_value]
  omega

end Magnitude

end Conduit.Binary64
