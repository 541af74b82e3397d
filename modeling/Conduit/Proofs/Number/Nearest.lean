import Conduit.Proofs.Number.Rounding

/-!
The row of magnitudes, each a last place above the one before it, and rounding as the choice of the
nearest of them: a tie goes to the even one, and the order is kept.
-/

namespace Conduit.Binary64

/-! ### The row of magnitudes -/

def blockAt (i : ℕ) : ℕ := i / blockSize - 1

def stepAt (i : ℕ) : ℚ := 2 ^ (blockAt i - 1074 : ℤ)

/-- The value at a place in the row of magnitudes, which here goes on without an end. -/
def valueAt (i : ℕ) : ℚ := (i - blockAt i * blockSize : ℕ) * stepAt i

variable {i j e n : ℕ} {q r : ℚ}

theorem stepAt_pos (i : ℕ) : 0 < stepAt i := by
  rw [stepAt]
  positivity

theorem exists_digits (i : ℕ) : ∃ n, i = blockAt i * blockSize + n ∧ n < 2 * blockSize ∧
    (blockAt i = 0 ∨ blockSize ≤ n) := by
  have block : 0 < blockSize := by decide
  have parts := Nat.div_add_mod' i blockSize
  have inside := Nat.mod_lt i block
  have carry := Nat.sub_mul (i / blockSize) 1 blockSize
  rw [← blockAt, Nat.one_mul] at carry
  rcases Nat.eq_zero_or_pos (i / blockSize) with small | large
  · have first : blockAt i = 0 := by rw [blockAt, small]
    refine ⟨i, ?_, ?_, .inl first⟩
    · rw [first, Nat.zero_mul, Nat.zero_add]
    · rw [small] at parts
      omega
  · have atLeast := Nat.mul_le_mul_right blockSize large
    exact ⟨blockSize + i % blockSize, by omega, by omega, .inr (Nat.le_add_right ..)⟩

theorem valueAt_block (high : n ≤ 2 * blockSize) (low : e = 0 ∨ blockSize ≤ n) :
    valueAt (e * blockSize + n) = n * 2 ^ (e - 1074 : ℤ) := by
  have block : 0 < blockSize := by decide
  have quotient : (e * blockSize + n) / blockSize = e + n / blockSize := by
    rw [Nat.mul_comm, Nat.mul_add_div block]
  rcases high.eq_or_lt with rfl | high
  · have next : blockAt (e * blockSize + 2 * blockSize) = e + 1 := by
      rw [blockAt, quotient, Nat.mul_div_cancel _ block]
      rfl
    have digits : e * blockSize + 2 * blockSize - (e + 1) * blockSize = blockSize := by
      rw [Nat.add_mul]
      omega
    have exponent : ((e + 1 : ℕ) : ℤ) - 1074 = 1 + (e - 1074) := by
      push_cast
      ring
    rw [valueAt, stepAt, next, digits, exponent, zpow_add₀ two_ne_zero]
    push_cast
    ring
  · have same : blockAt (e * blockSize + n) = e := by
      rw [blockAt, quotient]
      rcases Nat.lt_or_ge n blockSize with small | large
      · rcases low with rfl | low
        · rw [Nat.div_eq_of_lt small]
        · omega
      · have one : n / blockSize = 1 := Nat.div_eq_of_lt_le (by omega) (by omega)
        rw [one, Nat.add_sub_cancel]
    rw [valueAt, stepAt, same, Nat.add_sub_cancel_left]

theorem valueAt_succ (i : ℕ) : valueAt (i + 1) = valueAt i + stepAt i := by
  obtain ⟨n, digits, high, low⟩ := exists_digits i
  have here := valueAt_block high.le low
  have next := valueAt_block (n := n + 1) high (low.imp_right fun low => Nat.le_succ_of_le low)
  rw [← digits] at here
  rw [← Nat.add_assoc, ← digits] at next
  rw [here, next, stepAt]
  push_cast
  ring

theorem valueAt_strictMono : StrictMono valueAt := by
  refine strictMono_nat_of_lt_succ fun i => ?_
  rw [valueAt_succ]
  exact lt_add_of_pos_right _ (stepAt_pos i)

theorem valueAt_zero : valueAt 0 = 0 := by
  simp [valueAt]

theorem valueAt_nonneg (i : ℕ) : 0 ≤ valueAt i := by
  rw [← valueAt_zero]
  exact valueAt_strictMono.monotone (Nat.zero_le i)

theorem valueAt_le_of_lt (less : i < j) : valueAt j ≤ 2 ^ 53 * (valueAt j - valueAt i) := by
  obtain ⟨k, rfl⟩ : ∃ k, j = k + 1 := ⟨j - 1, by omega⟩
  obtain ⟨n, digits, high, low⟩ := exists_digits k
  have next := valueAt_block (n := n + 1) high (low.imp_right fun low => Nat.le_succ_of_le low)
  rw [← Nat.add_assoc, ← digits, ← stepAt] at next
  have most : ((n + 1 : ℕ) : ℚ) ≤ 2 ^ 53 := by
    have high : ((n + 1 : ℕ) : ℚ) ≤ (2 * blockSize : ℕ) := by exact_mod_cast high
    norm_num [blockSize] at high ⊢
    exact high
  have below : valueAt i ≤ valueAt k := valueAt_strictMono.monotone (Nat.lt_succ_iff.1 less)
  have gap : stepAt k ≤ valueAt (k + 1) - valueAt i := by
    rw [valueAt_succ]
    linarith
  calc valueAt (k + 1) = (n + 1 : ℕ) * stepAt k := next
    _ ≤ 2 ^ 53 * stepAt k := mul_le_mul_of_nonneg_right most (stepAt_pos k).le
    _ ≤ 2 ^ 53 * (valueAt (k + 1) - valueAt i) := mul_le_mul_of_nonneg_left gap (by positivity)

theorem Magnitude.value_eq (m : Magnitude) : m.value = valueAt m.val := by
  have block : 0 < blockSize := by decide
  rw [value, significand, ulpExponent, valueAt, stepAt, blockAt]
  split
  · next small =>
    rw [Nat.div_eq_of_lt small]
    rfl
  · next large =>
    have first : 1 ≤ m.val / blockSize := (Nat.one_le_div_iff block).2 (not_lt.1 large)
    have parts := Nat.div_add_mod' m.val blockSize
    have carry := Nat.sub_mul (m.val / blockSize) 1 blockSize
    have atLeast := Nat.mul_le_mul_right blockSize first
    have digits : m.val - (m.val / blockSize - 1) * blockSize = blockSize + m.val % blockSize := by
      omega
    have exponent : ((m.val / blockSize - 1 : ℕ) : ℤ) - 1074 = (m.val / blockSize : ℕ) - 1075 := by
      omega
    rw [digits, exponent]

/-! ### Rounding -/

theorem lastPlace_bounds (positive : 0 < q) :
    q < 2 ^ (lastPlace q + 53) ∧ (lastPlace q = -1074 ∨ 2 ^ (lastPlace q + 52) ≤ q) := by
  have low := zpow_log_le (b := 2) (by decide) positive
  have high := lt_zpow_log (b := 2) (by decide) q
  rw [Nat.cast_ofNat] at low high
  rw [lastPlace]
  constructor
  · exact high.trans_le (zpow_le_zpow_right₀ one_le_two (by omega))
  · rcases le_or_gt (Int.log 2 q - 52) (-1074) with small | large
    · exact .inl (max_eq_right small)
    · rw [max_eq_left large.le, sub_add_cancel]
      exact .inr low

theorem floor_lastPlace (positive : 0 < q) : ⌊q / 2 ^ lastPlace q⌋₊ < 2 * blockSize ∧
    (lastPlace q = -1074 ∨ blockSize ≤ ⌊q / 2 ^ lastPlace q⌋₊) := by
  obtain ⟨high, low⟩ := lastPlace_bounds positive
  generalize lastPlace q = e at high low
  have power : (0 : ℚ) < 2 ^ e := by positivity
  rw [add_comm, zpow_add₀ two_ne_zero] at high low
  constructor
  · refine (Nat.floor_lt (by positivity)).2 ((div_lt_iff₀ power).2 ?_)
    norm_num [blockSize] at high ⊢
    exact high
  · refine low.imp id fun low => Nat.le_floor ((le_div_iff₀ power).2 ?_)
    norm_num [blockSize] at low ⊢
    exact low

theorem parity_block (e n : ℕ) : (e * blockSize + n) % 2 = n % 2 := by
  rw [blockSize]
  omega

def RoundsDown (q : ℚ) (i : ℕ) : Prop :=
  2 * (q - valueAt i) < stepAt i ∨ 2 * (q - valueAt i) = stepAt i ∧ i % 2 = 0

instance (q : ℚ) (i : ℕ) : Decidable (RoundsDown q i) := inferInstanceAs (Decidable (_ ∨ _))

theorem RoundsDown.anti (down : RoundsDown r i) (le : q ≤ r) : RoundsDown q i := by
  rcases le.eq_or_lt with rfl | less
  · exact down
  · left
    rcases down with closer | ⟨tie, -⟩
    · linarith
    · linarith

theorem exists_between (nonneg : 0 ≤ q) : ∃ i, valueAt i ≤ q ∧ q < valueAt (i + 1) ∧
    place q = if RoundsDown q i then i else i + 1 := by
  rcases nonneg.eq_or_lt with rfl | positive
  · refine ⟨0, valueAt_zero.le, ?_, ?_⟩
    · rw [valueAt_succ, valueAt_zero, zero_add]
      exact stepAt_pos 0
    · have down : RoundsDown 0 0 := by
        left
        rw [valueAt_zero, sub_zero, mul_zero]
        exact stepAt_pos 0
      rw [if_pos down]
      exact if_pos rfl
  · obtain ⟨few, many⟩ := floor_lastPlace positive
    have least : -1074 ≤ lastPlace q := le_max_right _ _
    have rounded : place q = (lastPlace q + 1074).toNat * blockSize +
        roundEven (q / 2 ^ lastPlace q) := if_neg positive.ne'
    have exponent : ((lastPlace q + 1074).toNat : ℤ) - 1074 = lastPlace q := by omega
    -- From here on only the place `e` and the whole part `n` of `q / 2 ^ e` matter.
    generalize lastPlace q = e at few many least rounded exponent
    have many : (e + 1074).toNat = 0 ∨ blockSize ≤ ⌊q / 2 ^ e⌋₊ := many.imp_left fun _ => by omega
    generalize (e + 1074).toNat = k at many rounded exponent
    have power : (0 : ℚ) < 2 ^ e := by positivity
    have below : (⌊q / 2 ^ e⌋₊ : ℚ) ≤ q / 2 ^ e := Nat.floor_le (by positivity)
    have above : q / 2 ^ e < ⌊q / 2 ^ e⌋₊ + 1 := Nat.lt_floor_add_one _
    rw [roundEven] at rounded
    generalize ⌊q / 2 ^ e⌋₊ = n at few many below above rounded
    have here := valueAt_block few.le many
    have next := valueAt_block (n := n + 1) few (many.imp_right fun many => Nat.le_succ_of_le many)
    rw [exponent] at here next
    have step : stepAt (k * blockSize + n) = 2 ^ e := by
      have succ := valueAt_succ (k * blockSize + n)
      rw [Nat.add_assoc, next, here] at succ
      push_cast at succ
      linarith
    refine ⟨k * blockSize + n, ?_, ?_, ?_⟩
    · rw [here]
      exact (le_div_iff₀ power).1 below
    · rw [Nat.add_assoc, next]
      exact_mod_cast (div_lt_iff₀ power).1 above
    · -- the test in units of the last place
      have scaled : 2 * (q - n * 2 ^ e) = 2 * (q / 2 ^ e - n) * 2 ^ e := by
        field_simp
      have down : RoundsDown q (k * blockSize + n) ↔ 2 * (q / 2 ^ e - n) < 1 ∨
          2 * (q / 2 ^ e - n) = 1 ∧ n % 2 = 0 := by
        rw [RoundsDown, here, step, parity_block, scaled, mul_lt_iff_lt_one_left power,
          mul_eq_right₀ power.ne']
      rw [rounded, if_congr down rfl rfl]
      split
      · rfl
      · rw [Nat.add_assoc]

theorem place_valueAt (i : ℕ) : place (valueAt i) = i := by
  obtain ⟨j, low, high, rounded⟩ := exists_between (valueAt_nonneg i)
  have first : j ≤ i := valueAt_strictMono.le_iff_le.1 low
  have last : i < j + 1 := valueAt_strictMono.lt_iff_lt.1 high
  obtain rfl : j = i := by omega
  have down : RoundsDown (valueAt j) j := by
    left
    rw [sub_self, mul_zero]
    exact stepAt_pos j
  rw [rounded, if_pos down]

theorem place_mono (nonneg : 0 ≤ q) (le : q ≤ r) : place q ≤ place r := by
  obtain ⟨i, low, high, rounded⟩ := exists_between nonneg
  obtain ⟨j, low', high', rounded'⟩ := exists_between (nonneg.trans le)
  have order : i < j + 1 := valueAt_strictMono.lt_iff_lt.1 (by linarith)
  rw [rounded, rounded']
  rcases Nat.lt_or_eq_of_le (Nat.lt_succ_iff.1 order) with before | rfl
  · split <;> split <;> omega
  · by_cases down : RoundsDown r i
    · rw [if_pos down, if_pos (down.anti le)]
    · rw [if_neg down]
      split <;> omega

theorem place_between {p : ℚ} {i : ℕ} (nonneg : 0 ≤ p) (low : p ≤ q) (high : q ≤ r)
    (first : place p = i) (last : place r = i) : place q = i := by
  have atLeast := place_mono nonneg low
  have atMost := place_mono (nonneg.trans low) high
  omega

theorem nearer_below (low : valueAt j ≤ q) (before : i ≤ j) :
    q - valueAt j ≤ |valueAt i - q| ∧ (i ≠ j → q - valueAt j < |valueAt i - q|) := by
  rcases before.eq_or_lt with rfl | less
  · rw [abs_of_nonpos (by linarith)]
    exact ⟨by linarith, fun different => absurd rfl different⟩
  · have order := valueAt_strictMono less
    rw [abs_of_neg (by linarith)]
    exact ⟨by linarith, fun _ => by linarith⟩

theorem nearer_above (high : q ≤ valueAt j) (after : j ≤ i) :
    valueAt j - q ≤ |valueAt i - q| ∧ (i ≠ j → valueAt j - q < |valueAt i - q|) := by
  rcases after.eq_or_lt with rfl | more
  · rw [abs_of_nonneg (by linarith)]
    exact ⟨le_rfl, fun different => absurd rfl different⟩
  · have order := valueAt_strictMono more
    rw [abs_of_pos (by linarith)]
    exact ⟨by linarith, fun _ => by linarith⟩

theorem place_closest (nonneg : 0 ≤ q) (i : ℕ) : |valueAt (place q) - q| ≤ |valueAt i - q| ∧
    (i ≠ place q → |valueAt i - q| = |valueAt (place q) - q| → place q % 2 = 0) := by
  obtain ⟨j, low, high, rounded⟩ := exists_between nonneg
  have next := valueAt_succ j
  have here : |valueAt j - q| = q - valueAt j := by
    rw [abs_of_nonpos (by linarith), neg_sub]
  have there : |valueAt (j + 1) - q| = valueAt (j + 1) - q := abs_of_pos (by linarith)
  by_cases down : RoundsDown q j
  · rw [rounded, if_pos down, here]
    rcases Nat.lt_or_ge j i with after | before
    · -- a place on the other side of the number
      obtain ⟨least, -⟩ := nearer_above high.le after
      rcases down with closer | ⟨tie, even⟩
      · exact ⟨by linarith, fun _ same => by linarith⟩
      · exact ⟨by linarith, fun _ _ => even⟩
    · obtain ⟨least, more⟩ := nearer_below low before
      exact ⟨least, fun different same => absurd same (more different).ne'⟩
  · rw [rounded, if_neg down, there]
    rcases Nat.lt_or_ge j i with after | before
    · obtain ⟨least, more⟩ := nearer_above high.le after
      exact ⟨least, fun different same => absurd same (more different).ne'⟩
    · obtain ⟨least, -⟩ := nearer_below low before
      rw [RoundsDown, not_or, not_lt] at down
      refine ⟨by linarith, fun _ same => ?_⟩
      have tie : 2 * (q - valueAt j) = stepAt j := by linarith
      have odd : ¬ j % 2 = 0 := fun even => down.2 ⟨tie, even⟩
      omega

/-! ### Overflow -/

def overflow : ℚ := 2 ^ 1024 - 2 ^ 970

theorem stepAt_greatest : stepAt (top - 1) = 2 * 2 ^ 970 := by
  have block : blockAt (top - 1) = 2045 := by decide
  have exponent : ((2045 : ℕ) : ℤ) - 1074 = (971 : ℕ) := by norm_num
  rw [stepAt, block, exponent, zpow_natCast, pow_succ']

theorem valueAt_greatest : valueAt (top - 1) = overflow - 2 ^ 970 := by
  have place : top - 1 = 2045 * blockSize + (2 * blockSize - 1) := by decide
  have exponent : ((2045 : ℕ) : ℤ) - 1074 = (971 : ℕ) := by norm_num
  have digits : ((2 * blockSize - 1 : ℕ) : ℚ) = 2 ^ 53 - 1 := by norm_num [blockSize]
  have power : (2 : ℚ) ^ 1024 = 2 ^ 54 * 2 ^ 970 := by rw [← pow_add]
  have double : (2 : ℚ) ^ 971 = 2 * 2 ^ 970 := pow_succ' ..
  rw [place, valueAt_block (by decide) (.inr (by decide)), exponent, zpow_natCast, digits, overflow,
    power, double]
  generalize (2 : ℚ) ^ 970 = half
  ring

theorem exists_half : ∃ half > 0, stepAt (top - 1) = 2 * half ∧
    valueAt (top - 1) = overflow - half ∧ valueAt top = overflow + half := by
  refine ⟨2 ^ 970, by positivity, stepAt_greatest, valueAt_greatest, ?_⟩
  have succ := valueAt_succ (top - 1)
  rw [valueAt_greatest, stepAt_greatest] at succ
  refine succ.trans ?_
  generalize (2 : ℚ) ^ 970 = half
  ring

theorem top_le_place_iff (nonneg : 0 ≤ q) : top ≤ place q ↔ overflow ≤ q := by
  obtain ⟨half, positive, step, greatest, beyond⟩ := exists_half
  obtain ⟨j, low, high, rounded⟩ := exists_between nonneg
  have last : 0 < top := by decide
  rcases lt_trichotomy j (top - 1) with before | rfl | after
  · have less := valueAt_strictMono.monotone (show j + 1 ≤ top - 1 from before)
    have most : place q < top := by
      rw [rounded]
      split <;> omega
    exact iff_of_false (not_le.2 most) (by linarith)
  · have odd : ¬ (top - 1) % 2 = 0 := by decide
    have down : RoundsDown q (top - 1) ↔ q < overflow := by
      rw [RoundsDown, greatest, step]
      simp only [odd, and_false, or_false]
      constructor <;> intro <;> linarith
    rw [rounded, ← not_lt, ← not_lt, ← down]
    split
    · next below => exact iff_of_false (not_not.2 (by omega)) (not_not.2 below)
    · next above => exact iff_of_true (by omega) above
  · have more := valueAt_strictMono.monotone (show top ≤ j by omega)
    have least : top ≤ place q := by
      rw [rounded]
      split <;> omega
    exact iff_of_true least (by linarith)

/-! ### The nearest float -/

def negateIf (negative : Bool) (q : ℚ) : ℚ := if negative then -q else q

def IsFinite : Binary64 → Prop
  | nan => False
  | signed _ m => m ≠ .infinity

def IsEven : Binary64 → Prop
  | nan => False
  | signed _ m => m.significand % 2 = 0

structure Closest (q : ℚ) (x : Binary64) : Prop where
  finite : x.IsFinite
  closest : ∀ y : Binary64, y.IsFinite → |x.toRat - q| ≤ |y.toRat - q|
  even : ∀ y : Binary64, y.IsFinite → y.toRat ≠ x.toRat → |y.toRat - q| = |x.toRat - q| → x.IsEven

/-- The float that a number is rounded to: the closest or, from half a step above the greatest on,
infinity. -/
def Nearest (q : ℚ) (x : Binary64) : Prop :=
  if |q| < overflow then Closest q x else x = infinity (q < 0)

theorem toRat_signed {m : Magnitude} (finite : m ≠ .infinity) (negative : Bool) :
    (signed negative m).toRat = negateIf negative (valueAt m.val) := by
  rw [← m.value_eq]
  cases negative <;> simp [toRat, negateIf, finite]

theorem significand_parity (m : Magnitude) : m.significand % 2 = m.val % 2 := by
  rw [Magnitude.significand, blockSize]
  split
  · rfl
  · omega

section Signs

variable {a : ℚ} (s t : Bool)

theorem abs_negateIf : |negateIf s q| = |q| := by
  cases s
  · rfl
  · exact abs_neg q

theorem abs_negateIf_sub (a : ℚ) : |negateIf s a - negateIf s q| = |a - q| := by
  cases s
  · rfl
  · simp only [negateIf, ↓reduceIte]
    rw [neg_sub_neg, abs_sub_comm]

theorem abs_negateIf_sub_other (left : 0 ≤ a) (right : 0 ≤ q) (other : s ≠ t) :
    |negateIf s a - negateIf t q| = a + q := by
  cases s <;> cases t
  · exact absurd rfl other
  · simp only [negateIf, ↓reduceIte, Bool.false_eq_true, sub_neg_eq_add]
    exact abs_of_nonneg (add_nonneg left right)
  · simp only [negateIf, ↓reduceIte, Bool.false_eq_true, ← neg_add', abs_neg]
    exact abs_of_nonneg (add_nonneg left right)
  · exact absurd rfl other

theorem abs_sub_le_negateIf (left : 0 ≤ a) (right : 0 ≤ q) :
    |a - q| ≤ |negateIf s a - negateIf t q| := by
  by_cases same : s = t
  · rw [same, abs_negateIf_sub]
  · rw [abs_negateIf_sub_other s t left right same]
    exact abs_le.2 ⟨by linarith, by linarith⟩

end Signs

theorem place_eq_zero {s t : Bool} (nonneg : 0 ≤ q) (other : s ≠ t)
    (same : |negateIf s (valueAt (place q)) - negateIf t q| = |valueAt (place q) - q|) :
    place q = 0 := by
  have above := valueAt_nonneg (place q)
  rw [abs_negateIf_sub_other s t above nonneg other] at same
  rcases le_total q (valueAt (place q)) with less | more
  · rw [abs_of_nonneg (sub_nonneg.2 less)] at same
    have none : q = 0 := by linarith
    exact if_pos none
  · rw [abs_of_nonpos (sub_nonpos.2 more)] at same
    have none : valueAt (place q) = valueAt 0 := by
      rw [valueAt_zero]
      linarith
    exact valueAt_strictMono.injective none

theorem closest_signed (nonneg : 0 ≤ q) (negative : Bool) {m : Magnitude}
    (finite : m ≠ .infinity) (rounded : m.val = place q) :
    Closest (negateIf negative q) (signed negative m) := by
  have here : |(signed negative m).toRat - negateIf negative q| = |valueAt (place q) - q| := by
    rw [toRat_signed finite, abs_negateIf_sub, rounded]
  refine ⟨finite, fun y finite' => ?_, fun y finite' different same => ?_⟩
  · cases y with
    | nan => exact absurd finite' id
    | signed s m' =>
      have apart := abs_sub_le_negateIf s negative (valueAt_nonneg m'.val) nonneg
      rw [here, toRat_signed finite']
      exact (place_closest nonneg m'.val).1.trans apart
  · cases y with
    | nan => exact absurd finite' id
    | signed s m' =>
      obtain ⟨closest, even⟩ := place_closest nonneg m'.val
      have apart := abs_sub_le_negateIf s negative (valueAt_nonneg m'.val) nonneg
      rw [here, toRat_signed finite'] at same
      rw [IsEven, significand_parity, rounded]
      by_cases place' : m'.val = place q
      · have other : s ≠ negative := by
          rintro rfl
          exact different (by rw [toRat_signed finite', toRat_signed finite, place', rounded])
        rw [place'] at same
        rw [place_eq_zero nonneg other same]
      · exact even place' (le_antisymm (apart.trans_eq same) closest)

theorem nearest_signed (nonneg : 0 ≤ q) (negative : Bool) :
    Nearest (negateIf negative q) (signed negative (.nearest q)) := by
  have rounded := nearest_val q
  rw [abs_of_nonneg nonneg] at rounded
  rw [Nearest, abs_negateIf, abs_of_nonneg nonneg]
  split
  · next below =>
    have less : place q < top := by rwa [← not_le, top_le_place_iff nonneg, not_le]
    have finite : Magnitude.nearest q ≠ .infinity := by
      intro infinite
      rw [infinite] at rounded
      have same : top = min (place q) top := rounded
      omega
    exact closest_signed nonneg negative finite (rounded.trans (min_eq_left less.le))
  · next above =>
    have least := (top_le_place_iff nonneg).2 (not_lt.1 above)
    have infinite : Magnitude.nearest q = .infinity := Fin.ext (rounded.trans (min_eq_right least))
    have positive : 0 < q := by
      obtain ⟨half, some, -, greatest, -⟩ := exists_half
      have finite := valueAt_nonneg (top - 1)
      linarith
    rw [infinite, infinity]
    congr 1
    cases negative
    · simp [negateIf, nonneg]
    · simp [negateIf, positive]

end Conduit.Binary64
