import Conduit.Number.Shortest
import Conduit.Proofs.Number.Digits
import Mathlib.Data.Nat.Prime.Basic

/-!
The decimal found for a magnitude reads back as it: whichever number of digits the search stops at,
and also where it falls back to all digits of the value.
-/

namespace Conduit

open Binary64 (Magnitude place nearest_val)

namespace Scientific

theorem value_eq {c : ℕ} {k e : ℤ} (positive : 0 < c) (log : Int.log 10 ((c : ℚ) * 10 ^ k) = e) :
    (⟨c, e⟩ : Scientific).value = c * 10 ^ k := by
  have positive' : (0 : ℚ) < c := by exact_mod_cast positive
  have ten : (10 : ℚ) ≠ 0 := by norm_num
  have shifted : Int.log 10 ((c : ℚ) * 10 ^ k) = Int.log 10 (c : ℚ) + k := by
    refine Binary64.log_eq_of (by decide) ?_ ?_
    · rw [Nat.cast_ofNat, zpow_add₀ ten]
      have low := Binary64.zpow_log_le (b := 10) (by decide) positive'
      exact mul_le_mul_of_nonneg_right (by exact_mod_cast low) (by positivity)
    · rw [add_right_comm, Nat.cast_ofNat, zpow_add₀ ten]
      have high := Binary64.lt_zpow_log (b := 10) (by decide) (c : ℚ)
      exact mul_lt_mul_of_pos_right (by exact_mod_cast high) (by positivity)
  have scale : (⟨c, e⟩ : Scientific).scale = k := by
    have count := log_toDigits positive
    simp only [scale, digits]
    omega
  rw [value, scale]

end Scientific

namespace Binary64

theorem log_floor {q : ℚ} (large : 1 ≤ q) :
    Int.log 10 q = (Nat.toDigits 10 ⌊q⌋₊).length - 1 := by
  have positive : 0 < ⌊q⌋₊ := Nat.floor_pos.2 large
  rw [← log_toDigits positive, Int.log_of_one_le_right 10 large, Int.log_natCast]

theorem floorLog10_eq {n d : ℕ} (hn : 0 < n) (hd : 0 < d) :
    floorLog10 n d = Int.log 10 ((n : ℚ) / d) := by
  have hn' : (0 : ℚ) < n := by exact_mod_cast hn
  have hd' : (0 : ℚ) < d := by exact_mod_cast hd
  rw [floorLog10]
  split
  · next le =>
    have large : 1 ≤ (n : ℚ) / d := by
      rw [one_le_div hd']
      exact_mod_cast le
    rw [log_floor large, Nat.floor_div_eq_div]
  · next less =>
    have large : 1 ≤ (d : ℚ) / n := by
      rw [one_le_div hn']
      exact_mod_cast (Nat.not_le.1 less).le
    -- The digits of `d / n` leave the logarithm of `n / d` at `-k - 1` or `-k`, and the test of the
    -- definition tells which of the two it is.
    have count := log_floor large
    rw [Nat.floor_div_eq_div] at count
    have some : 0 < (Nat.toDigits 10 (d / n)).length := Nat.length_toDigits_pos
    generalize hk : (Nat.toDigits 10 (d / n)).length - 1 = k
    have log : Int.log 10 ((d : ℚ) / n) = k := by omega
    have positive : 0 < (d : ℚ) / n := lt_of_lt_of_le one_pos large
    have low : (10 : ℚ) ^ ((k : ℤ) - 1) < d / n := by
      have low := zpow_log_le (b := 10) (by decide) positive
      rw [log, Nat.cast_ofNat] at low
      exact (zpow_lt_zpow_right₀ (by norm_num) (by omega)).trans_le low
    have high : (d : ℚ) / n ≤ 10 ^ ((k : ℤ) + 1) := by
      have high := lt_zpow_log (b := 10) (by decide) ((d : ℚ) / n)
      rw [log, Nat.cast_ofNat] at high
      exact high.le
    have test : d ≤ n * Nat.pow 10 k ↔ (d : ℚ) / n ≤ 10 ^ (k : ℤ) := by
      rw [div_le_iff₀ hn', zpow_natCast, mul_comm]
      exact_mod_cast Iff.rfl
    have atLeast := (Int.zpow_lt_iff_lt_clog (b := 10) (by decide) positive).1 low
    have atMost := (Int.le_zpow_iff_clog_le (b := 10) (by decide) positive).1 high
    have exact_ := Int.le_zpow_iff_clog_le (b := 10) (x := k) (by decide) positive
    rw [← inv_div, Int.log_inv]
    simp only [test]
    split
    · next le =>
      have := exact_.1 (by exact_mod_cast le)
      omega
    · next less =>
      have := mt exact_.2 (by exact_mod_cast less)
      omega

def around (q : ℚ) (e : ℤ) : List ℕ :=
  if 2 * (q / 10 ^ e - ⌊q / 10 ^ e⌋₊) < 1 then [⌊q / 10 ^ e⌋₊, ⌊q / 10 ^ e⌋₊ + 1]
  else [⌊q / 10 ^ e⌋₊ + 1, ⌊q / 10 ^ e⌋₊]

theorem neighbours_eq (n : ℕ) {d : ℕ} (positive : 0 < d) (e : ℤ) :
    neighbours n d e = around (n / d) e := by
  have denominator : 0 < d * Nat.pow 10 e.toNat := Nat.mul_pos positive (Nat.pow_pos (by decide))
  have scaled := cast_scaled (b := 10) (by decide) n d e
  rw [Nat.cast_ofNat] at scaled
  have lt (r : ℕ) : (r : ℚ) / (d * Nat.pow 10 e.toNat : ℕ) < 1 ↔ r < d * Nat.pow 10 e.toNat := by
    rw [div_lt_one (by exact_mod_cast denominator), Nat.cast_lt]
  simp only [around, ← scaled, Nat.floor_div_eq_div, twice_rest _ denominator, lt]
  rfl

theorem mem_around {q : ℚ} {e : ℤ} {c : ℕ} :
    c ∈ around q e ↔ c = ⌊q / 10 ^ e⌋₊ ∨ c = ⌊q / 10 ^ e⌋₊ + 1 := by
  rw [around]
  split <;> simp [or_comm]

theorem bounds_of_mem_around {count c : ℕ} {q : ℚ} (positive : 0 < q) (some : 0 < count)
    (mem : c ∈ around q (Int.log 10 q + 1 - count)) : 10 ^ (count - 1) ≤ c ∧ c ≤ 10 ^ count := by
  have ten : (10 : ℚ) ≠ 0 := by norm_num
  have floor := mem_around.1 mem
  have low := zpow_log_le (b := 10) (by decide) positive
  have high := lt_zpow_log (b := 10) (by decide) q
  generalize Int.log 10 q = lead at floor low high
  rw [Nat.cast_ofNat] at low high
  have atLeast : 10 ^ (count - 1) ≤ ⌊q / 10 ^ (lead + 1 - count)⌋₊ := by
    have exponent : ((count - 1 : ℕ) : ℤ) + (lead + 1 - count) = lead := by omega
    refine Nat.le_floor ?_
    rw [le_div_iff₀ (by positivity), Nat.cast_pow, Nat.cast_ofNat, ← zpow_natCast,
      ← zpow_add₀ ten, exponent]
    exact low
  have below : ⌊q / 10 ^ (lead + 1 - count)⌋₊ < 10 ^ count := by
    have exponent : (count : ℤ) + (lead + 1 - count) = lead + 1 := by omega
    refine (Nat.floor_lt (by positivity)).2 ?_
    rw [div_lt_iff₀ (by positivity), Nat.cast_pow, Nat.cast_ofNat, ← zpow_natCast,
      ← zpow_add₀ ten, exponent]
    exact high
  omega

theorem value_quotient (m : Magnitude) : (m.value.num.natAbs : ℚ) / m.value.den = m.value := by
  rw [natAbs_num_div_den, abs_of_nonneg m.value_nonneg]

theorem num_pos {m : Magnitude} (some : m ≠ .zero) : 0 < m.value.num.natAbs := by
  have positive := Magnitude.value_pos some
  exact Int.natAbs_pos.2 (Rat.num_pos.2 positive).ne'

theorem place_eq_nearestIndex (c : ℕ) (e : ℤ) :
    place ((c : ℚ) * 10 ^ e) = nearestIndex (c * Nat.pow 10 e.toNat) (Nat.pow 10 (-e).toNat) := by
  have shifted := cast_shifted (b := 10) (by decide) c e
  rw [Nat.cast_ofNat] at shifted
  have positive : 0 < Nat.pow 10 (-e).toNat := Nat.pow_pos (by decide)
  rw [nearestIndex_eq _ positive, shifted]

theorem log_of_digits {c count : ℕ} (some : 0 < count) (low : 10 ^ (count - 1) ≤ c)
    (high : c < 10 ^ count) (lead : ℤ) : Int.log 10 ((c : ℚ) * 10 ^ (lead + 1 - count)) = lead := by
  have ten : (10 : ℚ) ≠ 0 := by norm_num
  refine log_eq_of (by decide) ?_ ?_
  · have exponent : lead = ((count - 1 : ℕ) : ℤ) + (lead + 1 - count) := by omega
    conv_lhs => rw [exponent]
    rw [Nat.cast_ofNat, zpow_add₀ ten, zpow_natCast]
    exact mul_le_mul_of_nonneg_right (by exact_mod_cast low) (by positivity)
  · have exponent : lead + 1 = (count : ℤ) + (lead + 1 - count) := by omega
    conv_rhs => rw [exponent]
    rw [Nat.cast_ofNat, zpow_add₀ ten, zpow_natCast]
    exact mul_lt_mul_of_pos_right (by exact_mod_cast high) (by positivity)

theorem value_carry (count : ℕ) (lead : ℤ) : (⟨1, lead + 1⟩ : Scientific).value =
    ((10 ^ count : ℕ) : ℚ) * 10 ^ (lead + 1 - count) := by
  have ten : (10 : ℚ) ≠ 0 := by norm_num
  have log : Int.log 10 (((1 : ℕ) : ℚ) * 10 ^ (lead + 1)) = lead + 1 := by
    rw [Nat.cast_one, one_mul]
    exact_mod_cast Int.log_zpow (R := ℚ) (b := 10) (by decide) (lead + 1)
  have exponent : lead + 1 = (count : ℤ) + (lead + 1 - count) := by omega
  have power : ((10 ^ count : ℕ) : ℚ) = 10 ^ (count : ℤ) := by
    rw [Nat.cast_pow, Nat.cast_ofNat, zpow_natCast]
  rw [Scientific.value_eq one_pos log, power, ← zpow_add₀ ten, ← exponent, Nat.cast_one, one_mul]

def readsBack (m : Magnitude) (e : ℤ) (c : ℕ) : Bool := place ((c : ℚ) * 10 ^ e) = m.val

theorem readsBack_iff {m : Magnitude} {e : ℤ} {c : ℕ} :
    readsBack m e c = true ↔ place ((c : ℚ) * 10 ^ e) = m.val := decide_eq_true_iff

theorem decimalOf?_eq {m : Magnitude} (nonzero : m ≠ .zero) (count : ℕ) : decimalOf? m count =
    ((around m.value (Int.log 10 m.value + 1 - count)).find?
      (readsBack m (Int.log 10 m.value + 1 - count))).map fun c =>
        if c = 10 ^ count then ⟨1, Int.log 10 m.value + 1⟩ else ⟨c, Int.log 10 m.value⟩ := by
  have log := floorLog10_eq (num_pos nonzero) m.value.den_pos
  rw [value_quotient] at log
  simp only [decimalOf?, log, neighbours_eq _ m.value.den_pos, value_quotient,
    ← place_eq_nearestIndex]
  rfl

theorem decimalOf?_spec {m : Magnitude} {count : ℕ} {s : Scientific} (nonzero : m ≠ .zero)
    (some : 0 < count) (found : decimalOf? m count = .some s) : ∃ c,
      (around m.value (Int.log 10 m.value + 1 - count)).find?
        (readsBack m (Int.log 10 m.value + 1 - count)) = .some c ∧
      s.value = c * 10 ^ (Int.log 10 m.value + 1 - count) ∧
      0 < s.coefficient ∧ s.digits.length ≤ count := by
  rw [decimalOf?_eq nonzero] at found
  obtain ⟨c, first, same⟩ := Option.map_eq_some_iff.1 found
  refine ⟨c, first, ?_⟩
  obtain ⟨low, high⟩ := bounds_of_mem_around (Magnitude.value_pos nonzero) some
    (List.mem_of_find?_eq_some first)
  generalize Int.log 10 m.value = lead at same
  split at same
  · next carry =>
    subst same carry
    exact ⟨value_carry count lead, one_pos, (Nat.length_toDigits_le_iff (by decide) some).2
      (Nat.one_lt_pow some.ne' (by decide))⟩
  · next other =>
    subst same
    have positive : 0 < c := lt_of_lt_of_le (Nat.pow_pos (by decide)) low
    have below : c < 10 ^ count := lt_of_le_of_ne high other
    have log := log_of_digits some low below lead
    exact ⟨Scientific.value_eq positive log, positive,
      (Nat.length_toDigits_le_iff (by decide) some).2 below⟩

/-! ### All digits of the value -/

theorem exists_den_eq (m : Magnitude) : ∃ k, m.value.den = 2 ^ k := by
  have shifted := cast_shifted (b := 2) (by decide) m.significand m.ulpExponent
  rw [Nat.cast_ofNat] at shifted
  have quotient (a b : ℕ) : (a : ℚ) / b = Rat.divInt a b := by
    rw [Rat.divInt_eq_div, Int.cast_natCast, Int.cast_natCast]
  have divides : (m.value.den : ℤ) ∣ (Nat.pow 2 (-m.ulpExponent).toNat : ℕ) := by
    rw [Magnitude.value, ← shifted, quotient]
    exact Rat.den_dvd _ _
  obtain ⟨j, -, same⟩ := (Nat.dvd_prime_pow Nat.prime_two).1 (Int.natCast_dvd_natCast.1 divides)
  exact ⟨j, same⟩

theorem exactDecimal_spec {m : Magnitude} (nonzero : m ≠ .zero) :
    0 < (exactDecimal m).coefficient ∧ (exactDecimal m).value = m.value := by
  obtain ⟨k, den⟩ := exists_den_eq m
  have ten : (10 : ℚ) ≠ 0 := by norm_num
  have quotient := value_quotient m
  have numerator := num_pos nonzero
  have log := floorLog10_eq numerator m.value.den_pos
  rw [quotient] at log
  have shift : m.value.den.log2 = k := by rw [den, Nat.log2_two_pow]
  have whole : m.value = (m.value.num.natAbs * 5 ^ k : ℕ) * (10 : ℚ) ^ (-(k : ℤ)) := by
    have split : (10 : ℚ) ^ k = 5 ^ k * 2 ^ k := by rw [← mul_pow]; norm_num
    rw [zpow_neg, zpow_natCast, split]
    conv_lhs => rw [← quotient, den]
    push_cast
    field_simp
  have digits := digitsValue_toDigits (m.value.num.natAbs * 5 ^ k)
  obtain ⟨j, zeros⟩ := exists_trailing_zeros (Nat.toDigits 10 (m.value.num.natAbs * 5 ^ k))
  rw [zeros, digitsValue_append, digitsValue_zeros, List.length_replicate, Nat.add_zero] at digits
  simp only [exactDecimal, shift, log, Nat.pow_eq]
  generalize digitsValue _ = c at digits ⊢
  have positive : 0 < c := by
    have product : 0 < c * 10 ^ j := digits ▸ Nat.mul_pos numerator (Nat.pow_pos (by decide))
    exact Nat.pos_of_mul_pos_right product
  have value : (c : ℚ) * 10 ^ ((j : ℤ) - k) = m.value := by
    rw [whole, ← digits, sub_eq_add_neg, zpow_add₀ ten, zpow_natCast]
    push_cast
    ring
  refine ⟨positive, ?_⟩
  rw [Scientific.value_eq positive (congrArg (Int.log 10) value), value]

theorem shortest_spec {m : Magnitude} (nonzero : m ≠ .zero) :
    0 < (shortest m).coefficient ∧ Magnitude.nearest (shortest m).value = m := by
  suffices spec : 0 < (shortest m).coefficient ∧ place (shortest m).value = m.val by
    obtain ⟨positive, same⟩ := spec
    have nonneg : 0 ≤ (shortest m).value := by
      rw [Scientific.value]
      positivity
    refine ⟨positive, Fin.ext ?_⟩
    rw [nearest_val, abs_of_nonneg nonneg, same]
    omega
  rw [shortest]
  cases found : (List.range 17).findSome? fun k => decimalOf? m (k + 1) with
  | none =>
    obtain ⟨positive, same⟩ := exactDecimal_spec nonzero
    rw [Option.getD_none, same]
    exact ⟨positive, m.place_value⟩
  | some s =>
    obtain ⟨k, -, decimal⟩ := List.exists_of_findSome?_eq_some found
    obtain ⟨c, first, value, positive, -⟩ := decimalOf?_spec nonzero (Nat.succ_pos k) decimal
    rw [Option.getD_some, value]
    exact ⟨positive, readsBack_iff.1 (List.find?_some first)⟩

end Binary64

end Conduit
