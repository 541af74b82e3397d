import Conduit.Proofs.Number.Nearest
import Conduit.Proofs.Number.Shortest

/-!
The decimal found for a magnitude has no more digits than any other that reads back as it, and of
those with as many digits it is the nearest to the value.
-/

namespace Conduit.Binary64

variable {m : Magnitude} {q : ℚ} {e : ℤ} {c count : ℕ} {s : Scientific}

/-! ### The multiples around a number -/

theorem floor_bounds (nonneg : 0 ≤ q) (e : ℤ) :
    (⌊q / 10 ^ e⌋₊ : ℚ) * 10 ^ e ≤ q ∧ q < (⌊q / 10 ^ e⌋₊ + 1) * 10 ^ e := by
  have power : (0 : ℚ) < 10 ^ e := by positivity
  constructor
  · exact (le_div_iff₀ power).1 (Nat.floor_le (by positivity))
  · exact (div_lt_iff₀ power).1 (Nat.lt_floor_add_one _)

theorem around_sorted (nonneg : 0 ≤ q) (e : ℤ) :
    (around q e).Pairwise fun a b : ℕ => |(a : ℚ) * 10 ^ e - q| ≤ |(b : ℚ) * 10 ^ e - q| := by
  have power : (0 : ℚ) < 10 ^ e := by positivity
  obtain ⟨low, high⟩ := floor_bounds nonneg e
  have closer : 2 * (q / 10 ^ e - ⌊q / 10 ^ e⌋₊) < 1 ↔
      q - ⌊q / 10 ^ e⌋₊ * 10 ^ e < (⌊q / 10 ^ e⌋₊ + 1) * 10 ^ e - q := by
    rw [← mul_lt_iff_lt_one_left power, mul_assoc, sub_mul, div_mul_cancel₀ _ power.ne']
    constructor <;> intro <;> linarith
  rw [around, if_congr closer rfl rfl]
  generalize ⌊q / 10 ^ e⌋₊ = f at low high
  have here : |(f : ℚ) * 10 ^ e - q| = q - f * 10 ^ e := by
    rw [abs_of_nonpos (by linarith), neg_sub]
  have there : |((f + 1 : ℕ) : ℚ) * 10 ^ e - q| = (f + 1) * 10 ^ e - q := by
    push_cast
    exact abs_of_pos (by linarith)
  split
  · next less =>
    rw [List.pairwise_pair, here, there]
    exact less.le
  · next more =>
    rw [List.pairwise_pair, here, there]
    exact not_lt.1 more

theorem exists_beside (nonneg : 0 ≤ q) (e : ℤ) (c : ℕ) : ∃ a ∈ around q e,
    ((c : ℚ) * 10 ^ e ≤ a * 10 ^ e ∧ (a : ℚ) * 10 ^ e ≤ q) ∨
      (q ≤ a * 10 ^ e ∧ (a : ℚ) * 10 ^ e ≤ c * 10 ^ e) := by
  have power : (0 : ℚ) ≤ 10 ^ e := by positivity
  obtain ⟨low, high⟩ := floor_bounds nonneg e
  rcases Nat.lt_or_ge ⌊q / 10 ^ e⌋₊ c with above | below
  · refine ⟨⌊q / 10 ^ e⌋₊ + 1, mem_around.2 (.inr rfl), .inr ⟨?_, ?_⟩⟩
    · push_cast
      exact high.le
    · exact mul_le_mul_of_nonneg_right (by exact_mod_cast above) power
  · refine ⟨⌊q / 10 ^ e⌋₊, mem_around.2 (.inl rfl), .inl ⟨?_, low⟩⟩
    exact mul_le_mul_of_nonneg_right (by exact_mod_cast below) power

theorem exists_readsBack_around (back : readsBack m e c = true) : ∃ a ∈ around m.value e,
    readsBack m e a = true ∧ |(a : ℚ) * 10 ^ e - m.value| ≤ |(c : ℚ) * 10 ^ e - m.value| := by
  have nonneg (a : ℕ) : (0 : ℚ) ≤ a * 10 ^ e := by positivity
  rw [readsBack_iff] at back
  obtain ⟨a, mem, ⟨low, high⟩ | ⟨low, high⟩⟩ := exists_beside m.value_nonneg e c
  · refine ⟨a, mem, readsBack_iff.2 (place_between (nonneg c) low high back m.place_value), ?_⟩
    rw [abs_of_nonpos (by linarith), abs_of_nonpos (by linarith)]
    linarith
  · refine ⟨a, mem, readsBack_iff.2 ?_, ?_⟩
    · exact place_between m.value_nonneg low high m.place_value back
    · rw [abs_of_nonneg (by linarith), abs_of_nonneg (by linarith)]
      linarith

theorem isSome_decimalOf? (nonzero : m ≠ .zero)
    (back : readsBack m (Int.log 10 m.value + 1 - count) c = true) :
    (decimalOf? m count).isSome := by
  obtain ⟨a, mem, back, -⟩ := exists_readsBack_around back
  rw [decimalOf?_eq nonzero, Option.isSome_map, List.find?_isSome]
  exact ⟨a, mem, back⟩

theorem decimalOf?_closest (nonzero : m ≠ .zero) (some : 0 < count)
    (found : decimalOf? m count = .some s)
    (back : readsBack m (Int.log 10 m.value + 1 - count) c = true) :
    |s.value - m.value| ≤ |(c : ℚ) * 10 ^ (Int.log 10 m.value + 1 - count) - m.value| := by
  obtain ⟨a, mem, back, nearer⟩ := exists_readsBack_around back
  obtain ⟨b, first, value, -⟩ := decimalOf?_spec nonzero some found
  have sorted := around_sorted m.value_nonneg (Int.log 10 m.value + 1 - count)
  obtain ⟨-, before, after, split, failed⟩ := List.find?_eq_some_iff_append.1 first
  rw [split] at mem sorted
  rw [value]
  refine le_trans ?_ nearer
  rcases List.mem_append.1 mem with earlier | later
  · have none := failed a earlier
    rw [back] at none
    cases none
  · rcases List.mem_cons.1 later with rfl | later
    · exact le_rfl
    · exact (List.pairwise_cons.1 (List.pairwise_append.1 sorted).2.1).1 a later

/-! ### How many digits it takes -/

theorem exists_readsBack_of_dense (dense : (2 : ℚ) ^ 53 * 10 ^ e < m.value) :
    ∃ c, readsBack m e c = true := by
  have power : (0 : ℚ) < 10 ^ e := by positivity
  obtain ⟨low, high⟩ := floor_bounds m.value_nonneg e
  obtain ⟨c, close⟩ : ∃ c : ℕ, |m.value - c * 10 ^ e| ≤ 10 ^ e / 2 := by
    rcases le_total (m.value - ⌊m.value / 10 ^ e⌋₊ * 10 ^ e) (10 ^ e / 2) with near | far
    · refine ⟨⌊m.value / 10 ^ e⌋₊, ?_⟩
      rwa [abs_of_nonneg (by linarith)]
    · refine ⟨⌊m.value / 10 ^ e⌋₊ + 1, ?_⟩
      push_cast
      rw [abs_of_neg (by linarith)]
      linarith
  refine ⟨c, readsBack_iff.2 ?_⟩
  have nonneg : (0 : ℚ) ≤ c * 10 ^ e := by positivity
  obtain ⟨closest, -⟩ := place_closest nonneg m.val
  rw [← m.value_eq] at closest
  have apart := abs_le.1 (closest.trans close)
  rw [abs_le] at close
  rw [m.value_eq] at close dense
  -- magnitudes that differ are further apart than that
  rcases lt_trichotomy (place ((c : ℚ) * 10 ^ e)) m.val with less | same | more
  · have gap := valueAt_le_of_lt less
    linarith
  · exact same
  · have gap := valueAt_le_of_lt more
    have order := valueAt_strictMono more
    linarith

theorem seventeen_digits (nonzero : m ≠ .zero) : (decimalOf? m 17).isSome := by
  have ten : (10 : ℚ) ≠ 0 := by norm_num
  have low := zpow_log_le (b := 10) (by decide) (Magnitude.value_pos nonzero)
  have dense : (2 : ℚ) ^ 53 * 10 ^ (Int.log 10 m.value + 1 - (17 : ℕ)) < m.value := by
    have exponent : Int.log 10 m.value = 16 + (Int.log 10 m.value + 1 - (17 : ℕ)) := by
      push_cast
      ring
    refine lt_of_lt_of_le ?_ low
    conv_rhs => rw [exponent]
    rw [Nat.cast_ofNat, Nat.cast_ofNat, zpow_add₀ ten]
    exact mul_lt_mul_of_pos_right (by norm_num) (by positivity)
  obtain ⟨c, back⟩ := exists_readsBack_of_dense dense
  exact isSome_decimalOf? nonzero back

theorem pos_of_place {k : ℤ} (nonzero : m ≠ .zero) (back : place ((c : ℚ) * 10 ^ k) = m.val) :
    0 < c := by
  refine Nat.pos_of_ne_zero ?_
  rintro rfl
  rw [Nat.cast_zero, zero_mul, place, if_pos rfl] at back
  exact nonzero (Fin.ext back.symm)

theorem exists_readsBack {k : ℤ} (nonzero : m ≠ .zero)
    (back : place ((c : ℚ) * 10 ^ k) = m.val) : ∃ a,
      readsBack m (Int.log 10 m.value + 1 - (Nat.toDigits 10 c).length) a = true ∧
      |(a : ℚ) * 10 ^ (Int.log 10 m.value + 1 - (Nat.toDigits 10 c).length) - m.value| ≤
        |(c : ℚ) * 10 ^ k - m.value| := by
  have ten : (10 : ℚ) ≠ 0 := by norm_num
  have positive := pos_of_place nonzero back
  have count := log_toDigits positive
  have some : 0 < (Nat.toDigits 10 c).length := Nat.length_toDigits_pos
  generalize (Nat.toDigits 10 c).length = n at count some
  have low := zpow_log_le (b := 10) (by decide) (Magnitude.value_pos nonzero)
  generalize Int.log 10 m.value = lead at low
  rw [Nat.cast_ofNat] at low
  -- Either the decimal is itself such a multiple, or it is so small that the power of ten from
  -- which the value starts is nearer.
  rcases le_or_gt (lead + 1 - n) k with multiple | less
  · refine ⟨c * 10 ^ (k - (lead + 1 - n)).toNat, ?_⟩
    have exponent : k = (k - (lead + 1 - n)).toNat + (lead + 1 - n) := by omega
    have same : ((c * 10 ^ (k - (lead + 1 - n)).toNat : ℕ) : ℚ) * 10 ^ (lead + 1 - n : ℤ) =
        c * 10 ^ k := by
      conv_rhs => rw [exponent]
      rw [zpow_add₀ ten, zpow_natCast]
      push_cast
      ring
    rw [readsBack_iff, same]
    exact ⟨back, le_rfl⟩
  · -- the decimal is below the power of ten from which the value starts
    refine ⟨10 ^ (n - 1), ?_⟩
    have same : ((10 ^ (n - 1) : ℕ) : ℚ) * 10 ^ (lead + 1 - n : ℤ) = 10 ^ lead := by
      have exponent : lead = ((n - 1 : ℕ) : ℤ) + (lead + 1 - n) := by omega
      conv_rhs => rw [exponent]
      rw [zpow_add₀ ten, zpow_natCast]
      push_cast
      rfl
    have below : (c : ℚ) * 10 ^ k ≤ 10 ^ lead := by
      have high := lt_zpow_log (b := 10) (by decide) (c : ℚ)
      rw [count, sub_add_cancel, Nat.cast_ofNat] at high
      calc (c : ℚ) * 10 ^ k ≤ 10 ^ (n : ℤ) * 10 ^ k :=
            mul_le_mul_of_nonneg_right high.le (by positivity)
        _ = 10 ^ ((n : ℤ) + k) := (zpow_add₀ ten _ _).symm
        _ ≤ 10 ^ lead := zpow_le_zpow_right₀ (by norm_num) (by omega)
    rw [readsBack_iff, same]
    refine ⟨place_between (by positivity) below low back m.place_value, ?_⟩
    rw [abs_of_nonpos (by linarith), abs_of_nonpos (by linarith)]
    linarith

theorem exists_count (nonzero : m ≠ .zero) : ∃ count, 0 < count ∧
    decimalOf? m count = some (shortest m) ∧
      ∀ (c : ℕ) (k : ℤ), place ((c : ℚ) * 10 ^ k) = m.val →
        count ≤ (Nat.toDigits 10 c).length := by
  obtain ⟨s, found⟩ : ∃ s, (List.range 17).findSome? (fun k => decimalOf? m (k + 1)) = some s := by
    rw [← Option.isSome_iff_exists, List.findSome?_isSome_iff]
    exact ⟨16, List.mem_range.2 (by decide), seventeen_digits nonzero⟩
  have shortest : shortest m = s := by rw [shortest, found, Option.getD_some]
  obtain ⟨before, k, after, split, decimal, failed⟩ := List.findSome?_eq_some_iff.1 found
  have sorted := List.pairwise_lt_range (n := 17)
  have last : k < 17 := List.mem_range.1 (split ▸ List.mem_append_right _ List.mem_cons_self)
  rw [split, List.pairwise_append, List.pairwise_cons] at sorted
  have earlier (j : ℕ) (less : j < k) : decimalOf? m (j + 1) = none := by
    have mem := List.mem_range.2 (less.trans last)
    rw [split, List.mem_append, List.mem_cons] at mem
    rcases mem with before | rfl | after
    · exact failed j before
    · exact absurd less (Nat.lt_irrefl j)
    · exact absurd less (Nat.lt_asymm (sorted.2.1.1 j after))
  refine ⟨k + 1, Nat.succ_pos k, shortest ▸ decimal, fun c k' back => ?_⟩
  have some : 0 < (Nat.toDigits 10 c).length := Nat.length_toDigits_pos
  obtain ⟨a, back, -⟩ := exists_readsBack nonzero back
  by_contra more
  have none := earlier ((Nat.toDigits 10 c).length - 1) (by omega)
  have isSome := isSome_decimalOf? nonzero back
  rw [Nat.sub_add_cancel some] at none
  rw [none] at isSome
  cases isSome

theorem shortest_fewest {k : ℤ} (nonzero : m ≠ .zero) (back : place ((c : ℚ) * 10 ^ k) = m.val) :
    (shortest m).digits.length ≤ (Nat.toDigits 10 c).length ∧
      ((Nat.toDigits 10 c).length = (shortest m).digits.length →
        |(shortest m).value - m.value| ≤ |(c : ℚ) * 10 ^ k - m.value|) := by
  obtain ⟨count, some, found, least⟩ := exists_count nonzero
  obtain ⟨b, first, value, positive, most⟩ := decimalOf?_spec nonzero some found
  refine ⟨most.trans (least c k back), fun same => ?_⟩
  have own := least (shortest m).coefficient (shortest m).scale (by
    rw [← Scientific.value, value]
    exact readsBack_iff.1 (List.find?_some first))
  have exactly : (Nat.toDigits 10 c).length = count := same.trans (le_antisymm most own)
  obtain ⟨a, back, nearer⟩ := exists_readsBack nonzero back
  rw [exactly] at back nearer
  exact (decimalOf?_closest nonzero some found back).trans nearer

end Conduit.Binary64
