import Conduit.Proofs.Number.Digits

/-!
The float that a decimal literal denotes, which is always the one nearest to its exact value.
-/

namespace Conduit

open Binary64 (Magnitude place place_of_le place_of_lt nearest_val)

namespace Literal

theorem two_zpow_le_ten_zpow {n : ℤ} (nonneg : 0 ≤ n) : (2 : ℚ) ^ (3 * n) ≤ 10 ^ n := by
  rw [zpow_mul]
  exact zpow_le_zpow_left₀ nonneg (by norm_num) (by norm_num)

theorem nearest_of_le {q : ℚ} (large : (10 : ℚ) ^ (400 : ℤ) ≤ q) :
    Magnitude.nearest q = .infinity := by
  have nonneg : 0 ≤ q := le_trans (by positivity) large
  have range : (2 : ℚ) ^ (1024 : ℤ) ≤ 10 ^ (400 : ℤ) :=
    (zpow_le_zpow_right₀ (by norm_num) (by norm_num)).trans
      (two_zpow_le_ten_zpow (n := 400) (by norm_num))
  have above := place_of_le (range.trans large)
  apply Fin.ext
  rw [nearest_val, abs_of_nonneg nonneg]
  exact Nat.min_eq_right above

theorem nearest_of_lt {q : ℚ} (nonneg : 0 ≤ q) (small : q < (10 : ℚ) ^ (-401 : ℤ)) :
    Magnitude.nearest q = .zero := by
  have range : (10 : ℚ) ^ (-401 : ℤ) ≤ 2 ^ (-1075 : ℤ) := by
    rw [zpow_neg, zpow_neg]
    refine inv_anti₀ (by positivity) ?_
    exact (zpow_le_zpow_right₀ (by norm_num) (by norm_num)).trans
      (two_zpow_le_ten_zpow (n := 401) (by norm_num))
  apply Fin.ext
  rw [nearest_val, abs_of_nonneg nonneg, place_of_lt nonneg (small.trans_le range)]
  rfl

theorem magnitude_bounds {l : Literal} {c : Char} {ds : List Char}
    (digits : l.digits.all isDigit = true)
    (significant : l.digits.dropWhile (· = '0') = c :: ds) :
    (10 : ℚ) ^ (ds.length + l.scale) ≤ l.magnitude ∧
      l.magnitude < (10 : ℚ) ^ (ds.length + 1 + l.scale) := by
  have all : ∀ d ∈ c :: ds, isDigit d = true := fun d hd =>
    List.all_eq_true.1 digits d ((List.dropWhile_sublist _).mem (significant ▸ hd))
  have other : c ≠ '0' := by
    intro zero
    have := List.head?_dropWhile_not (fun x => decide (x = '0')) l.digits
    simp [significant, zero] at this
  have low : 10 ^ ds.length ≤ digitsValue (c :: ds) :=
    le_digitsValue (all c List.mem_cons_self) other
  have high := digitsValue_lt (List.all_eq_true.2 all)
  have value : l.magnitude = (digitsValue (c :: ds) : ℚ) * 10 ^ l.scale := by
    rw [magnitude, ← digitsValue_dropWhile, significant]
  have ten : (10 : ℚ) ≠ 0 := by norm_num
  rw [value, zpow_add₀ ten, zpow_add₀ ten]
  constructor
  · refine mul_le_mul_of_nonneg_right ?_ (by positivity)
    exact_mod_cast low
  · refine mul_lt_mul_of_pos_right ?_ (by positivity)
    exact_mod_cast high

theorem toBinary64_eq {l : Literal} (digits : l.digits.all isDigit = true) :
    l.toBinary64 = .signed l.negative (.nearest l.magnitude) := by
  cases significant : l.digits.dropWhile (· = '0') with
  | nil =>
    have zero : l.magnitude = 0 := by
      rw [magnitude, ← digitsValue_dropWhile, significant]
      exact zero_mul _
    have nearest : Magnitude.nearest 0 = .zero := nearest_of_lt le_rfl (by positivity)
    simp [toBinary64, significant, zero, nearest, Binary64.zero]
  | cons c ds =>
    obtain ⟨low, high⟩ := magnitude_bounds digits significant
    have nonneg : 0 ≤ l.magnitude := le_trans (by positivity) low
    simp only [toBinary64, significant, List.isEmpty_cons, Bool.false_or, List.length_cons,
      decide_eq_true_eq]
    push_cast
    split
    · next small =>
      have range : (10 : ℚ) ^ (ds.length + 1 + l.scale) ≤ 10 ^ (-401 : ℤ) :=
        zpow_le_zpow_right₀ (by norm_num) (by omega)
      rw [nearest_of_lt nonneg (high.trans_le range), Binary64.zero]
    · split
      · next large =>
        have range : (10 : ℚ) ^ (400 : ℤ) ≤ 10 ^ (ds.length + l.scale) :=
          zpow_le_zpow_right₀ (by norm_num) (by omega)
        rw [nearest_of_le (range.trans low), Binary64.infinity]
      · rfl

end Literal

end Conduit
