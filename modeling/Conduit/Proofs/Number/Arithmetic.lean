import Conduit.Proofs.Number.Naturals
import Conduit.Proofs.Number.Nearest

/-!
The numbers from which arithmetic starts.  A product starts from one, which leaves every float as it
is; a sum starts from zero, which leaves all but the negative zero, and no sum is that.
-/

namespace Conduit.Binary64

variable {x : Binary64} {q : ℚ}

theorem round_negateIf (positive : 0 < q) (s negativeZero : Bool) :
    round (negateIf s q) negativeZero = signed s (.nearest q) := by
  cases s with
  | false =>
    have nonneg : ¬ q < 0 := not_lt.2 positive.le
    simp [round, negateIf, positive.ne', nonneg]
  | true => simp [round, negateIf, positive.ne', positive, nearest_neg]

theorem zero_finite : Magnitude.zero ≠ .infinity := by decide

theorem toRat_zero (negative : Bool) : (zero negative).toRat = 0 := by
  rw [zero, toRat_signed zero_finite]
  cases negative <;> simp [negateIf, Magnitude.zero, valueAt_zero]

theorem ofNat_one_mul (x : Binary64) : ofNat 1 * x = x := by
  have one : (Magnitude.nearest (1 : ℕ)).value = (1 : ℕ) := value_nearest_natCast (by decide)
  have finite : Magnitude.nearest (1 : ℕ) ≠ .infinity := nearest_natCast_finite (by decide)
  have nonzero : Magnitude.nearest (1 : ℕ) ≠ .zero := by
    intro same
    rw [same, Magnitude.value_eq, Magnitude.zero, valueAt_zero] at one
    exact absurd one (by norm_num)
  change Binary64.mul _ _ = _
  cases x with
  | nan => rfl
  | signed s m =>
    rw [ofNat_eq, Binary64.mul, Bool.false_xor]
    by_cases infinite : m = .infinity
    · subst infinite
      rw [if_pos (.inr rfl), if_neg (not_or.2 ⟨nonzero, zero_finite.symm⟩), infinity]
    · rw [if_neg (not_or.2 ⟨finite, infinite⟩), one, Nat.cast_one, one_mul, m.nearest_value]

theorem positiveZero_add (other : x ≠ zero true) : zero false + x = x := by
  change Binary64.add _ _ = _
  cases x with
  | nan => rfl
  | signed s m =>
    by_cases infinite : m = .infinity
    · simp [Binary64.add, zero, zero_finite, infinite]
    · have sum : Binary64.add (zero false) (signed s m) = round (signed s m).toRat false := by
        rw [zero, Binary64.add, if_neg zero_finite, if_neg infinite, ← zero, toRat_zero, zero_add,
          Bool.false_and]
      rw [sum]
      by_cases none : m = .zero
      · subst none
        cases s with
        | false => rw [← zero, toRat_zero, round, if_pos rfl, nearest_zero, zero]
        | true => exact absurd rfl other
      · rw [toRat_signed infinite, ← m.value_eq, round_negateIf (Magnitude.value_pos none),
          m.nearest_value]

/-! ### Sums -/

theorem exists_multiple (i : ℕ) : ∃ n : ℕ, valueAt i = n * valueAt 1 := by
  have exponent : (blockAt 0 : ℤ) - 1074 = -1074 := by decide
  have least : valueAt 1 = 2 ^ (-1074 : ℤ) := by
    rw [← zero_add 1, valueAt_succ, valueAt_zero, zero_add, stepAt, exponent]
  refine ⟨(i - blockAt i * blockSize) * 2 ^ blockAt i, ?_⟩
  rw [valueAt, stepAt, least, sub_eq_add_neg, zpow_add₀ two_ne_zero, zpow_natCast]
  generalize (2 : ℚ) ^ (-1074 : ℤ) = step
  push_cast
  ring

theorem exists_toRat_eq (x : Binary64) : ∃ n : ℤ, x.toRat = n * valueAt 1 := by
  cases x with
  | nan => exact ⟨0, by simp [toRat]⟩
  | signed s m =>
    by_cases infinite : m = .infinity
    · refine ⟨0, ?_⟩
      cases s <;> simp [toRat, infinite]
    · obtain ⟨n, multiple⟩ := exists_multiple m.val
      rw [toRat_signed infinite, multiple]
      cases s with
      | false => exact ⟨n, by simp [negateIf]⟩
      | true => exact ⟨-n, by simp [negateIf]⟩

theorem nearest_ne_zero {n : ℤ} (nonzero : n ≠ 0) : Magnitude.nearest (n * valueAt 1) ≠ .zero := by
  intro same
  have rounded := nearest_val (n * valueAt 1)
  have least : (1 : ℚ) ≤ |(n : ℚ)| := by exact_mod_cast Int.one_le_abs nonzero
  have above := place_mono (valueAt_nonneg 1)
    (le_mul_of_one_le_left (valueAt_nonneg 1) least)
  rw [same, abs_mul, abs_of_nonneg (valueAt_nonneg 1)] at rounded
  rw [place_valueAt] at above
  have top : 0 < top := by decide
  have zero : (Magnitude.zero).val = 0 := rfl
  omega

theorem round_sum_ne_negativeZero {s t : Bool} {a b : Magnitude} (left : a ≠ .infinity)
    (right : b ≠ .infinity) (other : signed s a ≠ zero true) :
    round ((signed s a).toRat + (signed t b).toRat) (s && t) ≠ zero true := by
  intro same
  obtain ⟨sign, magnitude⟩ := signed.inj same
  obtain ⟨n, first⟩ := exists_toRat_eq (signed s a)
  obtain ⟨k, second⟩ := exists_toRat_eq (signed t b)
  have sum : (signed s a).toRat + (signed t b).toRat = (n + k : ℤ) * valueAt 1 := by
    rw [first, second]
    push_cast
    ring
  rw [sum] at sign magnitude
  by_cases none : n + k = 0
  · -- neither has a positive sign, so both are zero
    rw [none, Int.cast_zero, zero_mul, if_pos rfl, Bool.and_eq_true] at sign
    obtain ⟨rfl, rfl⟩ := sign
    rw [none, Int.cast_zero, zero_mul, toRat_signed left, toRat_signed right] at sum
    simp only [negateIf, ↓reduceIte] at sum
    have least := valueAt_nonneg a.val
    have least' := valueAt_nonneg b.val
    have zero : valueAt a.val = valueAt 0 := by
      rw [valueAt_zero]
      linarith
    exact other (congrArg (signed true) (Fin.ext (valueAt_strictMono.injective zero)))
  · exact nearest_ne_zero none magnitude

theorem add_ne_negativeZero (other : x ≠ zero true) (y : Binary64) : x + y ≠ zero true := by
  change Binary64.add _ _ ≠ _
  cases x with
  | nan =>
    intro same
    cases same
  | signed s a =>
    cases y with
    | nan =>
      intro same
      cases same
    | signed t b =>
      rw [Binary64.add]
      split
      · split
        · intro same
          cases same
        · exact other
      · next left =>
        split
        · next right =>
          intro same
          cases same
          exact zero_finite right
        · next right => exact round_sum_ne_negativeZero left right other

theorem foldl_add_ne_negativeZero (other : x ≠ zero true) (ys : List Binary64) :
    ys.foldl (· + ·) x ≠ zero true := by
  induction ys generalizing x with
  | nil => exact other
  | cons y ys ih => exact ih (add_ne_negativeZero other y)

end Conduit.Binary64
