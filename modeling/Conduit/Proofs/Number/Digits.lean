import Conduit.Number.Literal
import Conduit.Proofs.Number.Rounding
import Mathlib.Data.List.TakeWhile

/-!
Rows of decimal digits: the numbers they stand for, and how many digits a number has.
-/

namespace Conduit

theorem all_isDigit_toDigits (n : ℕ) : (Nat.toDigits 10 n).all isDigit = true :=
  List.all_eq_true.2 fun _ hc => Nat.isDigit_of_mem_toDigits (by decide) (by decide) hc

theorem digitsValue_eq (ds : List Char) : digitsValue ds = Nat.ofDigitChars 10 ds 0 := rfl

theorem digitsValue_toDigits (n : ℕ) : digitsValue (Nat.toDigits 10 n) = n :=
  Nat.ofDigitChars_ten_toDigits

theorem digitsValue_append (xs ys : List Char) :
    digitsValue (xs ++ ys) = digitsValue xs * 10 ^ ys.length + digitsValue ys := by
  rw [digitsValue_eq, Nat.ofDigitChars_append, Nat.ofDigitChars_eq_ofDigitChars_zero]
  rw [Nat.mul_comm]
  rfl

theorem digitsValue_zeros (n : ℕ) : digitsValue (List.replicate n '0') = 0 := by
  rw [digitsValue_eq, Nat.ofDigitChars_replicate_zero, Nat.mul_zero]

theorem digitsValue_cons (c : Char) (ds : List Char) :
    digitsValue (c :: ds) = digitValue c * 10 ^ ds.length + digitsValue ds := by
  have split := digitsValue_append [c] ds
  simpa [digitsValue] using split

theorem digitValue_lt {c : Char} (digit : isDigit c = true) : digitValue c < 10 := by
  simp only [isDigit, Bool.and_eq_true, decide_eq_true_eq] at digit
  have high : c.toNat ≤ '9'.toNat := digit.2
  rw [digitValue]
  simp only [Char.reduceToNat] at high ⊢
  omega

theorem digitValue_pos {c : Char} (digit : isDigit c = true) (other : c ≠ '0') :
    0 < digitValue c := by
  simp only [isDigit, Bool.and_eq_true, decide_eq_true_eq] at digit
  have low : '0'.toNat ≤ c.toNat := digit.1
  have apart : c.toNat ≠ '0'.toNat := fun same => other (Char.toNat_inj.1 same)
  rw [digitValue]
  omega

/-! ### How many digits there are -/

theorem digitsValue_lt {ds : List Char} (digits : ds.all isDigit = true) :
    digitsValue ds < 10 ^ ds.length := by
  induction ds with
  | nil => decide
  | cons c ds ih =>
    rw [List.all_cons, Bool.and_eq_true] at digits
    have rest := ih digits.2
    have first := Nat.mul_le_mul_right (10 ^ ds.length) (digitValue_lt digits.1)
    rw [digitsValue_cons, List.length_cons, Nat.pow_succ']
    rw [Nat.succ_mul] at first
    omega

theorem le_digitsValue {c : Char} {ds : List Char} (digit : isDigit c = true) (other : c ≠ '0') :
    10 ^ ds.length ≤ digitsValue (c :: ds) := by
  have first := Nat.mul_le_mul_right (10 ^ ds.length) (digitValue_pos digit other)
  rw [digitsValue_cons]
  omega

theorem log_toDigits {n : ℕ} (positive : 0 < n) :
    Int.log 10 (n : ℚ) = (Nat.toDigits 10 n).length - 1 := by
  have some : 0 < (Nat.toDigits 10 n).length := Nat.length_toDigits_pos
  have high : n < 10 ^ (Nat.toDigits 10 n).length :=
    (Nat.length_toDigits_le_iff (by decide) some).1 (Nat.le_refl _)
  have low : 10 ^ ((Nat.toDigits 10 n).length - 1) ≤ n := by
    rcases Nat.eq_zero_or_pos ((Nat.toDigits 10 n).length - 1) with one | more
    · rwa [one, Nat.pow_zero]
    · by_contra less
      have := (Nat.length_toDigits_le_iff (by decide) more).2 (Nat.not_le.1 less)
      omega
  have exponent : ((Nat.toDigits 10 n).length : ℤ) - 1 = ((Nat.toDigits 10 n).length - 1 : ℕ) := by
    omega
  refine Binary64.log_eq_of (by decide) ?_ ?_
  · rw [exponent, zpow_natCast]
    exact_mod_cast low
  · rw [sub_add_cancel, zpow_natCast]
    exact_mod_cast high

theorem toDigits_noLeadingZero (n : ℕ) (zero : (Nat.toDigits 10 n).head? = some '0') :
    Nat.toDigits 10 n = ['0'] := by
  obtain ⟨ds, digits⟩ := List.head?_eq_some_iff.1 zero
  rcases Nat.eq_zero_or_pos n with rfl | positive
  · rfl
  · -- a leading zero would make the number smaller than its length says
    have all := all_isDigit_toDigits n
    have value := digitsValue_toDigits n
    have log := log_toDigits positive
    rw [digits, List.all_cons, Bool.and_eq_true] at all
    rw [digits, digitsValue_cons, show digitValue '0' = 0 from rfl, Nat.zero_mul,
      Nat.zero_add] at value
    rw [digits, List.length_cons, Nat.cast_succ, add_sub_cancel_right] at log
    have low := Binary64.zpow_log_le (b := 10) (by decide) (Nat.cast_pos.2 positive : (0 : ℚ) < n)
    rw [log, zpow_natCast] at low
    have low : 10 ^ ds.length ≤ n := by exact_mod_cast low
    exact absurd (digitsValue_lt all.2) (by omega)

theorem digitsValue_dropWhile (ds : List Char) :
    digitsValue (ds.dropWhile (· = '0')) = digitsValue ds := by
  induction ds with
  | nil => rfl
  | cons c ds ih =>
    rw [List.dropWhile_cons]
    split
    · next zero =>
      have zero : c = '0' := of_decide_eq_true zero
      rw [ih, digitsValue_cons, zero]
      simp [digitValue]
    · rfl

theorem exists_trailing_zeros (ds : List Char) : ∃ n,
    ds = (ds.reverse.dropWhile (· = '0')).reverse ++ List.replicate n '0' := by
  have zeros : ds.reverse.takeWhile (· = '0') =
      List.replicate (ds.reverse.takeWhile (· = '0')).length '0' :=
    List.eq_replicate_of_mem fun c hc => by simpa using List.mem_takeWhile_imp hc
  refine ⟨(ds.reverse.takeWhile (· = '0')).length, ?_⟩
  rw [← List.reverse_replicate, ← zeros, ← List.reverse_append, List.takeWhile_append_dropWhile,
    List.reverse_reverse]

end Conduit
