import Conduit.Proofs.Number.Grammar
import Conduit.Value.Repr

/-!
The text of a rational reads back as the rational: a whole number by way of the decimal literals,
any other as a fraction.
-/

namespace Conduit

namespace Ratio

def Solid (c : Char) : Prop := isDigit c = true ∨ c = '-' ∨ c = '/'

theorem Solid.not_blank {c : Char} (solid : Solid c) : Text.isBlank c = false := by
  rcases solid with digit | rfl | rfl
  · simp only [isDigit, Bool.and_eq_true, decide_eq_true_eq] at digit
    have low : 48 ≤ c.toNat := digit.1
    have high : c.toNat ≤ 57 := digit.2
    simp only [Text.isBlank, Bool.or_eq_false_iff, Bool.and_eq_false_iff, decide_eq_false_iff_not,
      beq_eq_false_iff_ne]
    omega
  · decide
  · decide

theorem trim_of_solid {cs : List Char} (solid : ∀ c ∈ cs, Solid c) : Text.trim cs = cs := by
  have bare : Text.Bare cs := by
    constructor
    · intro c first
      exact (solid c (List.mem_of_mem_head? first)).not_blank
    · intro c last
      exact (solid c (List.mem_of_mem_getLast? last)).not_blank
  exact bare.trim_eq

/-! ### The text of an integer -/

def signedDigits (n : ℤ) : List Char :=
  if n < 0 then '-' :: Nat.toDigits 10 n.natAbs else Nat.toDigits 10 n.natAbs

theorem toList_toString_int (n : ℤ) : (toString n).toList = signedDigits n := by
  cases n with
  | ofNat m =>
    have positive : ¬ (Int.ofNat m : ℤ) < 0 := by simp
    rw [signedDigits, if_neg positive]
    exact Nat.toList_repr
  | negSucc m =>
    have negative : Int.negSucc m < 0 := Int.negSucc_lt_zero m
    rw [signedDigits, if_pos negative]
    change ("-" ++ Nat.repr (m + 1)).toList = _
    simp [String.toList_append, Nat.toList_repr]

theorem digit_of_mem_toDigits {n : ℕ} {c : Char} (mem : c ∈ Nat.toDigits 10 n) :
    isDigit c = true := List.all_eq_true.1 (all_isDigit_toDigits n) c mem

theorem mem_signedDigits {n : ℤ} {c : Char} (mem : c ∈ signedDigits n) :
    isDigit c = true ∨ c = '-' := by
  rw [signedDigits] at mem
  split at mem
  · rcases List.mem_cons.1 mem with rfl | mem
    · exact .inr rfl
    · exact .inl (digit_of_mem_toDigits mem)
  · exact .inl (digit_of_mem_toDigits mem)

theorem solid_signedDigits (n : ℤ) : ∀ c ∈ signedDigits n, Solid c :=
  fun _ mem => (mem_signedDigits mem).imp id .inl

theorem slash_notMem_signedDigits (n : ℤ) : '/' ∉ signedDigits n := by
  intro mem
  rcases mem_signedDigits mem with digit | same
  · exact absurd digit (by decide)
  · exact absurd same (by decide)

theorem signedDigits_eq (n : ℤ) :
    signedDigits n = (if decide (n < 0) then ['-'] else []) ++ Nat.toDigits 10 n.natAbs := by
  rw [signedDigits]
  by_cases negative : n < 0 <;> simp [negative]

/-! ### Reading an integer as a literal, and as part of a fraction -/

theorem spells_signedDigits (n : ℤ) :
    (⟨decide (n < 0), Nat.toDigits 10 n.natAbs, [], 0⟩ : Literal).Spells (signedDigits n) := by
  have spells := Literal.Spells.mk (signText (decide (n < 0))) (all_isDigit_toDigits n.natAbs)
    .none (.inl Nat.toDigits_ne_nil) .none
  rwa [List.append_nil, List.append_nil, ← signedDigits_eq] at spells

theorem value_signedDigits (n : ℤ) :
    (⟨decide (n < 0), Nat.toDigits 10 n.natAbs, [], 0⟩ : Literal).value = n := by
  have magnitude :
      (⟨decide (n < 0), Nat.toDigits 10 n.natAbs, [], 0⟩ : Literal).magnitude = |(n : ℚ)| := by
    simp [Literal.magnitude, Literal.digits, Literal.scale, digitsValue_toDigits]
  rw [Literal.value, magnitude]
  by_cases negative : n < 0
  · have below : (n : ℚ) < 0 := by exact_mod_cast negative
    simp [negative, abs_of_neg below]
  · have above : (0 : ℚ) ≤ n := by exact_mod_cast not_lt.1 negative
    simp [negative, abs_of_nonneg above]

theorem integralText_signedDigits (n : ℤ) : IntegralText n (signedDigits n) := by
  have digits := all_isDigit_toDigits n.natAbs
  have value := digitsValue_toDigits n.natAbs
  have text := signedDigits_eq n
  obtain ⟨d, ds, split⟩ :=
    List.exists_cons_of_ne_nil (Nat.toDigits_ne_nil : Nat.toDigits 10 n.natAbs ≠ [])
  rw [split] at digits value text
  rw [List.all_cons, Bool.and_eq_true, List.all_eq_true] at digits
  have kept : ds.filter (· ≠ '_') = ds := by
    refine List.filter_eq_self.2 fun c mem => decide_eq_true ?_
    rintro rfl
    exact absurd (digits.2 _ mem) (by decide)
  have integral := IntegralText.mk (signText (decide (n < 0))) digits.1
    fun c mem => .inl (digits.2 c mem)
  rw [kept, value, ← text] at integral
  have signed : (if decide (n < 0) then -(n.natAbs : ℤ) else n.natAbs) = n := by
    simp only [decide_eq_true_eq]
    split <;> omega
  rwa [signed] at integral

/-! ### The text of a rational -/

theorem parse?_whole {text : String} {n : ℤ} (chars : text.toList = signedDigits n) :
    parse? text = some (n : ℚ) := by
  have trimmed : Text.trim text.toList = signedDigits n := by
    rw [chars, trim_of_solid (solid_signedDigits n)]
  have whole : '/' ∉ Text.trim text.toList := by
    rw [trimmed]
    exact slash_notMem_signedDigits n
  have limits : InLimits ⟨decide (n < 0), Nat.toDigits 10 n.natAbs, [], 0⟩ := by
    simp [InLimits]
  rw [parse?_of_notMem whole, trimmed, (spells_signedDigits n).read?_eq_some, Option.bind_some]
  exact ofLiteral?_eq_some_iff.2 ⟨limits, (value_signedDigits n).symm⟩

theorem parse?_fraction {text : String} {n : ℤ} {d : ℕ} (positive : d ≠ 0)
    (chars : text.toList = signedDigits n ++ '/' :: signedDigits d) :
    parse? text = some (Rat.divInt n d) := by
  have solid : ∀ c ∈ signedDigits n ++ '/' :: signedDigits d, Solid c := by
    intro c mem
    rcases List.mem_append.1 mem with mem | mem
    · exact solid_signedDigits n c mem
    · rcases List.mem_cons.1 mem with rfl | mem
      · exact .inr (.inr rfl)
      · exact solid_signedDigits d c mem
  have trimmed : Text.trim text.toList = signedDigits n ++ '/' :: signedDigits d := by
    rw [chars, trim_of_solid solid]
  refine (parse?_of_mem trimmed (slash_notMem_signedDigits n)).2 ⟨n, d, ?_, ?_, ?_, ?_⟩
  · exact readIntegral?_eq_some_iff.2 (integralText_signedDigits n)
  · exact readIntegral?_eq_some_iff.2 (integralText_signedDigits d)
  · exact_mod_cast positive
  · exact Rat.divInt_eq_div ..

theorem parse?_format (q : ℚ) : parse? (format q) = some q := by
  rw [format]
  split
  · next whole =>
    rw [parse?_whole (toList_toString_int q.num), Rat.coe_int_num_of_den_eq_one whole]
  · have denominator : (toString q.den).toList = signedDigits q.den :=
      (toList_toString_int q.den)
    rw [parse?_fraction (n := q.num) q.den_nz ?_, Rat.num_divInt_den]
    rw [String.toList_append, String.toList_append, toList_toString_int, denominator]
    simp

end Ratio

namespace Value

/-- The text of a rational reads back as the rational, also as a string value, and it is the same
for two rationals only if they are equal. -/
theorem rational_text_round_trip (q r : ℚ) :
    Ratio.parse? (Ratio.format q) = some q ∧ (string (rat q).repr).rat? = some q ∧
      ((rat q == rat r) = true ↔ (rat q).text = (rat r).text) ∧
      (q = r ↔ Ratio.format q = Ratio.format r) := by
  have same : q = r ↔ Ratio.format q = Ratio.format r := by
    refine ⟨congrArg Ratio.format, fun texts => ?_⟩
    have read := congrArg Ratio.parse? texts
    rw [Ratio.parse?_format, Ratio.parse?_format] at read
    exact Option.some.inj read
  have equal : (rat q == rat r) = (q == r) := rfl
  refine ⟨Ratio.parse?_format q, Ratio.parse?_format q, ?_, same⟩
  rw [equal, beq_iff_eq]
  exact same

end Value

end Conduit
