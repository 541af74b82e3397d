import Conduit.Proofs.Number.Shortest
import Conduit.Proofs.Number.Spelling
import Mathlib.Tactic.SplitIfs

/-!
The text of a float reads back as the float: each of the four ways to lay out its digits stands for
the same decimal.
-/

namespace Conduit

open Binary64 (Magnitude)

variable {sign : List Char} {negative : Bool} {s : Scientific}

def Denotes (cs : List Char) (negative : Bool) (q : ℚ) : Prop :=
  ∃ l : Literal, l.Spells cs ∧ l.negative = negative ∧ l.magnitude = q

theorem parse?_of_denotes {text : String} {q : ℚ} (denotes : Denotes text.toList negative q) :
    Binary64.parse? text = some (.signed negative (.nearest q)) := by
  obtain ⟨l, spells, rfl, rfl⟩ := denotes
  exact spells.parse?

namespace Scientific

structure ExponentDigits (n : ℕ) (ds : List Char) : Prop where
  digits : ds.all isDigit = true
  value : digitsValue ds = n
  many : 2 ≤ ds.length
  bare : ds.head? = some '0' → ds.length = 2

theorem ExponentDigits.ne_nil {n : ℕ} {ds : List Char} (exponent : ExponentDigits n ds) :
    ds ≠ [] := by
  rintro rfl
  exact absurd exponent.many (by decide)

theorem exists_exponentDigits (e : ℤ) : ∃ ds, ExponentDigits e.natAbs ds ∧
    formatExponent e = (if e < 0 then '-' else '+') :: ds := by
  have digits := all_isDigit_toDigits e.natAbs
  have value := digitsValue_toDigits e.natAbs
  refine ⟨_, ?_, rfl⟩
  split
  · next short =>
    have one : (Nat.toDigits 10 e.natAbs).length = 1 := by
      have some : 0 < (Nat.toDigits 10 e.natAbs).length := Nat.length_toDigits_pos
      omega
    have zero : isDigit '0' = true := by decide
    refine ⟨by simp [digits, zero], ?_, by simp [one], fun _ => by simp [one]⟩
    rw [digitsValue_cons, value]
    simp [digitValue]
  · next long =>
    refine ⟨digits, value, not_lt.1 long, fun leading => ?_⟩
    rw [toDigits_noLeadingZero _ leading] at long
    exact absurd (by decide) long

theorem exponentText (e : ℤ) : Literal.ExponentText e ('e' :: formatExponent e) := by
  obtain ⟨ds, exponent, text⟩ := exists_exponentDigits e
  have signed : SignText (decide (e < 0)) [if e < 0 then '-' else '+'] := by
    by_cases below : e < 0
    · simpa [below] using SignText.minus
    · simpa [below] using SignText.plus
  have value : (if decide (e < 0) then -(digitsValue ds : ℤ) else digitsValue ds) = e := by
    rw [exponent.value]
    simp only [decide_eq_true_eq]
    split <;> omega
  have scaled := Literal.ExponentText.some (.inl rfl) signed exponent.digits exponent.ne_nil
  rwa [value, List.singleton_append, ← text] at scaled

theorem digitsValue_digits (s : Scientific) : digitsValue s.digits = s.coefficient :=
  digitsValue_toDigits _

theorem all_isDigit_digits (s : Scientific) : s.digits.all isDigit = true := all_isDigit_toDigits _

theorem digits_ne_nil (s : Scientific) : s.digits ≠ [] := Nat.toDigits_ne_nil

theorem magnitude_eq_value {l : Literal} (zeros : ℕ)
    (digits : digitsValue l.digits = s.coefficient * 10 ^ zeros)
    (scale : l.scale + zeros = s.scale) : l.magnitude = s.value := by
  have ten : (10 : ℚ) ≠ 0 := by norm_num
  rw [Literal.magnitude, digits, value, ← scale, zpow_add₀ ten, zpow_natCast]
  push_cast
  ring

theorem denotes_exponent (large : needsExponent s.exponent = true)
    (signed : SignText negative sign) : Denotes (sign ++ s.format) negative s.value := by
  have scaled := exponentText s.exponent
  have all := s.all_isDigit_digits
  have value := s.digitsValue_digits
  have scale : s.scale = s.exponent + 1 - s.digits.length := rfl
  obtain ⟨d, more, split⟩ := List.exists_cons_of_ne_nil s.digits_ne_nil
  rw [split] at all value scale
  rw [List.all_cons, Bool.and_eq_true] at all
  simp only [format, split, large, ↓reduceIte]
  cases more with
  | nil =>
    refine ⟨⟨negative, [d], [], s.exponent⟩, ?_, rfl, ?_⟩
    · exact .mk signed (by simp [all.1]) .none (.inl (List.cons_ne_nil _ _)) scaled
    · refine magnitude_eq_value 0 (by simpa [Literal.digits] using value) ?_
      simp [Literal.scale, scale]
  | cons d' more =>
    refine ⟨⟨negative, [d], d' :: more, s.exponent⟩, ?_, rfl, ?_⟩
    · exact .mk signed (by simp [all.1]) (.some all.2) (.inl (List.cons_ne_nil _ _)) scaled
    · refine magnitude_eq_value 0 (by simpa [Literal.digits] using value) ?_
      simp [Literal.scale, scale]

theorem denotes_leading (small : needsExponent s.exponent = false) (below : s.exponent < 0)
    (signed : SignText negative sign) : Denotes (sign ++ s.format) negative s.value := by
  have value := s.digitsValue_digits
  have scale : s.scale = s.exponent + 1 - s.digits.length := rfl
  have zero : isDigit '0' = true := by decide
  have all : (List.replicate (s.exponent.natAbs - 1) '0' ++ s.digits).all isDigit = true := by
    simp [s.all_isDigit_digits, zero]
  have first : ['0'].all isDigit = true := by simp [zero]
  have spells := Literal.Spells.mk signed first (.some all) (.inl (List.cons_ne_nil _ _)) .none
  simp only [format, small, below, Bool.false_eq_true, ↓reduceIte]
  refine ⟨_, by simpa using spells, rfl, magnitude_eq_value 0 ?_ ?_⟩
  · have zeros : digitsValue (['0'] ++ List.replicate (s.exponent.natAbs - 1) '0') = 0 :=
      digitsValue_zeros (s.exponent.natAbs - 1 + 1)
    rw [Literal.digits, ← List.append_assoc, digitsValue_append, value, zeros]
    simp
  · simp [Literal.scale, scale]
    omega

theorem denotes_whole (small : needsExponent s.exponent = false) (above : ¬ s.exponent < 0)
    (short : s.digits.length ≤ s.exponent.toNat + 1) (signed : SignText negative sign) :
    Denotes (sign ++ s.format) negative s.value := by
  have scale : s.scale = s.exponent + 1 - s.digits.length := rfl
  have zero : isDigit '0' = true := by decide
  have all : (s.digits ++ List.replicate (s.exponent.toNat + 1 - s.digits.length) '0').all
      isDigit = true := by
    simp [s.all_isDigit_digits, zero]
  have spells := Literal.Spells.mk signed all .none (.inl (by simp [s.digits_ne_nil])) .none
  simp only [format, small, above, short, Bool.false_eq_true, ↓reduceIte]
  refine ⟨_, by simpa using spells, rfl,
    magnitude_eq_value (s.exponent.toNat + 1 - s.digits.length) ?_ ?_⟩
  · rw [Literal.digits, List.append_nil, digitsValue_append, digitsValue_zeros,
      s.digitsValue_digits, List.length_replicate, Nat.add_zero]
  · simp [Literal.scale, scale]
    omega

theorem denotes_point (small : needsExponent s.exponent = false) (above : ¬ s.exponent < 0)
    (long : ¬ s.digits.length ≤ s.exponent.toNat + 1) (signed : SignText negative sign) :
    Denotes (sign ++ s.format) negative s.value := by
  have scale : s.scale = s.exponent + 1 - s.digits.length := rfl
  have all := s.all_isDigit_digits
  rw [← List.take_append_drop (s.exponent.toNat + 1) s.digits, List.all_append,
    Bool.and_eq_true] at all
  have spells := Literal.Spells.mk signed all.1 (.some all.2) (.inl (by simp [s.digits_ne_nil]))
    .none
  simp only [format, small, above, long, Bool.false_eq_true, ↓reduceIte]
  refine ⟨_, by simpa using spells, rfl,
    magnitude_eq_value 0 (by simp [Literal.digits, s.digitsValue_digits]) ?_⟩
  simp [Literal.scale, scale]
  omega

theorem denotes_format (s : Scientific) (signed : SignText negative sign) :
    Denotes (sign ++ s.format) negative s.value := by
  cases large : needsExponent s.exponent with
  | true => exact denotes_exponent large signed
  | false =>
    by_cases below : s.exponent < 0
    · exact denotes_leading large below signed
    · by_cases short : s.digits.length ≤ s.exponent.toNat + 1
      · exact denotes_whole large below short signed
      · exact denotes_point large below short signed

end Scientific

namespace Binary64

theorem toList_format {m : Magnitude} (nonzero : m ≠ .zero) (finite : m ≠ .infinity)
    (negative : Bool) : (signed negative m).format.toList =
      (if negative then ['-'] else []) ++ (shortest m).format := by
  rw [format, if_neg finite, if_neg nonzero, String.toList_ofList]
  cases negative <;> rfl

theorem parse?_format (x : Binary64) : parse? x.format = some x := by
  cases x with
  | nan => rfl
  | signed negative m =>
    by_cases infinite : m = .infinity
    · subst infinite
      cases negative <;> rfl
    · by_cases zero : m = .zero
      · subst zero
        cases negative <;> rfl
      · have denotes := (shortest m).denotes_format (signText negative)
        rw [← toList_format zero infinite] at denotes
        rw [parse?_of_denotes denotes, (shortest_spec zero).2]

theorem toBits_ofBits {bits : UInt64} (number : ¬ top < bits.toNat % signBit) :
    (ofBits bits).toBits = bits := by
  have range : bits.toNat < 2 * signBit := bits.toNat_lt
  have whole :
      (if signBit ≤ bits.toNat then signBit else 0) + bits.toNat % signBit = bits.toNat := by
    rw [signBit] at range ⊢
    split <;> omega
  have finite : bits.toNat % signBit < top + 1 := by omega
  simp only [ofBits, dif_pos finite, toBits, decide_eq_true_eq, whole, UInt64.ofNat_toNat]

/-- A float is read back from its text with every bit in place, and where the pattern is no number
its text is read as none either. -/
theorem parse?_format_ofBits (bits : UInt64) : ∃ y, parse? (ofBits bits).format = some y ∧
    if top < bits.toNat % signBit then y = nan else y.toBits = bits := by
  refine ⟨ofBits bits, parse?_format (ofBits bits), ?_⟩
  split
  · next beyond => exact dif_neg (by omega)
  · next number => exact toBits_ofBits number

end Binary64

end Conduit
