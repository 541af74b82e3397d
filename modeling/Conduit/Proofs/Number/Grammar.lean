import Conduit.Number.Ratio
import Conduit.Proofs.Number.Spelling
import Conduit.Proofs.Text.Trim

/-!
The texts of exact rationals, decimal literals and pairs of integers joined by a slash.  Their reader
takes what the grammar spells and nothing else, and to the last digit.
-/

namespace Conduit

namespace Ratio

/-! ### Integers on either side of a slash -/

/-- A sign, a digit, and then digits or underscores, of which the latter count for nothing. -/
inductive IntegralText : ℤ → List Char → Prop
  | mk {negative : Bool} {sign ds : List Char} {d : Char} (signed : SignText negative sign)
    (digit : isDigit d = true) (rest : ∀ c ∈ ds, isDigit c = true ∨ c = '_') :
    IntegralText
      (if negative then -(digitsValue (d :: ds.filter (· ≠ '_')) : ℤ)
        else digitsValue (d :: ds.filter (· ≠ '_')))
      (sign ++ d :: ds)

variable {cs ds : List Char} {n d : ℤ} {l : Literal} {q : ℚ}

theorem all_isDigit_kept : (ds.filter (· ≠ '_')).all isDigit = true ↔
    ∀ c ∈ ds, isDigit c = true ∨ c = '_' := by
  simp only [List.all_eq_true, List.mem_filter, decide_eq_true_eq, and_imp]
  refine forall₂_congr fun c _ => ?_
  rw [or_comm, or_iff_not_imp_left]

theorem readNatural?_cons {c : Char} (first : c ≠ '_') : readNatural? (c :: ds) =
    if (c :: ds.filter (· ≠ '_')).all isDigit then
      some (digitsValue (c :: ds.filter (· ≠ '_')))
    else none := by
  have kept : (c :: ds).filter (· ≠ '_') = c :: ds.filter (· ≠ '_') :=
    List.filter_cons_of_pos (decide_eq_true first)
  unfold readNatural?
  split
  · next none => cases none
  · next lead => exact absurd (List.cons.inj lead).1 first
  · rw [kept]

theorem readNatural?_eq_some_iff {n : ℕ} : readNatural? cs = some n ↔ ∃ c ds, cs = c :: ds ∧
    isDigit c = true ∧ (∀ c ∈ ds, isDigit c = true ∨ c = '_') ∧
    n = digitsValue (c :: ds.filter (· ≠ '_')) := by
  constructor
  · intro read
    cases cs with
    | nil => cases read
    | cons c ds =>
      by_cases lead : c = '_'
      · subst lead
        cases read
      · rw [readNatural?_cons lead] at read
        split at read
        · next digits =>
          rw [List.all_cons, Bool.and_eq_true, all_isDigit_kept] at digits
          exact ⟨c, ds, rfl, digits.1, digits.2, (Option.some.inj read).symm⟩
        · cases read
  · rintro ⟨c, ds, rfl, digit, rest, rfl⟩
    have first : c ≠ '_' := by
      rintro rfl
      exact absurd digit (by decide)
    have digits : (c :: ds.filter (· ≠ '_')).all isDigit = true := by
      rw [List.all_cons, Bool.and_eq_true, all_isDigit_kept]
      exact ⟨digit, rest⟩
    rw [readNatural?_cons first, if_pos digits]

theorem readIntegral?_eq (cs : List Char) : readIntegral? cs =
    (readNatural? (splitSign cs).2).map fun n : ℕ =>
      if (splitSign cs).1 then -(n : ℤ) else n := by
  rw [readIntegral?]
  obtain ⟨negative, body⟩ := splitSign cs
  dsimp only
  cases readNatural? body <;> rfl

theorem readIntegral?_eq_some_iff : readIntegral? cs = some n ↔ IntegralText n cs := by
  rw [readIntegral?_eq]
  constructor
  · intro read
    obtain ⟨sign, signed, split⟩ := exists_signText cs
    generalize splitSign cs = parts at read signed split
    obtain ⟨m, natural, rfl⟩ := Option.map_eq_some_iff.1 read
    obtain ⟨c, ds, body, digit, rest, rfl⟩ := readNatural?_eq_some_iff.1 natural
    rw [split, body]
    exact .mk signed digit rest
  · intro text
    cases text with
    | @mk negative sign ds c signed digit rest =>
      have plain : ∀ d ∈ (c :: ds).head?, d ≠ '-' ∧ d ≠ '+' := by
        intro d first
        obtain rfl : c = d := Option.some.inj first
        exact not_sign_of_digit digit
      have natural := readNatural?_eq_some_iff.2 ⟨c, ds, rfl, digit, rest, rfl⟩
      rw [splitSign_append signed plain, natural]
      rfl

/-! ### The texts of rationals -/

def InLimits (l : Literal) : Prop :=
  -2 ^ 63 ≤ l.exponent ∧ l.exponent < 2 ^ 63 ∧ |l.exponent - l.fraction.length| ≤ 4096

instance (l : Literal) : Decidable (InLimits l) := inferInstanceAs (Decidable (_ ∧ _ ∧ _))

theorem ofLiteral?_eq_some_iff : ofLiteral? l = some q ↔ InLimits l ∧ q = l.value := by
  have limits : (-exponentLimit ≤ l.exponent ∧ l.exponent < exponentLimit ∧
      l.scale.natAbs ≤ scaleLimit) ↔ InLimits l := by
    rw [InLimits, Int.abs_eq_natAbs]
    simp only [exponentLimit, scaleLimit, Literal.scale]
    omega
  rw [ofLiteral?, if_congr limits rfl rfl]
  split
  · next inside => simp [inside, eq_comm]
  · next outside => simp [outside]

theorem value_eq_shifted (l : Literal) : l.value =
    (if l.negative then -1 else 1) * digitsValue (l.whole ++ l.fraction) *
      10 ^ (l.exponent - l.fraction.length) := by
  rw [Literal.value, Literal.magnitude, Literal.digits, Literal.scale]
  split
  · rw [neg_one_mul, neg_mul]
  · rw [one_mul]

variable {text : String}

theorem parse?_of_notMem (whole : '/' ∉ Text.trim text.toList) :
    parse? text = (Literal.read? (Text.trim text.toList)).bind ofLiteral? := by
  have parts : (Text.trim text.toList ++ []).span (· ≠ '/') = (Text.trim text.toList, []) :=
    span_append (fun c mem => decide_eq_true fun same => whole (same ▸ mem)) (by simp)
  rw [List.append_nil] at parts
  rw [parse?, parts]

theorem parse?_of_mem {before after : List Char}
    (split : Text.trim text.toList = before ++ '/' :: after) (first : '/' ∉ before) :
    parse? text = some q ↔ ∃ n d : ℤ, readIntegral? before = some n ∧
      readIntegral? after = some d ∧ d ≠ 0 ∧ q = n / d := by
  have parts : (before ++ '/' :: after).span (· ≠ '/') = (before, '/' :: after) :=
    span_append (fun c mem => decide_eq_true fun same => first (same ▸ mem)) (by simp)
  rw [parse?, split, parts]
  simp only [Option.bind_eq_bind, Option.bind_eq_some_iff, Option.ite_none_left_eq_some,
    Option.some.injEq, Rat.divInt_eq_div]
  constructor
  · rintro ⟨n, numerator, d, denominator, nonzero, rfl⟩
    exact ⟨n, d, numerator, denominator, nonzero, rfl⟩
  · rintro ⟨n, d, numerator, denominator, nonzero, rfl⟩
    exact ⟨n, numerator, d, denominator, nonzero, rfl⟩

/-- A text is read as a rational exactly if it is written as one: what is left of it without the
white space around it is a pair of integers at its first slash or, with no slash in it, a decimal
literal, and in either case it is read as just the number that is written. -/
theorem read_as_written (text : String) : ∃ u, (∀ v, Text.Trimmed text.toList v ↔ v = u) ∧
    ('/' ∈ u → ∃ before after, u = before ++ '/' :: after ∧ '/' ∉ before ∧ ∀ q : ℚ,
      parse? text = some q ↔ ∃ n d : ℤ, IntegralText n before ∧ IntegralText d after ∧ d ≠ 0 ∧
        q = n / d) ∧
    ('/' ∉ u → ∀ q : ℚ, parse? text = some q ↔ ∃ l : Literal, l.Spells u ∧ InLimits l ∧
      q = (if l.negative then -1 else 1) * digitsValue (l.whole ++ l.fraction) *
        10 ^ (l.exponent - l.fraction.length)) := by
  refine ⟨Text.trim text.toList, fun v => Text.trimmed_iff, fun slash => ?_, fun whole q => ?_⟩
  · obtain ⟨before, after, split, first⟩ := List.eq_append_cons_of_mem slash
    refine ⟨before, after, split, first, fun q => ?_⟩
    rw [parse?_of_mem split first]
    simp only [readIntegral?_eq_some_iff]
  · rw [parse?_of_notMem whole]
    simp only [Option.bind_eq_some_iff, Literal.read?_eq_some_iff, ofLiteral?_eq_some_iff,
      value_eq_shifted]

end Ratio

end Conduit
