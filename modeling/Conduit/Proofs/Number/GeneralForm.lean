import Conduit.Proofs.Number.Fewest
import Conduit.Proofs.Number.Format

/-!
The general form of a float: which digits are printed, and how they are laid out, with an exponent
or without.
-/

namespace Conduit

variable {ds body : List Char} {e : ℤ} {s : Scientific}

/-! ### The layouts of a decimal -/

structure WholeDigits (ds : List Char) : Prop where
  digits : ds.all isDigit = true
  nonempty : ds ≠ []
  leading : ds.head? = some '0' → ds = ['0']

structure FractionDigits (ds : List Char) : Prop where
  digits : ds.all isDigit = true
  nonempty : ds ≠ []
  last : ds.getLast? ≠ some '0'

inductive PlainForm : List Char → Prop
  | whole {ds : List Char} (digits : WholeDigits ds) : PlainForm ds
  | point {ds fraction : List Char} (digits : WholeDigits ds) (rest : FractionDigits fraction) :
    PlainForm (ds ++ '.' :: fraction)

inductive ExponentForm : List Char → ℤ → List Char → Prop
  | one {d : Char} {e : ℤ} {exponent : List Char}
    (scaled : Scientific.ExponentDigits e.natAbs exponent) :
    ExponentForm [d] e (d :: 'e' :: (if e < 0 then '-' else '+') :: exponent)
  | more {d d' : Char} {ds : List Char} {e : ℤ} {exponent : List Char}
    (scaled : Scientific.ExponentDigits e.natAbs exponent) :
    ExponentForm (d :: d' :: ds) e
      (d :: '.' :: (d' :: ds ++ 'e' :: (if e < 0 then '-' else '+') :: exponent))

theorem ExponentForm.mem (form : ExponentForm ds e body) : 'e' ∈ body := by
  cases form <;> simp

theorem PlainForm.notMem (form : PlainForm body) : 'e' ∉ body := by
  have digit {ds : List Char} (digits : ds.all isDigit = true) : 'e' ∉ ds := by
    intro mem
    exact absurd (List.all_eq_true.1 digits 'e' mem) (by decide)
  cases form with
  | whole digits => exact digit digits.digits
  | point digits rest => simp [digit digits.digits, digit rest.digits]

namespace Scientific

theorem head_digits (positive : 0 < s.coefficient) : s.digits.head? ≠ some '0' := by
  intro zero
  have value := s.digitsValue_digits
  rw [digits, toDigits_noLeadingZero _ zero] at value
  exact absurd value positive.ne

theorem exponentForm (large : needsExponent s.exponent = true) :
    ExponentForm s.digits s.exponent s.format := by
  obtain ⟨ds, exponent, text⟩ := exists_exponentDigits s.exponent
  obtain ⟨d, more, split⟩ := List.exists_cons_of_ne_nil s.digits_ne_nil
  simp only [format, split, large, ↓reduceIte, text]
  cases more with
  | nil => exact .one exponent
  | cons d' more => exact .more exponent

theorem plainForm_leading (last : s.digits.getLast? ≠ some '0')
    (small : needsExponent s.exponent = false) (below : s.exponent < 0) : PlainForm s.format := by
  have zero : isDigit '0' = true := by decide
  simp only [format, small, below, Bool.false_eq_true, ↓reduceIte]
  change PlainForm (['0'] ++ '.' :: (List.replicate (s.exponent.natAbs - 1) '0' ++ s.digits))
  refine .point ⟨by simp [zero], List.cons_ne_nil _ _, fun _ => rfl⟩ ⟨?_, ?_, ?_⟩
  · simp [s.all_isDigit_digits, zero]
  · simp [s.digits_ne_nil]
  · rwa [List.getLast?_append_of_ne_nil _ s.digits_ne_nil]

theorem plainForm_whole (positive : 0 < s.coefficient)
    (small : needsExponent s.exponent = false) (above : ¬ s.exponent < 0)
    (short : s.digits.length ≤ s.exponent.toNat + 1) : PlainForm s.format := by
  have zero : isDigit '0' = true := by decide
  simp only [format, small, above, short, Bool.false_eq_true, ↓reduceIte]
  refine .whole ⟨?_, ?_, fun leading => ?_⟩
  · simp [s.all_isDigit_digits, zero]
  · simp [s.digits_ne_nil]
  · rw [List.head?_append_of_ne_nil _ s.digits_ne_nil] at leading
    exact absurd leading (head_digits positive)

theorem plainForm_point (positive : 0 < s.coefficient) (last : s.digits.getLast? ≠ some '0')
    (small : needsExponent s.exponent = false) (above : ¬ s.exponent < 0)
    (long : ¬ s.digits.length ≤ s.exponent.toNat + 1) : PlainForm s.format := by
  have all := s.all_isDigit_digits
  rw [← List.take_append_drop (s.exponent.toNat + 1) s.digits, List.all_append,
    Bool.and_eq_true] at all
  simp only [format, small, above, long, Bool.false_eq_true, ↓reduceIte]
  refine .point ⟨all.1, ?_, fun leading => ?_⟩ ⟨all.2, ?_, ?_⟩
  · simp [s.digits_ne_nil]
  · rw [List.head?_take, if_neg (Nat.succ_ne_zero _)] at leading
    exact absurd leading (head_digits positive)
  · simpa using long
  · rwa [List.getLast?_drop, if_neg long]

theorem plainForm (positive : 0 < s.coefficient) (last : s.digits.getLast? ≠ some '0')
    (small : needsExponent s.exponent = false) : PlainForm s.format := by
  by_cases below : s.exponent < 0
  · exact plainForm_leading last small below
  · by_cases short : s.digits.length ≤ s.exponent.toNat + 1
    · exact plainForm_whole positive small below short
    · exact plainForm_point positive last small below short

theorem exponentForm_iff (positive : 0 < s.coefficient) (last : s.digits.getLast? ≠ some '0') :
    ExponentForm s.digits s.exponent s.format ↔ s.exponent < -4 ∨ 6 ≤ s.exponent := by
  have large : needsExponent s.exponent = true ↔ s.exponent < -4 ∨ 6 ≤ s.exponent := by
    simp [needsExponent]
  rw [← large]
  refine ⟨fun form => ?_, exponentForm⟩
  by_contra small
  exact (plainForm positive last (Bool.eq_false_iff.2 small)).notMem form.mem

theorem plainForm_iff (positive : 0 < s.coefficient) (last : s.digits.getLast? ≠ some '0') :
    PlainForm s.format ↔ -4 ≤ s.exponent ∧ s.exponent < 6 := by
  have small : needsExponent s.exponent = false ↔ -4 ≤ s.exponent ∧ s.exponent < 6 := by
    simp [needsExponent]
  rw [← small]
  refine ⟨fun form => ?_, plainForm positive last⟩
  by_contra large
  exact form.notMem (exponentForm (Bool.eq_true_of_not_eq_false large)).mem

end Scientific

namespace Binary64

variable {m : Magnitude} {q : ℚ}

/-! ### The shortest digits -/

def decimal (ds : List Char) (e : ℤ) : ℚ := digitsValue ds * 10 ^ (e + 1 - ds.length)

/-- The digits of a decimal that is rounded to the magnitude.  No decimal with fewer digits is, and
none with as many that is rounded to it is nearer to its value. -/
structure ShortestDigits (m : Magnitude) (ds : List Char) (e : ℤ) : Prop where
  digits : ds.all isDigit = true
  nonempty : ds ≠ []
  first : ds.head? ≠ some '0'
  last : ds.getLast? ≠ some '0'
  back : Magnitude.nearest (decimal ds e) = m
  fewest : ∀ (ds' : List Char) (e' : ℤ), ds'.all isDigit = true →
    Magnitude.nearest (decimal ds' e') = m → ds.length ≤ ds'.length ∧
      (ds'.length = ds.length → |decimal ds e - m.value| ≤ |decimal ds' e' - m.value|)

theorem decimal_digits (s : Scientific) : decimal s.digits s.exponent = s.value := by
  rw [decimal, s.digitsValue_digits]
  rfl

theorem place_of_nearest (finite : m ≠ .infinity) (nonneg : 0 ≤ q)
    (same : Magnitude.nearest q = m) : place q = m.val := by
  have rounded := nearest_val q
  have below : m.val ≠ top := fun most => finite (Fin.ext most)
  rw [same, abs_of_nonneg nonneg] at rounded
  omega

theorem length_toDigits_le (digits : ds.all isDigit = true) (nonempty : ds ≠ []) :
    (Nat.toDigits 10 (digitsValue ds)).length ≤ ds.length :=
  (Nat.length_toDigits_le_iff (by decide) (List.length_pos_of_ne_nil nonempty)).2
    (digitsValue_lt digits)

theorem place_shortest (nonzero : m ≠ .zero) (finite : m ≠ .infinity) :
    place (shortest m).value = m.val := by
  have nonneg : 0 ≤ (shortest m).value := by
    rw [Scientific.value]
    positivity
  exact place_of_nearest finite nonneg (shortest_spec nonzero).2

theorem last_shortest (nonzero : m ≠ .zero) (finite : m ≠ .infinity) :
    (shortest m).digits.getLast? ≠ some '0' := by
  intro zero
  obtain ⟨ds, split⟩ := List.getLast?_eq_some_iff.1 zero
  have all := (shortest m).all_isDigit_digits
  have tenfold := (shortest m).digitsValue_digits
  rw [split, List.all_append, Bool.and_eq_true] at all
  rw [split, digitsValue_append, show digitsValue ['0'] = 0 from rfl, List.length_singleton,
    Nat.pow_one, Nat.add_zero] at tenfold
  have value : (digitsValue ds : ℚ) * 10 ^ ((shortest m).scale + 1) = (shortest m).value := by
    rw [Scientific.value, ← tenfold, zpow_add_one₀ (by norm_num)]
    push_cast
    ring
  have back := place_shortest nonzero finite
  rw [← value] at back
  have nonempty : ds ≠ [] := by
    rintro rfl
    exact absurd (pos_of_place nonzero back) (by decide)
  have fewest := (shortest_fewest nonzero back).1
  have short := length_toDigits_le all.1 nonempty
  rw [split, List.length_append, List.length_singleton] at fewest
  omega

theorem shortestDigits (nonzero : m ≠ .zero) (finite : m ≠ .infinity) :
    ShortestDigits m (shortest m).digits (shortest m).exponent := by
  obtain ⟨positive, back⟩ := shortest_spec nonzero
  refine ⟨(shortest m).all_isDigit_digits, (shortest m).digits_ne_nil,
    Scientific.head_digits positive, last_shortest nonzero finite, ?_, fun ds' e' digits back' => ?_⟩
  · rwa [decimal_digits]
  · have nonneg : 0 ≤ decimal ds' e' := by
      rw [decimal]
      positivity
    have place' := place_of_nearest finite nonneg back'
    obtain ⟨fewest, closest⟩ := shortest_fewest nonzero place'
    have nonempty : ds' ≠ [] := by
      rintro rfl
      exact absurd (pos_of_place nonzero place') (by decide)
    have short := length_toDigits_le digits nonempty
    refine ⟨fewest.trans short, fun same => ?_⟩
    rw [decimal_digits]
    exact closest (le_antisymm (short.trans_eq same) fewest)

/-! ### The text -/

/-- A float is printed as its shortest digits, behind its sign: with an exponent if the number is
small or large, and otherwise plainly. -/
theorem general_form (negative : Bool) (nonzero : m ≠ .zero) (finite : m ≠ .infinity) :
    ∃ (ds : List Char) (e : ℤ) (body : List Char), ShortestDigits m ds e ∧
      (signed negative m).format.toList = (if negative then ['-'] else []) ++ body ∧
      (∃ l : Literal, l.Spells (signed negative m).format.toList ∧
        l.value = negateIf negative (decimal ds e)) ∧
      (ExponentForm ds e body ↔ e < -4 ∨ 6 ≤ e) ∧ (PlainForm body ↔ -4 ≤ e ∧ e < 6) := by
  obtain ⟨positive, -⟩ := shortest_spec nonzero
  have last := last_shortest nonzero finite
  have text := toList_format nonzero finite negative
  refine ⟨_, _, (shortest m).format, shortestDigits nonzero finite, text, ?_,
    Scientific.exponentForm_iff positive last, Scientific.plainForm_iff positive last⟩
  obtain ⟨l, spells, rfl, magnitude⟩ := (shortest m).denotes_format (signText negative)
  rw [← text] at spells
  exact ⟨l, spells, by rw [Literal.value, magnitude, decimal_digits, negateIf]⟩

theorem least_general_form : ⟨1, by decide⟩ ≠ Magnitude.zero ∧
    ⟨1, by decide⟩ ≠ Magnitude.infinity ∧ (signed true ⟨1, by decide⟩).format = "-5e-324" ∧
    ∃ ds e, ShortestDigits ⟨1, by decide⟩ ds e ∧ ExponentForm ds e "5e-324".toList := by
  have nonzero : ⟨1, by decide⟩ ≠ Magnitude.zero := by decide
  have finite : ⟨1, by decide⟩ ≠ Magnitude.infinity := by decide
  have text : (signed true ⟨1, by decide⟩).format = "-5e-324" := by decide +kernel
  obtain ⟨ds, e, body, shortest, same, -, large, small⟩ := general_form true nonzero finite
  rw [text] at same
  obtain rfl : "5e-324".toList = body := (List.cons.inj same).2
  have range : e < -4 ∨ 6 ≤ e := by
    by_contra inside
    exact (small.2 (by omega)).notMem (by decide)
  exact ⟨nonzero, finite, text, ds, e, shortest, large.2 range⟩

end Binary64

end Conduit
