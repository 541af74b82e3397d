import Conduit.Proofs.Json.Numerals
import Conduit.Proofs.Json.Scaling
import Conduit.Proofs.Number.Readers

/-!
Numerals that are read as operands of arithmetic are.
-/

namespace Conduit.Json

/-! ### The literal that a numeral is -/

def Exponent.value (e : Exponent) : ℤ :=
  if e.sign = .minus then -(digitsValue e.digits.chars : ℤ) else digitsValue e.digits.chars

theorem Exponent.exponentText (e : Exponent) : Literal.ExponentText e.value e.chars := by
  have signed : SignText (decide (e.sign = .minus)) e.sign.chars := by
    cases e.sign with
    | none => exact .none
    | plus => exact .plus
    | minus => exact .minus
  have text := Literal.ExponentText.some e.isLetter signed e.digits.digits e.digits.nonempty
  simpa [Exponent.value, Exponent.chars] using text

namespace NumberText

def literal (n : NumberText) : Literal :=
  ⟨n.negative, n.whole.chars, n.fractionDigits.getD [], n.exponent.elim 0 (·.value)⟩

theorem spells_chars (n : NumberText) : n.literal.Spells n.chars := by
  have pointed : Literal.FractionText (n.fractionDigits.getD [])
      (n.fraction.elim [] fun ds => '.' :: ds.chars) := by
    rw [fractionDigits]
    cases n.fraction with
    | none => exact .none
    | some ds => exact .some ds.digits
  have scaled : Literal.ExponentText (n.exponent.elim 0 (·.value))
      (n.exponent.elim [] (·.chars)) := by
    cases n.exponent with
    | none => exact .none
    | some e => exact e.exponentText
  have spells := Literal.Spells.mk (signText n.negative) n.whole.digits pointed
    (.inl n.whole.nonempty) scaled
  have text : n.chars = (if n.negative then ['-'] else []) ++ n.body := by
    rw [chars]
    cases n.negative <;> rfl
  rwa [text, body, List.append_assoc]

theorem parse?_chars (n : NumberText) : Binary64.parse? (String.ofList n.chars) =
    some (.signed n.negative (.nearest n.literal.magnitude)) := by
  have spells : n.literal.Spells (String.ofList n.chars).toList := by
    rw [String.toList_ofList]
    exact n.spells_chars
  exact spells.parse?

/-- Only zeros do not fit the word, and no more than one of the roundings changes anything. -/
def Exact (n : NumberText) : Prop :=
  ∃ numeral, n.numeral? = some numeral ∧
    (numeral.gathered.1 : ℚ) * 10 ^ numeral.gathered.2 = n.literal.magnitude ∧
    Numeral.RoundedOnce numeral.gathered.1 numeral.gathered.2

theorem negative_of_numeral? {n : NumberText} {numeral : Numeral}
    (numeral? : n.numeral? = some numeral) : numeral.negative = n.negative := by
  rw [NumberText.numeral?] at numeral?
  split at numeral?
  · cases numeral?
    rfl
  · obtain ⟨e, -, rfl⟩ := Option.map_eq_some_iff.1 numeral?
    rfl

theorem Exact.value?_eq {n : NumberText} (exact_ : n.Exact) :
    n.value? = Binary64.parse? (String.ofList n.chars) := by
  obtain ⟨numeral, numeral?, magnitude, once⟩ := exact_
  rw [parse?_chars, value?, numeral?, Option.bind_some, Numeral.value?_of_roundedOnce once,
    magnitude, negative_of_numeral? numeral?]

end NumberText

def Operand (x : Binary64) (text : Bytes) : Prop :=
  ∃ n : NumberText, text = n.bytes ∧ n.Exact ∧ Binary64.parse? (String.ofList n.chars) = some x

theorem Operand.number {x : Binary64} {text : Bytes} (operand : Operand x text) :
    Number x text := by
  obtain ⟨n, rfl, exact_, parse⟩ := operand
  exact ⟨n, rfl, exact_.value?_eq.trans parse⟩

end Conduit.Json
