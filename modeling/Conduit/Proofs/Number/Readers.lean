import Conduit.Proofs.Number.Grammar
import Conduit.Proofs.Number.Nearest

/-!
The two readers of numbers beside one another.  A decimal literal is spelled alike for both, and the
float that is read is the nearest to the rational that is read.
-/

namespace Conduit

open Binary64 (Nearest negateIf nearest_signed)
open Ratio (InLimits ofLiteral?_eq_some_iff parse?_of_notMem)

variable {cs : List Char} {l : Literal} {q : ℚ} {text : String}

def SpecialText (cs : List Char) : Prop := ∃ negative sign word, SignText negative sign ∧
  cs = sign ++ word ∧ String.ofList (word.map Char.toLower) ∈ ["inf", "infinity", "nan"]

theorem specialText_of_readSpecial? (special : (readSpecial? cs).isSome) : SpecialText cs := by
  obtain ⟨sign, signed, split⟩ := exists_signText cs
  refine ⟨_, sign, _, signed, split, ?_⟩
  simp only [readSpecial?] at special
  split at special
  · next infinite => rcases infinite with same | same <;> simp [same]
  · split at special
    · next same => simp [same]
    · cases special

/-- Where a text is read as a rational it is read as a float too, the nearest one with the sign that
is written; and where it is read as a float, some word apart, it is a literal that is read as a
rational as long as its exponent is within the limits. -/
theorem readers_agree (whole : '/' ∉ text.toList) (bare : Text.Bare text.toList) :
    (∀ q, Ratio.parse? text = some q → ∃ m,
      Binary64.parse? text = some (.signed (text.toList.head? = some '-') m) ∧
        Nearest q (.signed (text.toList.head? = some '-') m)) ∧
    ((Binary64.parse? text).isSome → ¬ SpecialText text.toList →
      (∃ l : Literal, l.Spells text.toList) ∧
        ∀ l : Literal, l.Spells text.toList → InLimits l → (Ratio.parse? text).isSome) := by
  rw [← bare.trim_eq] at whole
  have parse := parse?_of_notMem whole
  rw [bare.trim_eq] at parse
  constructor
  · intro q read
    rw [parse] at read
    obtain ⟨l, literal, value⟩ := Option.bind_eq_some_iff.1 read
    obtain ⟨-, rfl⟩ := ofLiteral?_eq_some_iff.1 value
    have spells := Literal.read?_eq_some_iff.1 literal
    rw [← spells.negative_iff]
    exact ⟨_, spells.parse?, nearest_signed l.magnitude_nonneg l.negative⟩
  · intro number plain
    constructor
    · rw [Binary64.parse?] at number
      split at number
      · next l literal => exact ⟨l, Literal.read?_eq_some_iff.1 literal⟩
      · exact absurd (specialText_of_readSpecial? number) plain
    · intro l spells inside
      rw [parse, spells.read?_eq_some, Option.bind_some, Option.isSome_iff_exists]
      exact ⟨l.value, ofLiteral?_eq_some_iff.2 ⟨inside, rfl⟩⟩

theorem tiny_read_alike : '/' ∉ "-.5E-400".toList ∧ Text.Bare "-.5E-400".toList ∧
    ∃ q, Ratio.parse? "-.5E-400" = some q ∧
      Binary64.parse? "-.5E-400" = some (.zero true) ∧ Nearest q (.zero true) := by
  have whole : '/' ∉ "-.5E-400".toList := by decide
  have bare : Text.Bare "-.5E-400".toList := by
    constructor
    · intro c first
      obtain rfl : '-' = c := Option.some.inj first
      decide
    · intro c last
      obtain rfl : '0' = c := Option.some.inj last
      decide
  have zero : Binary64.parse? "-.5E-400" = some (.zero true) := by decide +kernel
  have plain : ¬ SpecialText "-.5E-400".toList := by
    rintro ⟨negative, sign, word, signed, split, special⟩
    cases signed with
    | none =>
      obtain rfl : word = "-.5E-400".toList := split.symm
      revert special
      decide +kernel
    | plus => cases split
    | minus =>
      obtain rfl : word = ".5E-400".toList := (List.cons.inj split).2.symm
      revert special
      decide +kernel
  have read : Literal.read? "-.5E-400".toList = some ⟨true, [], ['5'], -400⟩ := by decide +kernel
  obtain ⟨nearest, rational⟩ := readers_agree whole bare
  have spells := Literal.read?_eq_some_iff.1 read
  have some := (rational (by rw [zero]; rfl) plain).2 _ spells (by decide)
  obtain ⟨q, exact_⟩ := Option.isSome_iff_exists.1 some
  obtain ⟨m, float, closest⟩ := nearest q exact_
  rw [zero] at float
  rw [← Option.some.inj float] at closest
  exact ⟨whole, bare, q, exact_, zero, closest⟩

end Conduit
