import Conduit.Proofs.Json.Documents
import Conduit.Proofs.Number.GeneralForm
import Conduit.Proofs.Number.Ratio

/-!
The numerals of integers, with the floats they are read as, and those that floats are printed as.
-/

namespace Conduit

open Binary64 (Magnitude)

namespace Binary64

theorem round_intCast (n : ℤ) :
    round n false = if n < 0 then -ofNat n.natAbs else ofNat n.natAbs := by
  rw [ofNat_eq]
  split
  · next below =>
    have magnitude : ((n.natAbs : ℕ) : ℚ) = -n := by
      rw [Nat.cast_natAbs, abs_of_neg below]
      push_cast
      rfl
    have nonzero : (n : ℚ) ≠ 0 := by exact_mod_cast below.ne
    have negative : (n : ℚ) < 0 := by exact_mod_cast below
    rw [magnitude, nearest_neg, round, if_neg nonzero, decide_eq_true negative]
    rfl
  · next above =>
    have magnitude : ((n.natAbs : ℕ) : ℚ) = n := by
      rw [Nat.cast_natAbs, abs_of_nonneg (not_lt.1 above)]
    have positive : ¬ (n : ℚ) < 0 := by exact_mod_cast above
    rw [magnitude, round]
    split
    · rfl
    · rw [decide_eq_false positive]

end Binary64

namespace Json

open Decoder (byte extended)

theorem Numeral.gather_of_fits {w : ℕ} {ds : List Char} (fits : extended w ds < wordLimit) :
    gather w ds = (extended w ds, []) := by
  induction ds generalizing w with
  | nil => rfl
  | cons a ds ih =>
    have step : extended w (a :: ds) = extended (w * 10 + digitValue a) ds := by
      rw [Nat.mul_comm]
      rfl
    have longer := Decoder.le_extended (w * 10 + digitValue a) ds
    rw [step] at fits ⊢
    rw [gather, if_pos (Nat.lt_of_le_of_lt longer fits)]
    exact ih fits

/-! ### The bytes of a numeral -/

theorem utf8EncodeChar_of_small {a : Char} (small : a.toNat < 0x80) :
    String.utf8EncodeChar a = [byte a] :=
  Utf8.utf8EncodeChar_eq rfl
    (.inl ⟨small, by simp [Decoder.toNat_byte (by omega : a.toNat < 0x100)]⟩)

theorem flatMap_of_small {cs : List Char} (small : ∀ a ∈ cs, a.toNat < 0x80) :
    cs.flatMap String.utf8EncodeChar = cs.map byte := by
  rw [List.map_eq_flatMap]
  exact List.flatMap_congr fun a mem => utf8EncodeChar_of_small (small a mem)

namespace NumberText

theorem small_of_mem_chars {n : NumberText} : ∀ a ∈ n.chars, a.toNat < 0x80 := by
  have digits (ds : Digits) : ∀ a ∈ ds.chars, a.toNat < 0x80 := fun a mem => by
    have digit := List.all_eq_true.1 ds.digits a mem
    rw [Decoder.isDigit_iff] at digit
    omega
  have point : ∀ a ∈ n.fraction.elim [] fun ds => '.' :: ds.chars, a.toNat < 0x80 := by
    cases n.fraction with
    | none => nofun
    | some ds => exact List.forall_mem_cons.2 ⟨by decide, digits ds⟩
  have exponent : ∀ a ∈ n.exponent.elim [] (·.chars), a.toNat < 0x80 := by
    cases n.exponent with
    | none => nofun
    | some e =>
      refine List.forall_mem_cons.2 ⟨?_, List.forall_mem_append.2 ⟨?_, digits e.digits⟩⟩
      · rcases e.isLetter with letter | letter <;> rw [letter] <;> decide
      · exact List.all_iff_forall_prop.1 (by cases e.sign <;> decide)
  have body : ∀ a ∈ n.body, a.toNat < 0x80 :=
    List.forall_mem_append.2 ⟨List.forall_mem_append.2 ⟨digits n.whole, point⟩, exponent⟩
  rw [chars]
  split
  · exact List.forall_mem_cons.2 ⟨by decide, body⟩
  · exact body

theorem bytes_eq (n : NumberText) : n.bytes = Utf8.encode (String.ofList n.chars) := by
  rw [bytes, Utf8.encode_eq, String.toList_ofList, flatMap_of_small small_of_mem_chars]

end NumberText

/-! ### Integers -/

def Integer (x : Binary64) (text : Bytes) : Prop :=
  ∃ n : ℤ, n.natAbs ≤ 2 ^ 53 ∧ x = .round n false ∧ text = Utf8.encode (toString n)

def integerText (n : ℤ) : NumberText where
  negative := n < 0
  whole := ⟨Nat.toDigits 10 n.natAbs, all_isDigit_toDigits _, Nat.toDigits_ne_nil⟩
  noLeadingZero := toDigits_noLeadingZero _
  fraction := none
  exponent := none

theorem chars_integerText (n : ℤ) : (integerText n).chars = Ratio.signedDigits n := by
  simp [NumberText.chars, NumberText.body, integerText, Ratio.signedDigits]

theorem bytes_integerText (n : ℤ) : (integerText n).bytes = Utf8.encode (toString n) := by
  rw [NumberText.bytes_eq, chars_integerText, ← Ratio.toList_toString_int, String.ofList_toList]

theorem value?_integerText {n : ℤ} (fits : n.natAbs < Numeral.wordLimit) :
    (integerText n).value? = some (.round n false) := by
  have word : extended 0 (Nat.toDigits 10 n.natAbs) = n.natAbs := digitsValue_toDigits _
  have gathered := Numeral.gather_of_fits (word.symm ▸ fits)
  rw [word] at gathered
  have magnitude : Numeral.magnitude? ⟨decide (n < 0), Nat.toDigits 10 n.natAbs, none, none⟩ =
      some (.ofNat n.natAbs) := by
    rw [Numeral.magnitude?, gathered]
    rfl
  change Numeral.value? ⟨decide (n < 0), Nat.toDigits 10 n.natAbs, none, none⟩ = _
  rw [Numeral.value?, magnitude, Binary64.round_intCast, Option.map_some]
  simp only [decide_eq_true_eq]

theorem Integer.number {x : Binary64} {text : Bytes} (integer : Integer x text) :
    Number x text := by
  obtain ⟨n, small, rfl, rfl⟩ := integer
  have fits : n.natAbs < Numeral.wordLimit := Nat.lt_of_le_of_lt small (by decide)
  exact ⟨integerText n, (bytes_integerText n).symm, value?_integerText fits⟩

/-! ### Texts of floats -/

namespace NumberText

variable {ds cs : List Char} {e : ℤ}

theorem exists_exponent (scaled : Scientific.ExponentDigits e.natAbs ds) :
    ∃ exponent : Exponent, exponent.chars = 'e' :: (if e < 0 then '-' else '+') :: ds := by
  refine ⟨⟨'e', .inl rfl, if e < 0 then .minus else .plus, ds, scaled.digits, scaled.ne_nil⟩, ?_⟩
  rw [Exponent.chars]
  split <;> rfl

theorem exists_body_of_exponentForm (negative : Bool) (digits : ds.all isDigit = true)
    (form : ExponentForm ds e cs) : ∃ n : NumberText, n.negative = negative ∧ n.body = cs := by
  have leading (d : Char) (zero : [d].head? = some '0') : [d] = ['0'] :=
    congrArg List.singleton (Option.some.inj zero)
  cases form with
  | @one d _ _ scaled =>
    obtain ⟨exponent, chars⟩ := exists_exponent scaled
    refine ⟨⟨negative, ⟨[d], digits, List.cons_ne_nil _ _⟩, leading d, none, some exponent⟩, rfl,
      ?_⟩
    simp [body, chars]
  | @more d d' ds _ _ scaled =>
    rw [List.all_cons, Bool.and_eq_true] at digits
    obtain ⟨exponent, chars⟩ := exists_exponent scaled
    refine ⟨⟨negative, ⟨[d], by simp [digits.1], List.cons_ne_nil _ _⟩, leading d,
      some ⟨d' :: ds, digits.2, List.cons_ne_nil _ _⟩, some exponent⟩, rfl, ?_⟩
    simp [body, chars]

theorem exists_body_of_plainForm (negative : Bool) (form : PlainForm cs) :
    ∃ n : NumberText, n.negative = negative ∧ n.body = cs := by
  cases form with
  | whole digits =>
    refine ⟨⟨negative, ⟨_, digits.digits, digits.nonempty⟩, digits.leading, none, none⟩, rfl, ?_⟩
    simp [body]
  | point digits rest =>
    refine ⟨⟨negative, ⟨_, digits.digits, digits.nonempty⟩, digits.leading,
      some ⟨_, rest.digits, rest.nonempty⟩, none⟩, rfl, ?_⟩
    simp [body]

theorem exists_chars_format (negative : Bool) {m : Magnitude} (finite : m ≠ .infinity) :
    ∃ n : NumberText, String.ofList n.chars = (Binary64.signed negative m).format := by
  rw [Binary64.format, if_neg finite]
  by_cases zero : m = .zero
  · refine ⟨⟨negative, ⟨['0'], rfl, List.cons_ne_nil _ _⟩, fun _ => rfl, none, none⟩, ?_⟩
    rw [if_pos zero]
    rfl
  · have body : ∃ n : NumberText, n.negative = negative ∧
        n.body = (Binary64.shortest m).format := by
      cases large : Scientific.needsExponent (Binary64.shortest m).exponent with
      | true =>
        exact exists_body_of_exponentForm negative (Scientific.all_isDigit_digits _)
          (Scientific.exponentForm large)
      | false =>
        have last := Binary64.last_shortest zero finite
        exact exists_body_of_plainForm negative
          (Scientific.plainForm (Binary64.shortest_spec zero).1 last large)
    obtain ⟨n, rfl, body⟩ := body
    refine ⟨n, ?_⟩
    rw [if_neg zero, chars, body]

end NumberText

end Json

end Conduit
