import Mathlib.Data.Bool.AllAny
import Conduit.Proofs.Json.Strings
import Conduit.Proofs.Number.Digits

/-!
Numerals: every numeral is read as the float that its parts come to, and what is read as a number
was a numeral.
-/

namespace Conduit.Json.Decoder

variable {c c' : Cursor} {rest : Bytes} {ds : List Char}

/-! ### Digits -/

theorem isDigit_iff {a : Char} : isDigit a = true ↔ 0x30 ≤ a.toNat ∧ a.toNat ≤ 0x39 := by
  simp only [isDigit, Bool.and_eq_true, decide_eq_true_eq]
  rfl

theorem isDigitByte_iff {b : UInt8} : isDigitByte b = true ↔ 0x30 ≤ b.toNat ∧ b.toNat ≤ 0x39 := by
  simp only [isDigitByte, Bool.and_eq_true, decide_eq_true_eq, UInt8.le_iff_toNat_le]
  rfl

theorem small_of_digit {a : Char} (digit : isDigit a = true) : a.toNat < 0x100 := by
  rw [isDigit_iff] at digit
  omega

theorem isDigitByte_byte {a : Char} (digit : isDigit a = true) : isDigitByte (byte a) = true := by
  rw [isDigitByte_iff, toNat_byte (small_of_digit digit)]
  exact isDigit_iff.1 digit

theorem isDigit_ofNat {b : UInt8} (digit : isDigitByte b = true) :
    isDigit (Char.ofNat b.toNat) = true := by
  rw [isDigitByte_iff] at digit
  rw [isDigit_iff, Utf8.toNat_ofNat_of_valid (by omega)]
  exact digit

theorem exists_digits (all : ds.all isDigit = true)
    (stops : ∀ b ∈ rest.head?, isDigitByte b = false) (holds : c.Holds (ds.map byte ++ rest)) :
    ∃ c', digits c = .ok ds c' ∧ c'.Sees rest := by
  have all := List.all_eq_true.1 all
  have bytes : ∀ b ∈ ds.map byte, isDigitByte b = true := by
    intro b mem
    obtain ⟨a, ha, rfl⟩ := List.mem_map.1 mem
    exact isDigitByte_byte (all a ha)
  have chars : (ds.map byte).map (fun b => Char.ofNat b.toNat) = ds := by
    rw [List.map_map]
    refine (List.map_congr_left fun a ha => ?_).trans (List.map_id ds)
    exact ofNat_toNat_byte (small_of_digit (all a ha))
  obtain ⟨c₁, run, sees⟩ := exists_takeWhile_front holds bytes stops
  refine exists_bind_ok run ?_
  rw [chars]
  exact exists_pure_ok sees

theorem of_digits (found : digits c = .ok ds c') :
    c.ahead = ds.map byte ++ c'.ahead ∧ ds.all isDigit = true := by
  obtain ⟨bytes, c₁, run, found⟩ := exists_of_bind_ok found
  obtain ⟨rfl, rfl⟩ := of_pure found
  obtain ⟨ahead, all⟩ := of_takeWhile run
  constructor
  · rw [ahead, List.map_map]
    simp [Function.comp_def, byte_ofNat]
  · rw [List.all_map, List.all_eq_true]
    exact fun b mem => isDigit_ofNat (all b mem)

/-! ### The whole part and the fraction -/

theorem exists_wholePart {whole : Digits}
    (noLeadingZero : whole.chars.head? = some '0' → whole.chars = ['0'])
    (stops : ∀ b ∈ rest.head?, isDigitByte b = false)
    (holds : c.Holds (whole.chars.map byte ++ rest)) :
    ∃ c', wholePart c = .ok whole.chars c' ∧ c'.Holds rest := by
  obtain ⟨chars, all, nonempty⟩ := whole
  dsimp only at noLeadingZero holds ⊢
  obtain ⟨a, ds, rfl⟩ := List.exists_cons_of_ne_nil nonempty
  rw [List.all_cons, Bool.and_eq_true] at all
  obtain ⟨c₁, next, left⟩ := exists_nextOr holds .endInValue
  rw [wholePart_eq]
  refine exists_bind_ok next ?_
  have small := small_of_digit all.1
  by_cases zero : a = '0'
  · obtain rfl := zero
    obtain rfl : ds = [] := (List.cons.inj (noLeadingZero rfl)).2
    obtain ⟨c₂, look, sees⟩ := exists_peek left
    rw [wholeFrom, if_pos rfl]
    cases rest with
    | nil => exact exists_bind_ok look (exists_pure_ok sees.holds)
    | cons b rest =>
      have look : peek c₁ = .ok (some b) c₂ := look
      refine exists_bind_ok look ?_
      dsimp only
      rw [if_neg (Bool.eq_false_iff.1 (stops b rfl))]
      exact exists_pure_ok sees.holds
  · have other : byte a ≠ byte '0' := fun same => zero (by
      rw [← ofNat_toNat_byte small, same]
      rfl)
    obtain ⟨c₂, found, sees⟩ := exists_digits all.2 stops left
    rw [wholeFrom, if_neg other, if_pos (isDigitByte_byte all.1)]
    refine exists_bind_ok found ?_
    rw [ofNat_toNat_byte small]
    exact exists_pure_ok sees.holds

theorem of_wholePart (found : wholePart c = .ok ds c') : ∃ whole : Digits, whole.chars = ds ∧
    (ds.head? = some '0' → ds = ['0']) ∧ c.ahead = ds.map byte ++ c'.ahead := by
  rw [wholePart_eq] at found
  obtain ⟨b, c₁, next, found⟩ := exists_of_bind_ok found
  have ahead := of_nextOr next
  rw [wholeFrom] at found
  by_cases zero : b = byte '0'
  · have kept : c.ahead = ['0'].map byte ++ c₁.ahead := by
      rw [ahead, zero]
      rfl
    rw [if_pos zero] at found
    obtain ⟨x, c₂, look, found⟩ := exists_of_bind_ok found
    rw [← (of_peek look).2.1] at kept
    cases x with
    | none =>
      obtain ⟨rfl, rfl⟩ := of_pure found
      exact ⟨⟨['0'], rfl, List.cons_ne_nil _ _⟩, rfl, fun _ => rfl, kept⟩
    | some x =>
      dsimp only at found
      split at found
      · cases found
      · obtain ⟨rfl, rfl⟩ := of_pure found
        exact ⟨⟨['0'], rfl, List.cons_ne_nil _ _⟩, rfl, fun _ => rfl, kept⟩
  · rw [if_neg zero] at found
    by_cases digit : isDigitByte b = true
    · rw [if_pos digit] at found
      obtain ⟨ds, c₂, run, found⟩ := exists_of_bind_ok found
      obtain ⟨rfl, rfl⟩ := of_pure found
      obtain ⟨ahead', all⟩ := of_digits run
      have first := isDigit_ofNat digit
      refine ⟨⟨_, List.all_cons.trans (by rw [first, all]; rfl), List.cons_ne_nil _ _⟩, rfl,
        fun head => ?_, ?_⟩
      · exact absurd (byte_of_ofNat (Option.some.inj head)) zero
      · rw [ahead, ahead', List.map_cons, byte_ofNat]
        rfl
    · rw [if_neg digit] at found
      cases found

theorem exists_fractionPart {fraction : Option Digits}
    (stops : ∀ b ∈ rest.head?, isDigitByte b = false ∧ b ≠ byte '.')
    (holds : c.Holds ((fraction.elim [] fun ds => '.' :: ds.chars).map byte ++ rest)) :
    ∃ c', fractionPart c = .ok (fraction.map (·.chars)) c' ∧ c'.Holds rest := by
  cases fraction with
  | none =>
    obtain ⟨c₁, look, sees⟩ := exists_peek holds
    have other : rest.head? ≠ some (byte '.') := fun point => (stops _ point).2 rfl
    refine exists_bind_ok look ?_
    exact if_pos other ▸ exists_pure_ok sees.holds
  | some ds =>
    obtain ⟨c₁, look, sees⟩ := exists_peek holds
    obtain ⟨c₂, past, holds⟩ := exists_discard sees
    obtain ⟨c₃, found, sees⟩ := exists_digits ds.digits (fun b hb => (stops b hb).1) holds
    refine exists_bind_ok look ?_
    refine exists_bind_ok past (exists_bind_ok found ?_)
    rw [if_neg (by simpa using ds.nonempty)]
    exact exists_pure_ok sees.holds

theorem of_fractionPart {x : Option (List Char)} (found : fractionPart c = .ok x c') :
    ∃ fraction : Option Digits, fraction.map (·.chars) = x ∧
      c.ahead = (fraction.elim [] fun ds => '.' :: ds.chars).map byte ++ c'.ahead := by
  obtain ⟨b, c₁, look, found⟩ := exists_of_bind_ok found
  obtain ⟨-, kept, peeked⟩ := of_peek look
  by_cases point : b = some (byte '.')
  · rw [if_neg (not_not_intro point)] at found
    obtain ⟨_, c₂, past, found⟩ := exists_of_bind_ok found
    obtain ⟨ds, c₃, run, found⟩ := exists_of_bind_ok found
    obtain ⟨ahead, all⟩ := of_digits run
    have before := of_discard past (peeked.trans point)
    cases ds with
    | nil =>
      obtain ⟨_, _, -, found⟩ := exists_of_bind_ok found
      cases found
    | cons a ds =>
      obtain ⟨rfl, rfl⟩ := of_pure found
      refine ⟨some ⟨a :: ds, all, nofun⟩, rfl, ?_⟩
      rw [← kept, before, ahead]
      rfl
  · rw [if_pos point] at found
    obtain ⟨rfl, rfl⟩ := of_pure found
    exact ⟨none, rfl, kept.symm⟩

/-! ### The exponent -/

def extended (e : Nat) (ds : List Char) : Nat := ds.foldl (fun n a => 10 * n + digitValue a) e

theorem extended_append (e : Nat) (ds ds' : List Char) :
    extended e (ds ++ ds') = extended (extended e ds) ds' := List.foldl_append

theorem le_extended (e : Nat) (ds : List Char) : e ≤ extended e ds := by
  induction ds generalizing e with
  | nil => exact Nat.le_refl e
  | cons a ds ih =>
    have := ih (10 * e + digitValue a)
    rw [extended, List.foldl_cons, ← extended]
    omega

theorem exponentDigits_of_stop {n e : Nat} {x : Option UInt8} (look : peek c = .ok x c')
    (stops : ∀ b ∈ x, isDigitByte b = false) : exponentDigits (n + 1) e c = .ok (some e) c' := by
  rw [exponentDigits, bind_of_ok look]
  cases x with
  | none => rfl
  | some b =>
    dsimp only
    rw [if_neg (Bool.eq_false_iff.1 (stops b rfl))]
    rfl

theorem exponentDigits_of_digit {n e : Nat} {b : UInt8} {c₁ : Cursor}
    (look : peek c = .ok (some b) c₁) (past : discard c₁ = .ok () c')
    (digit : isDigitByte b = true) : exponentDigits (n + 1) e c =
      if extended e [Char.ofNat b.toNat] < exponentLimit then
        exponentDigits n (extended e [Char.ofNat b.toNat]) c'
      else .ok none c' := by
  have step : e * 10 + digitValue (Char.ofNat b.toNat) = extended e [Char.ofNat b.toNat] := by
    rw [Nat.mul_comm]
    rfl
  rw [exponentDigits, bind_of_ok look]
  dsimp only
  rw [if_pos digit, bind_of_ok past, step]
  split
  · rfl
  · rfl

theorem exists_exponentDigits {n e : Nat} (all : ds.all isDigit = true)
    (stops : ∀ b ∈ rest.head?, isDigitByte b = false) (turns : ds.length < n)
    (holds : c.Holds (ds.map byte ++ rest)) :
    (extended e ds < exponentLimit → ∃ c',
      exponentDigits n e c = .ok (some (extended e ds)) c' ∧ c'.Holds rest) ∧
    (e < exponentLimit → exponentLimit ≤ extended e ds → ∃ c', ∃ ds' : List Char,
      exponentDigits n e c = .ok none c' ∧ ds'.all isDigit = true ∧
        c'.Holds (ds'.map byte ++ rest)) := by
  induction n generalizing ds e c with
  | zero => exact absurd turns (Nat.not_lt_zero _)
  | succ n ih =>
    obtain ⟨c₁, look, sees⟩ := exists_peek holds
    cases ds with
    | nil =>
      refine ⟨fun _ => ⟨c₁, exponentDigits_of_stop look stops, sees.holds⟩, fun small large => ?_⟩
      exact absurd large (Nat.not_le.2 small)
    | cons a ds =>
      rw [List.all_cons, Bool.and_eq_true] at all
      obtain ⟨c₂, past, left⟩ := exists_discard sees
      have step : exponentDigits (n + 1) e c = _ :=
        exponentDigits_of_digit look past (isDigitByte_byte all.1)
      rw [ofNat_toNat_byte (small_of_digit all.1)] at step
      have value : extended e (a :: ds) = extended (extended e [a]) ds := rfl
      have more := le_extended (extended e [a]) ds
      obtain ⟨below, beyond⟩ := @ih c₂ ds (extended e [a]) all.2
        (by rw [List.length_cons] at turns; omega) left
      rw [step, value]
      split
      · next small => exact ⟨below, fun _ => beyond small⟩
      · next large =>
        refine ⟨fun small => absurd (Nat.lt_of_le_of_lt more small) large, fun _ _ => ?_⟩
        exact ⟨c₂, ds, rfl, all.2, left⟩

def sized (size : Nat) : Option Nat := if size < exponentLimit then some size else none

theorem of_exponentDigits {n e : Nat} {x : Option Nat} (small : e < exponentLimit)
    (found : exponentDigits n e c = .ok x c') : ∃ ds, ds.all isDigit = true ∧
      c.ahead = ds.map byte ++ c'.ahead ∧ x = sized (extended e ds) := by
  induction n generalizing e c with
  | zero =>
    obtain ⟨rfl, rfl⟩ := of_pure found
    exact ⟨[], rfl, rfl, (if_pos small).symm⟩
  | succ n ih =>
    obtain ⟨b, c₁, look, -⟩ := exists_of_bind_ok found
    obtain ⟨-, kept, peeked⟩ := of_peek look
    by_cases digit : ∃ b', b = some b' ∧ isDigitByte b' = true
    · obtain ⟨b, rfl, digit⟩ := digit
      obtain ⟨c₂, past⟩ : ∃ c₂, discard c₁ = .ok () c₂ := ⟨_, rfl⟩
      have before := of_discard past peeked
      have first := isDigit_ofNat digit
      have ahead (ds : List Char) (left : c₂.ahead = ds.map byte ++ c'.ahead) :
          c.ahead = (Char.ofNat b.toNat :: ds).map byte ++ c'.ahead := by
        rw [← kept, before, left, List.map_cons, byte_ofNat]
        rfl
      rw [exponentDigits_of_digit look past digit] at found
      split at found
      · next fits =>
        obtain ⟨ds, all, left, same⟩ := ih fits found
        refine ⟨Char.ofNat b.toNat :: ds, ?_, ahead ds left, same⟩
        rw [List.all_cons, first, all]
        rfl
      · next large =>
        -- the loop ends with the digit that is too much; more digits may follow
        cases found
        refine ⟨[Char.ofNat b.toNat], ?_, ahead [] rfl, (if_neg large).symm⟩
        rw [List.all_cons, first]
        rfl
    · have stops : ∀ b' ∈ b, isDigitByte b' = false := fun b' hb =>
        Bool.eq_false_iff.2 fun isDigit => digit ⟨b', hb, isDigit⟩
      rw [exponentDigits_of_stop look stops] at found
      cases found
      exact ⟨[], rfl, kept.symm, (if_pos small).symm⟩

theorem digitsValue_eq_extended (a : Char) (ds : List Char) :
    digitsValue (a :: ds) = extended (digitValue a) ds := by
  rw [digitsValue, List.foldl_cons, extended, Nat.mul_zero, Nat.zero_add]

theorem digitValue_lt_limit {a : Char} (digit : isDigit a = true) :
    digitValue a < exponentLimit := Nat.lt_trans (digitValue_lt digit) (by decide)

def exponentWith (allZero : Bool) (negative : Prop) [Decidable negative] :
    Option Nat → Decoder (Option Int)
  | some e => pure (some (if negative then -(e : Int) else e))
  | none =>
    if !allZero ∧ !negative then fail .numberOutOfRange
    else digits >>= fun _ => pure (some (-exponentLimit))

theorem unsignedExponent_eq (allZero : Bool) (negative : Prop) [Decidable negative] :
    unsignedExponent allZero negative = nextOr .endInValue >>= fun first =>
      if !isDigitByte first then fail .invalidNumber
      else (fun c => exponentDigits (c.rest.length + 2) (digitValue (Char.ofNat first.toNat)) c) >>=
        exponentWith allZero negative := rfl

theorem exists_unsignedExponent {allZero : Bool} {negative : Prop} [Decidable negative]
    {size : Digits} {v : Int}
    (value : exponentOf? allZero negative (digitsValue size.chars) = some v)
    (stops : ∀ b ∈ rest.head?, isDigitByte b = false)
    (holds : c.Holds (size.chars.map byte ++ rest)) :
    ∃ c', unsignedExponent allZero negative c = .ok (some v) c' ∧ c'.Holds rest := by
  obtain ⟨chars, all, nonempty⟩ := size
  dsimp only at value holds
  obtain ⟨a, ds, rfl⟩ := List.exists_cons_of_ne_nil nonempty
  rw [List.all_cons, Bool.and_eq_true] at all
  obtain ⟨c₁, next, left⟩ : ∃ c₁, nextOr .endInValue c = .ok (byte a) c₁ ∧
      c₁.Holds (ds.map byte ++ rest) := exists_nextOr holds .endInValue
  have digit := isDigitByte_byte all.1
  have turns : ds.length < c₁.rest.length + 2 := by
    have bound := length_ahead_le c₁
    rw [left.ahead, List.length_append, List.length_map] at bound
    omega
  -- The digits are read up to where the exponent would be too large; what is left is only skipped.
  obtain ⟨below, beyond⟩ :=
    @exists_exponentDigits c₁ rest ds _ (digitValue a) all.2 stops turns left
  rw [unsignedExponent_eq]
  refine exists_bind_ok next ?_
  rw [digit, ofNat_toNat_byte (small_of_digit all.1)]
  rw [digitsValue_eq_extended, exponentOf?] at value
  split at value
  · next small =>
    obtain ⟨c₂, found, left⟩ := below small
    obtain rfl := Option.some.inj value
    refine exists_bind_ok found ?_
    simp only [exponentWith, decide_eq_true_eq]
    exact exists_pure_ok left
  · next large =>
    obtain ⟨c₂, ds', found, all', left⟩ :=
      beyond (digitValue_lt_limit all.1) (Nat.not_lt.1 large)
    obtain ⟨c₃, skipped, sees⟩ := exists_digits all' stops left
    refine exists_bind_ok found ?_
    split at value
    · next either =>
      have within : ¬ (!allZero ∧ !decide negative) := by
        cases allZero <;> simp_all
      obtain rfl := Option.some.inj value
      rw [exponentWith, if_neg within]
      exact exists_bind_ok skipped (exists_pure_ok sees.holds)
    · cases value

theorem of_exponentWith {allZero : Bool} {negative : Prop} [Decidable negative] {e : Nat}
    {x : Option Int} (found : exponentWith allZero negative (sized (extended e ds)) c = .ok x c') :
    ∃ (ds' : List Char) (v : Int), x = some v ∧ ds'.all isDigit = true ∧
      c.ahead = ds'.map byte ++ c'.ahead ∧
      exponentOf? allZero negative (extended e (ds ++ ds')) = some v := by
  by_cases small : extended e ds < exponentLimit
  · rw [sized, if_pos small] at found
    obtain ⟨rfl, rfl⟩ := of_pure found
    refine ⟨[], _, rfl, rfl, rfl, ?_⟩
    rw [List.append_nil, exponentOf?, if_pos small]
    simp only [decide_eq_true_eq]
  · rw [sized, if_neg small, exponentWith] at found
    split at found
    · cases found
    · next within =>
      obtain ⟨ds', c₁, run, found⟩ := exists_of_bind_ok found
      obtain ⟨rfl, rfl⟩ := of_pure found
      obtain ⟨ahead, all⟩ := of_digits run
      have large : ¬ extended e (ds ++ ds') < exponentLimit := by
        have more := le_extended (extended e ds) ds'
        rw [extended_append]
        omega
      refine ⟨ds', _, rfl, all, ahead, ?_⟩
      rw [exponentOf?, if_neg large, if_pos]
      cases allZero <;> simp_all

theorem of_unsignedExponent {allZero : Bool} {negative : Prop} [Decidable negative]
    {x : Option Int} (found : unsignedExponent allZero negative c = .ok x c') :
    ∃ (size : Digits) (v : Int), x = some v ∧ c.ahead = size.chars.map byte ++ c'.ahead ∧
      exponentOf? allZero negative (digitsValue size.chars) = some v := by
  rw [unsignedExponent_eq] at found
  obtain ⟨b, c₁, next, found⟩ := exists_of_bind_ok found
  have ahead := of_nextOr next
  by_cases digit : isDigitByte b = true
  · rw [digit] at found
    obtain ⟨e, c₂, loop, found⟩ := exists_of_bind_ok found
    have first := isDigit_ofNat digit
    obtain ⟨ds, all, left, rfl⟩ := of_exponentDigits (digitValue_lt_limit first) loop
    obtain ⟨ds', v, rfl, all', left', value⟩ := of_exponentWith found
    refine ⟨⟨Char.ofNat b.toNat :: (ds ++ ds'), ?_, nofun⟩, v, rfl, ?_, ?_⟩
    · rw [List.all_cons, List.all_append, first, all, all']
      rfl
    · rw [ahead, left, left', List.map_cons, List.map_append, byte_ofNat]
      simp
    · rwa [digitsValue_eq_extended]
  · rw [Bool.eq_false_iff.2 digit] at found
    cases found

theorem exists_exponentPart_none {allZero : Bool}
    (stops : ∀ b ∈ rest.head?, b ≠ byte 'e' ∧ b ≠ byte 'E') (holds : c.Holds rest) :
    ∃ c', exponentPart allZero c = .ok none c' ∧ c'.Holds rest := by
  obtain ⟨c₁, look, sees⟩ := exists_peek holds
  have other : rest.head? ≠ some (byte 'e') ∧ rest.head? ≠ some (byte 'E') :=
    ⟨fun letter => (stops _ letter).1 rfl, fun letter => (stops _ letter).2 rfl⟩
  rw [exponentPart_eq]
  refine exists_bind_ok look ?_
  rw [if_pos other]
  exact exists_pure_ok sees.holds

theorem exists_signedExponent {allZero : Bool} {sign : ExponentSign} {size : Digits} {v : Int}
    (value : exponentOf? allZero (sign = .minus) (digitsValue size.chars) = some v)
    (stops : ∀ b ∈ rest.head?, isDigitByte b = false)
    (holds : c.Holds ((sign.chars ++ size.chars).map byte ++ rest)) :
    ∃ c', signedExponent allZero c = .ok (some v) c' ∧ c'.Holds rest := by
  rw [signedExponent]
  cases sign with
  | none =>
    obtain ⟨a, ds, chars⟩ := List.exists_cons_of_ne_nil size.nonempty
    have digit : isDigit a = true := List.all_eq_true.1 size.digits a (chars ▸ List.mem_cons_self)
    have digit := isDigitByte_byte digit
    have other : ¬ (some (byte a) = some (byte '-') ∨ some (byte a) = some (byte '+')) := by
      rintro (same | same) <;> rw [Option.some.inj same] at digit <;> exact absurd digit (by decide)
    obtain ⟨c₁, look, sees⟩ := exists_peek holds
    have head : (((ExponentSign.none.chars ++ size.chars).map byte ++ rest).head? :
        Option UInt8) = some (byte a) := by
      rw [chars]
      rfl
    rw [head] at look
    refine exists_bind_ok look ?_
    rw [if_neg other]
    refine exists_unsignedExponent ?_ stops sees.holds
    have unsigned : some (byte a) = some (byte '-') ↔ ExponentSign.none = .minus :=
      iff_of_false (fun same => other (.inl same)) nofun
    rw [← value, decide_eq_decide.2 unsigned]
  | plus =>
    obtain ⟨c₁, look, sees⟩ := exists_peek holds
    obtain ⟨c₂, past, left⟩ := exists_discard sees
    exact exists_bind_ok look (exists_bind_ok past (exists_unsignedExponent value stops left))
  | minus =>
    obtain ⟨c₁, look, sees⟩ := exists_peek holds
    obtain ⟨c₂, past, left⟩ := exists_discard sees
    exact exists_bind_ok look (exists_bind_ok past (exists_unsignedExponent value stops left))

theorem of_signedExponent {allZero : Bool} {x : Option Int}
    (found : signedExponent allZero c = .ok x c') :
    ∃ (sign : ExponentSign) (size : Digits) (v : Int), x = some v ∧
      c.ahead = (sign.chars ++ size.chars).map byte ++ c'.ahead ∧
      exponentOf? allZero (sign = .minus) (digitsValue size.chars) = some v := by
  obtain ⟨b, c₁, look, found⟩ := exists_of_bind_ok found
  obtain ⟨-, kept, peeked⟩ := of_peek look
  have signed (sign : ExponentSign) (a : Char) (chars : sign.chars = [a])
      (here : (discard >>= fun _ => unsignedExponent allZero (b = some (byte '-'))) c₁ = .ok x c')
      (negative : b = some (byte '-') ↔ sign = .minus) (read : b = some (byte a)) :
      ∃ (sign : ExponentSign) (size : Digits) (v : Int),
        x = some v ∧ c.ahead = (sign.chars ++ size.chars).map byte ++ c'.ahead ∧
        exponentOf? allZero (sign = .minus) (digitsValue size.chars) = some v := by
    obtain ⟨_, c₂, past, here⟩ := exists_of_bind_ok here
    obtain ⟨size, v, rfl, ahead, value⟩ := of_unsignedExponent here
    refine ⟨sign, size, v, rfl, ?_, ?_⟩
    · rw [← kept, of_discard past (peeked.trans read), ahead, chars]
      rfl
    · rwa [← decide_eq_decide.2 negative]
  by_cases minus : b = some (byte '-')
  · rw [if_pos (.inl minus)] at found
    exact signed .minus '-' rfl found (by simp [minus]) minus
  · by_cases plus : b = some (byte '+')
    · rw [if_pos (.inr plus)] at found
      exact signed .plus '+' rfl found (by simp [minus]) plus
    · rw [if_neg (not_or.2 ⟨minus, plus⟩)] at found
      obtain ⟨size, v, rfl, ahead, value⟩ := of_unsignedExponent found
      refine ⟨.none, size, v, rfl, kept.symm.trans ahead, ?_⟩
      rwa [← decide_eq_decide.2 (iff_of_false minus nofun)]

theorem exists_exponentPart {allZero : Bool} {e : Exponent} {v : Int}
    (value : exponentOf? allZero (e.sign = .minus) (digitsValue e.digits.chars) = some v)
    (stops : ∀ b ∈ rest.head?, isDigitByte b = false) (holds : c.Holds (e.chars.map byte ++ rest)) :
    ∃ c', exponentPart allZero c = .ok (some v) c' ∧ c'.Holds rest := by
  obtain ⟨c₁, look, sees⟩ := exists_peek holds
  obtain ⟨c₂, past, left⟩ := exists_discard sees
  have letter : ¬ (some (byte e.letter) ≠ some (byte 'e') ∧
      some (byte e.letter) ≠ some (byte 'E')) := by
    rcases e.isLetter with same | same <;> simp [same]
  have look : peek c = .ok (some (byte e.letter)) c₁ := look
  rw [exponentPart_eq]
  refine exists_bind_ok look ?_
  rw [if_neg letter]
  exact exists_bind_ok past (exists_signedExponent value stops left)

theorem of_exponentPart {allZero : Bool} {x : Option Int}
    (found : exponentPart allZero c = .ok x c') :
    (x = none ∧ c.ahead = c'.ahead) ∨ ∃ (e : Exponent) (v : Int), x = some v ∧
      c.ahead = e.chars.map byte ++ c'.ahead ∧
      exponentOf? allZero (e.sign = .minus) (digitsValue e.digits.chars) = some v := by
  rw [exponentPart_eq] at found
  obtain ⟨b, c₁, look, found⟩ := exists_of_bind_ok found
  obtain ⟨-, kept, peeked⟩ := of_peek look
  split at found
  · obtain ⟨rfl, rfl⟩ := of_pure found
    exact .inl ⟨rfl, kept.symm⟩
  · next letter =>
    obtain ⟨a, isLetter, rfl⟩ : ∃ a, (a = 'e' ∨ a = 'E') ∧ b = some (byte a) := by
      by_cases small : b = some (byte 'e')
      · exact ⟨'e', .inl rfl, small⟩
      · exact ⟨'E', .inr rfl, not_not.1 fun other => letter ⟨small, other⟩⟩
    obtain ⟨_, c₂, past, found⟩ := exists_of_bind_ok found
    obtain ⟨sign, size, v, rfl, ahead, value⟩ := of_signedExponent found
    refine .inr ⟨⟨a, isLetter, sign, size⟩, v, rfl, ?_, value⟩
    rw [← kept, of_discard past peeked, ahead]
    rfl

/-! ### Numbers -/

def Ends (rest : Bytes) : Prop := ∀ b ∈ rest.head?, mayFollow b = true

def following : Bytes := [0x20, 0x0a, 0x09, 0x0d] ++ "\"[]\x7b\x7d,:".toList.map byte

theorem mayFollow_iff {b : UInt8} : mayFollow b = true ↔ b ∈ following := by
  simp [mayFollow, isBlank, following, or_assoc]

theorem Ends.stops (ends : Ends rest) : ∀ b ∈ rest.head?, isDigitByte b = false ∧ b ≠ byte '.' ∧
    b ≠ byte 'e' ∧ b ≠ byte 'E' := by
  have all : ∀ b ∈ following, isDigitByte b = false ∧ b ≠ byte '.' ∧ b ≠ byte 'e' ∧
      b ≠ byte 'E' := List.all_iff_forall_prop.1 (by decide)
  exact fun b hb => all b (mayFollow_iff.1 (ends b hb))

theorem ends_cons {b : UInt8} (follows : mayFollow b = true) (rest : Bytes) : Ends (b :: rest) := by
  rintro _ ⟨⟩
  exact follows

theorem stops_exponent (e : Option Exponent) (ends : Ends rest) :
    ∀ b ∈ ((e.elim [] (·.chars)).map byte ++ rest).head?, isDigitByte b = false ∧ b ≠ byte '.' := by
  cases e with
  | none => exact fun b hb => ⟨(ends.stops b hb).1, (ends.stops b hb).2.1⟩
  | some e =>
    rintro _ ⟨⟩
    rcases e.isLetter with same | same <;> rw [same] <;> decide

theorem stops_fraction (fraction : Option Digits) {more : Bytes}
    (stops : ∀ b ∈ more.head?, isDigitByte b = false) :
    ∀ b ∈ ((fraction.elim [] fun ds => '.' :: ds.chars).map byte ++ more).head?,
      isDigitByte b = false := by
  cases fraction with
  | none => exact stops
  | some ds =>
    rintro _ ⟨⟩
    decide

theorem exists_exponent {n : NumberText} {numeral : Numeral} (value : n.numeral? = some numeral)
    (ends : Ends rest) (holds : c.Holds ((n.exponent.elim [] (·.chars)).map byte ++ rest)) :
    numeral = ⟨n.negative, n.whole.chars, n.fractionDigits, numeral.exponent⟩ ∧
      ∃ c', exponentPart n.allZero c = .ok numeral.exponent c' ∧ c'.Holds rest := by
  obtain ⟨negative, whole, noLeadingZero, fraction, exponent⟩ := n
  cases exponent with
  | none =>
    obtain rfl := Option.some.inj value
    exact ⟨rfl, exists_exponentPart_none (fun b hb => (ends.stops b hb).2.2) holds⟩
  | some e =>
    obtain ⟨v, size, rfl⟩ := Option.map_eq_some_iff.1 value
    exact ⟨rfl, exists_exponentPart size (fun b hb => (ends.stops b hb).1) holds⟩

theorem exists_number {n : NumberText} {x : Binary64} (value : n.value? = some x)
    (ends : Ends rest) (holds : c.Holds (n.body.map byte ++ rest)) :
    ∃ c', number n.negative c = .ok (.number x) c' ∧ c'.Holds rest := by
  obtain ⟨numeral, parts, value⟩ := Option.bind_eq_some_iff.1 value
  rw [NumberText.body, List.map_append, List.map_append, List.append_assoc, List.append_assoc]
    at holds
  have stops := stops_exponent n.exponent ends
  obtain ⟨c₁, first, holds⟩ := exists_wholePart n.noLeadingZero
    (stops_fraction n.fraction fun b hb => (stops b hb).1) holds
  obtain ⟨c₂, second, holds⟩ := exists_fractionPart stops holds
  obtain ⟨same, c₃, third, holds⟩ := exists_exponent parts ends holds
  rw [number_eq]
  refine exists_bind_ok first (exists_bind_ok second (exists_bind_ok third ?_))
  have read : Numeral.value? ⟨n.negative, n.whole.chars, n.fraction.map (·.chars),
      numeral.exponent⟩ = some x := same ▸ value
  rw [read]
  exact exists_pure_ok holds

theorem of_number {negative : Bool} {j : Json} (found : number negative c = .ok j c') :
    ∃ (n : NumberText) (x : Binary64), n.negative = negative ∧ j = .number x ∧
      n.value? = some x ∧ c.ahead = n.body.map byte ++ c'.ahead := by
  rw [number_eq] at found
  obtain ⟨whole, c₁, first, found⟩ := exists_of_bind_ok found
  obtain ⟨fraction, c₂, second, found⟩ := exists_of_bind_ok found
  obtain ⟨exponent, c₃, third, found⟩ := exists_of_bind_ok found
  obtain ⟨whole, rfl, noLeadingZero, ahead⟩ := of_wholePart first
  obtain ⟨fraction, rfl, ahead'⟩ := of_fractionPart second
  let text (e : Option Exponent) : NumberText := ⟨negative, whole, noLeadingZero, fraction, e⟩
  obtain ⟨e, numeral, ahead''⟩ : ∃ e : Option Exponent, (text e).numeral? =
      some ⟨negative, whole.chars, fraction.map (·.chars), exponent⟩ ∧
      c₂.ahead = (e.elim [] (·.chars)).map byte ++ c₃.ahead := by
    rcases of_exponentPart third with ⟨rfl, kept⟩ | ⟨e, v, rfl, ahead'', value⟩
    · exact ⟨none, rfl, kept⟩
    · exact ⟨some e, Option.map_eq_some_iff.2 ⟨v, value, rfl⟩, ahead''⟩
  cases value : Numeral.value? ⟨negative, whole.chars, fraction.map (·.chars), exponent⟩ with
  | none =>
    rw [value] at found
    cases found
  | some x =>
    rw [value] at found
    obtain ⟨rfl, rfl⟩ := of_pure found
    refine ⟨text e, x, rfl, rfl, Option.bind_eq_some_iff.2 ⟨_, numeral, value⟩, ?_⟩
    rw [ahead, ahead', ahead'', NumberText.body, List.map_append, List.map_append]
    simp [text]

end Conduit.Json.Decoder
