import Conduit.Text.Utf8
import Mathlib.Data.String.Basic
import Mathlib.Tactic.SplitIfs

/-!
The bytes of a text give the text back, and they are in the order of the text: of two texts the one
that comes first has the bytes that come first.
-/

namespace Conduit.Utf8

open String (utf8EncodeChar)

theorem encode_eq (s : String) : encode s = s.toList.flatMap utf8EncodeChar := by
  conv => lhs; rw [← String.ofList_toList (s := s)]
  rw [encode, String.toUTF8_eq_toByteArray, String.toByteArray_ofList, List.utf8Encode]
  simp

theorem encode_append (s t : String) : encode (s ++ t) = encode s ++ encode t := by
  simp [encode_eq]

theorem utf8EncodeChar_cases (c : Char) :
    (c.toNat < 0x80 ∧ ∃ a, utf8EncodeChar c = [a] ∧ a.toNat = c.toNat) ∨
    (0x80 ≤ c.toNat ∧ c.toNat < 0x800 ∧ ∃ a b, utf8EncodeChar c = [a, b] ∧
      a.toNat = c.toNat / 64 + 0xc0 ∧ b.toNat = c.toNat % 64 + 0x80) ∨
    (0x800 ≤ c.toNat ∧ c.toNat < 0x10000 ∧ ∃ a b d, utf8EncodeChar c = [a, b, d] ∧
      a.toNat = c.toNat / 4096 + 0xe0 ∧ b.toNat = c.toNat / 64 % 64 + 0x80 ∧
      d.toNat = c.toNat % 64 + 0x80) ∨
    (0x10000 ≤ c.toNat ∧ c.toNat < 0x110000 ∧ ∃ a b d e, utf8EncodeChar c = [a, b, d, e] ∧
      a.toNat = c.toNat / 262144 + 0xf0 ∧ b.toNat = c.toNat / 4096 % 64 + 0x80 ∧
      d.toNat = c.toNat / 64 % 64 + 0x80 ∧ e.toNat = c.toNat % 64 + 0x80) := by
  have valid : c.toNat < 0x110000 := by
    rcases c.valid with small | ⟨-, small⟩
    · exact Nat.lt_trans small (by decide)
    · exact small
  rw [utf8EncodeChar]
  change c.val.toNat < _ at valid
  simp only [Char.toNat]
  generalize c.val.toNat = n at valid
  split
  · left
    exact ⟨by omega, _, rfl, by simp; omega⟩
  · split
    · right; left
      exact ⟨by omega, by omega, _, _, rfl, by simp; omega, by simp; omega⟩
    · split
      · right; right; left
        exact ⟨by omega, by omega, _, _, _, rfl, by simp; omega, by simp; omega, by simp; omega⟩
      · right; right; right
        exact ⟨by omega, by omega, _, _, _, _, rfl, by simp; omega, by simp; omega, by simp; omega,
          by simp; omega⟩

/-! ### Order -/

def Before (s t : String) : Prop := List.Lex (· < ·) (encode s) (encode t)

theorem encodeChar_append_lex {c d : Char} (less : c < d) (x y : List UInt8) :
    List.Lex (· < ·) (utf8EncodeChar c ++ x) (utf8EncodeChar d ++ y) := by
  have less : c.toNat < d.toNat := less
  rcases utf8EncodeChar_cases c with ⟨hc, a, h, va⟩ | ⟨hc, hc', a, b, h, va, vb⟩ |
      ⟨hc, hc', a, b, e, h, va, vb, ve⟩ | ⟨hc, hc', a, b, e, f, h, va, vb, ve, vf⟩ <;>
    rcases utf8EncodeChar_cases d with ⟨hd, a', h', va'⟩ | ⟨hd, hd', a', b', h', va', vb'⟩ |
      ⟨hd, hd', a', b', e', h', va', vb', ve'⟩ |
      ⟨hd, hd', a', b', e', f', h', va', vb', ve', vf'⟩ <;>
    simp only [h, h', List.cons_append, List.nil_append, List.cons_lex_cons_iff,
      UInt8.lt_iff_toNat_lt, ← UInt8.toNat_inj] <;>
    omega

theorem flatMap_encodeChar_lex {cs ds : List Char} (less : List.Lex (· < ·) cs ds) :
    List.Lex (· < ·) (cs.flatMap utf8EncodeChar) (ds.flatMap utf8EncodeChar) := by
  induction less with
  | @nil d ds =>
    obtain ⟨a, as, h⟩ := List.exists_cons_of_ne_nil (String.utf8EncodeChar_ne_nil (c := d))
    rw [List.flatMap_nil, List.flatMap_cons, h]
    exact .nil
  | @cons c cs ds _ ih => exact List.Lex.append_left _ ih (utf8EncodeChar c)
  | rel first => exact encodeChar_append_lex first _ _

theorem before_of_lt {s t : String} (less : s < t) : Before s t := by
  rw [Before, encode_eq, encode_eq]
  exact flatMap_encodeChar_lex less

theorem before_iff {s t : String} : Before s t ↔ s < t := by
  refine ⟨fun before => ?_, before_of_lt⟩
  rcases lt_trichotomy s t with less | rfl | greater
  · exact less
  · exact absurd before (List.lex_irrefl Std.Irrefl.irrefl _)
  · exact absurd (before_of_lt greater) (List.lex_asymm (fun h => Std.Asymm.asymm _ _ h) before)

/-! ### Reading the bytes of a text -/

theorem takeTail_cons {code n low high : Nat} {b : UInt8} (hl : low ≤ b.toNat)
    (hh : b.toNat ≤ high) (rest : List UInt8) : takeTail code (n + 1) (low, high) (b :: rest) =
      takeTail (code * 0x40 + (b.toNat - 0x80)) n (0x80, 0xbf) rest := by
  rw [takeTail, if_pos ⟨hl, hh⟩]

theorem leadBits_one (lead : Nat) : leadBits lead 1 = lead - 0xc0 := rfl

theorem leadBits_two (lead : Nat) : leadBits lead 2 = lead - 0xe0 := rfl

theorem leadBits_three (lead : Nat) : leadBits lead 3 = lead - 0xf0 := rfl

theorem takeTail_zero (code : Nat) (bounds : Nat × Nat) (bytes : List UInt8) :
    takeTail code 0 bounds bytes = (some code, bytes) := by
  cases bytes <;> rfl

theorem takeUnit_of_tail {lead : UInt8} {n : Nat} {c : Char} {bytes rest : List UInt8}
    (length : tailLength? lead.toNat = some n)
    (tail : takeTail (leadBits lead.toNat n) n (secondBounds lead.toNat) bytes =
      (some c.toNat, rest)) : takeUnit lead bytes = (some c, rest) := by
  rw [takeUnit, length]
  simp only [tail, Option.map_some, Char.ofNat_toNat]

theorem exists_takeUnit (c : Char) : ∃ lead tail, utf8EncodeChar c = lead :: tail ∧
    ∀ rest, takeUnit lead (tail ++ rest) = (some c, rest) := by
  have valid : c.toNat < 0xd800 ∨ 0xdfff < c.toNat := c.valid.imp id And.left
  rcases utf8EncodeChar_cases c with ⟨hc, a, h, ha⟩ | ⟨hc, hc', a, b, h, ha, hb⟩ |
    ⟨hc, hc', a, b, d, h, ha, hb, hd⟩ | ⟨hc, hc', a, b, d, e, h, ha, hb, hd, he⟩
  · refine ⟨a, [], h, fun rest => ?_⟩
    have length : tailLength? a.toNat = some 0 := by
      rw [tailLength?, if_pos (by omega)]
    have code : leadBits a.toNat 0 = c.toNat := ha
    refine takeUnit_of_tail length ?_
    rw [takeTail_zero, code]
    rfl
  · refine ⟨a, [b], h, fun rest => ?_⟩
    have length : tailLength? a.toNat = some 1 := by
      rw [tailLength?, if_neg (by omega), if_pos (by omega)]
    have bounds : (secondBounds a.toNat).1 ≤ b.toNat ∧ b.toNat ≤ (secondBounds a.toNat).2 := by
      simp only [secondBounds]
      split_ifs <;> simp only <;> omega
    have code : (a.toNat - 0xc0) * 0x40 + (b.toNat - 0x80) = c.toNat := by omega
    refine takeUnit_of_tail length ?_
    rw [List.cons_append, takeTail_cons bounds.1 bounds.2, takeTail_zero, leadBits_one, code]
    rfl
  · refine ⟨a, [b, d], h, fun rest => ?_⟩
    have length : tailLength? a.toNat = some 2 := by
      rw [tailLength?, if_neg (by omega), if_neg (by omega), if_pos (by omega)]
    have bounds : (secondBounds a.toNat).1 ≤ b.toNat ∧ b.toNat ≤ (secondBounds a.toNat).2 := by
      simp only [secondBounds]
      split_ifs <;> simp only <;> omega
    have code : ((a.toNat - 0xe0) * 0x40 + (b.toNat - 0x80)) * 0x40 + (d.toNat - 0x80) =
        c.toNat := by omega
    refine takeUnit_of_tail length ?_
    rw [List.cons_append, takeTail_cons bounds.1 bounds.2, List.cons_append,
      takeTail_cons (by omega) (by omega), takeTail_zero, leadBits_two, code]
    rfl
  · refine ⟨a, [b, d, e], h, fun rest => ?_⟩
    have length : tailLength? a.toNat = some 3 := by
      rw [tailLength?, if_neg (by omega), if_neg (by omega), if_neg (by omega), if_pos (by omega)]
    have bounds : (secondBounds a.toNat).1 ≤ b.toNat ∧ b.toNat ≤ (secondBounds a.toNat).2 := by
      simp only [secondBounds]
      split_ifs <;> simp only <;> omega
    have code : (((a.toNat - 0xf0) * 0x40 + (b.toNat - 0x80)) * 0x40 + (d.toNat - 0x80)) * 0x40 +
        (e.toNat - 0x80) = c.toNat := by omega
    refine takeUnit_of_tail length ?_
    rw [List.cons_append, takeTail_cons bounds.1 bounds.2, List.cons_append,
      takeTail_cons (by omega) (by omega), List.cons_append, takeTail_cons (by omega) (by omega),
      takeTail_zero, leadBits_three, code]
    rfl

theorem units_encodeChar_append (c : Char) (rest : List UInt8) :
    units (utf8EncodeChar c ++ rest) = some c :: units rest := by
  obtain ⟨lead, tail, bytes, unit⟩ := exists_takeUnit c
  rw [bytes, List.cons_append, units, unit]

theorem units_flatMap (cs : List Char) : units (cs.flatMap utf8EncodeChar) = cs.map some := by
  induction cs with
  | nil => rw [List.flatMap_nil, units]; rfl
  | cons c cs ih => rw [List.flatMap_cons, units_encodeChar_append, ih, List.map_cons]

theorem decodeLossy_encode (s : String) : decodeLossy (encode s) = s := by
  rw [decodeLossy, encode_eq, units_flatMap, List.map_map]
  exact (congrArg String.ofList (List.map_id s.toList)).trans String.ofList_toList

end Conduit.Utf8
