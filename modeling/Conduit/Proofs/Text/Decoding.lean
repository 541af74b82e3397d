import Conduit.Proofs.Text.Utf8

/-!
Bytes are read as a text only if they are its bytes, and a text can be cut where a character of it
begins or ends and nowhere else.
-/

namespace Conduit.Utf8

open String (utf8EncodeChar)

/-! ### Units -/

def Continues (b : UInt8) : Prop := 0x80 ≤ b.toNat ∧ b.toNat ≤ 0xbf

theorem takeTail_succ_some {code n v : Nat} {bounds : Nat × Nat} {bytes rest : List UInt8}
    (tail : takeTail code (n + 1) bounds bytes = (some v, rest)) : ∃ b more, bytes = b :: more ∧
      bounds.1 ≤ b.toNat ∧ b.toNat ≤ bounds.2 ∧
      takeTail (code * 0x40 + (b.toNat - 0x80)) n (0x80, 0xbf) more = (some v, rest) := by
  obtain ⟨low, high⟩ := bounds
  cases bytes with
  | nil => cases tail
  | cons b more =>
    rw [takeTail] at tail
    split at tail
    · next within => exact ⟨b, more, rfl, within.1, within.2, tail⟩
    · cases tail

theorem takeTail_zero_some {code v : Nat} {bounds : Nat × Nat} {bytes rest : List UInt8}
    (tail : takeTail code 0 bounds bytes = (some v, rest)) : v = code ∧ bytes = rest := by
  rw [takeTail_zero] at tail
  cases tail
  exact ⟨rfl, rfl⟩

theorem toNat_ofNat_of_valid {n : Nat} (valid : n < 0xd800 ∨ 0xdfff < n ∧ n < 0x110000) :
    (Char.ofNat n).toNat = n := by
  rw [Char.ofNat, dif_pos valid]
  rfl

theorem secondBounds_eq (lead : Nat) : secondBounds lead =
    (if lead = 0xe0 then 0xa0 else if lead = 0xf0 then 0x90 else 0x80,
      if lead = 0xed then 0x9f else if lead = 0xf4 then 0x8f else 0xbf) := by
  rw [secondBounds]
  split_ifs <;> first | rfl | omega

theorem secondBounds_within (lead : Nat) :
    0x80 ≤ (secondBounds lead).1 ∧ (secondBounds lead).2 ≤ 0xbf := by
  rw [secondBounds_eq]
  constructor <;> dsimp only <;> split_ifs <;> omega

theorem tailLength?_some {lead n : Nat} (length : tailLength? lead = some n) :
    (n = 0 ∧ lead < 0x80) ∨ (n = 1 ∧ 0xc2 ≤ lead ∧ lead ≤ 0xdf) ∨
      (n = 2 ∧ 0xe0 ≤ lead ∧ lead ≤ 0xef) ∨ (n = 3 ∧ 0xf0 ≤ lead ∧ lead ≤ 0xf4) := by
  rw [tailLength?] at length
  split_ifs at length <;> cases length <;> omega

def Carry (bytes : List UInt8) (code : Nat) : Prop :=
  (code < 0x80 ∧ bytes.map UInt8.toNat = [code]) ∨
  (0x80 ≤ code ∧ code < 0x800 ∧
    bytes.map UInt8.toNat = [code / 64 + 0xc0, code % 64 + 0x80]) ∨
  (0x800 ≤ code ∧ code < 0x10000 ∧ bytes.map UInt8.toNat =
    [code / 4096 + 0xe0, code / 64 % 64 + 0x80, code % 64 + 0x80]) ∨
  (0x10000 ≤ code ∧ bytes.map UInt8.toNat = [code / 262144 + 0xf0, code / 4096 % 64 + 0x80,
    code / 64 % 64 + 0x80, code % 64 + 0x80])

theorem utf8EncodeChar_eq {c : Char} {bytes : List UInt8} {code : Nat} (value : c.toNat = code)
    (parts : Carry bytes code) : utf8EncodeChar c = bytes := by
  have inj : Function.Injective (List.map UInt8.toNat) :=
    List.map_injective_iff.2 fun _ _ => UInt8.toNat_inj.1
  refine inj ?_
  subst value
  rcases utf8EncodeChar_cases c with ⟨hc, a, h, va⟩ | ⟨hc, hc', a, b, h, va, vb⟩ |
      ⟨hc, hc', a, b, d, h, va, vb, vd⟩ | ⟨hc, hc', a, b, d, e, h, va, vb, vd, ve⟩ <;>
    rcases parts with ⟨low, eq⟩ | ⟨low, high, eq⟩ | ⟨low, high, eq⟩ | ⟨low, eq⟩ <;>
    first
      | omega
      | simp [*]

theorem append_of_carry {code : Nat} (valid : code < 0xd800 ∨ 0xdfff < code ∧ code < 0x110000)
    (unit rest : List UInt8) (parts : Carry unit code) :
    unit ++ rest = utf8EncodeChar (Char.ofNat code) ++ rest := by
  rw [utf8EncodeChar_eq (toNat_ofNat_of_valid valid) parts]

theorem takeUnit_eq_some {lead : UInt8} {bytes rest : List UInt8} {c : Char}
    (unit : takeUnit lead bytes = (some c, rest)) :
    ∃ n code, tailLength? lead.toNat = some n ∧ c = Char.ofNat code ∧
      takeTail (leadBits lead.toNat n) n (secondBounds lead.toNat) bytes = (some code, rest) := by
  rw [takeUnit] at unit
  split at unit
  · cases unit
  · next n length =>
    generalize tail : takeTail (leadBits lead.toNat n) n (secondBounds lead.toNat) bytes = x at unit
    obtain ⟨_ | code, left⟩ := x
    · cases unit
    · cases unit
      exact ⟨n, code, length, rfl, tail⟩

theorem takeUnit_some {lead : UInt8} {bytes rest : List UInt8} {c : Char}
    (unit : takeUnit lead bytes = (some c, rest)) :
    lead :: bytes = utf8EncodeChar c ++ rest := by
  obtain ⟨n, code, length, rfl, tail⟩ := takeUnit_eq_some unit
  have within := secondBounds_within lead.toNat
  rcases tailLength?_some length with ⟨rfl, hl⟩ | ⟨rfl, hl, hl'⟩ | ⟨rfl, hl, hl'⟩ | ⟨rfl, hl, hl'⟩
  · obtain ⟨value, rfl⟩ := takeTail_zero_some tail
    have same : code = lead.toNat := value
    exact append_of_carry (by omega) [lead] _ (.inl ⟨by omega, by simp; omega⟩)
  · obtain ⟨b, more, rfl, low, high, tail⟩ := takeTail_succ_some tail
    obtain ⟨value, rfl⟩ := takeTail_zero_some tail
    rw [leadBits_one] at value
    exact append_of_carry (by omega) [lead, b] _
      (.inr (.inl ⟨by omega, by omega, by simp; omega⟩))
  · obtain ⟨b, more, rfl, low, high, tail⟩ := takeTail_succ_some tail
    obtain ⟨b', more, rfl, low', high', tail⟩ := takeTail_succ_some tail
    obtain ⟨value, rfl⟩ := takeTail_zero_some tail
    rw [leadBits_two] at value
    -- the bounds on the second byte leave out surrogates and what has a shorter form
    have range : (0x800 ≤ code ∧ code < 0xd800) ∨ (0xdfff < code ∧ code < 0x10000) := by
      rw [secondBounds_eq] at low high
      dsimp only at low high low' high'
      split_ifs at low high <;> omega
    exact append_of_carry (by omega) [lead, b, b'] _
      (.inr (.inr (.inl ⟨by omega, by omega, by simp; omega⟩)))
  · obtain ⟨b, more, rfl, low, high, tail⟩ := takeTail_succ_some tail
    obtain ⟨b', more, rfl, low', high', tail⟩ := takeTail_succ_some tail
    obtain ⟨b'', more, rfl, low'', high'', tail⟩ := takeTail_succ_some tail
    obtain ⟨value, rfl⟩ := takeTail_zero_some tail
    rw [leadBits_three] at value
    have range : 0x10000 ≤ code ∧ code < 0x110000 := by
      rw [secondBounds_eq] at low high
      dsimp only at low high low' high' low'' high''
      split_ifs at low high <;> omega
    exact append_of_carry (by omega) [lead, b, b', b''] _
      (.inr (.inr (.inr ⟨by omega, by simp; omega⟩)))

/-! ### Texts -/

theorem eq_flatMap_of_units {bytes : List UInt8} (all : (units bytes).all Option.isSome = true) :
    bytes = ((units bytes).filterMap id).flatMap utf8EncodeChar := by
  induction hn : bytes.length using Nat.strongRecOn generalizing bytes with
  | _ n ih =>
  cases bytes with
  | nil => simp [units]
  | cons lead rest =>
    rw [units] at all ⊢
    rw [List.all_cons, Bool.and_eq_true] at all
    obtain ⟨c, unit⟩ := Option.isSome_iff_exists.1 all.1
    have shorter := length_takeUnit_le lead rest
    have more := ih _ (by rw [← hn, List.length_cons]; omega) all.2 rfl
    have one : takeUnit lead rest = (some c, (takeUnit lead rest).2) := Prod.ext unit rfl
    rw [unit, List.filterMap_cons]
    dsimp only [id]
    rw [List.flatMap_cons, ← more]
    exact takeUnit_some one

theorem decode?_encode (s : String) : decode? (encode s) = some s := by
  have all : (units (encode s)).all Option.isSome = true := by
    rw [encode_eq, units_flatMap]
    simp
  rw [decode?, if_pos all, encode_eq, units_flatMap, List.filterMap_map]
  exact congrArg some ((congrArg String.ofList (List.filterMap_some)).trans String.ofList_toList)

theorem decode?_eq_some_iff {bytes : List UInt8} {s : String} :
    decode? bytes = some s ↔ bytes = encode s := by
  refine ⟨fun decoded => ?_, fun same => same ▸ decode?_encode s⟩
  rw [decode?] at decoded
  split at decoded
  · next all =>
    obtain rfl := Option.some.inj decoded
    rw [encode_eq, String.toList_ofList]
    exact eq_flatMap_of_units all
  · cases decoded

/-! ### Where a text can be cut -/

theorem exists_lead (c : Char) : ∃ lead tail, utf8EncodeChar c = lead :: tail ∧
    ¬ Continues lead ∧ ∀ b ∈ tail, Continues b := by
  rcases utf8EncodeChar_cases c with ⟨hc, a, h, va⟩ | ⟨hc, hc', a, b, h, va, vb⟩ |
      ⟨hc, hc', a, b, d, h, va, vb, vd⟩ | ⟨hc, hc', a, b, d, e, h, va, vb, vd, ve⟩ <;>
    refine ⟨_, _, h, ?_, ?_⟩ <;>
    simp only [Continues, List.mem_cons, List.not_mem_nil, or_false, forall_eq_or_imp, forall_eq,
      false_imp_iff, implies_true, not_and, not_le] <;>
    omega

theorem utf8EncodeChar_append_inj {c d : Char} {xs ys : List UInt8}
    (same : utf8EncodeChar c ++ xs = utf8EncodeChar d ++ ys) : c = d ∧ xs = ys := by
  obtain ⟨lead, tail, hc, unit⟩ := exists_takeUnit c
  obtain ⟨lead', tail', hd, unit'⟩ := exists_takeUnit d
  rw [hc, hd, List.cons_append, List.cons_append] at same
  obtain ⟨rfl, rest⟩ := List.cons.inj same
  have one := unit xs
  rw [rest, unit' ys] at one
  cases one
  exact ⟨rfl, rfl⟩

theorem exists_cut {cs : List Char} {front back : List UInt8} {c : Char}
    (bytes : cs.flatMap utf8EncodeChar = front ++ utf8EncodeChar c ++ back) :
    ∃ before after, cs = before ++ c :: after ∧ front = before.flatMap utf8EncodeChar ∧
      back = after.flatMap utf8EncodeChar := by
  induction cs generalizing front with
  | nil =>
    have none := congrArg List.length bytes
    have some := List.length_pos_iff.2 (String.utf8EncodeChar_ne_nil (c := c))
    simp only [List.flatMap_nil, List.length_nil, List.length_append] at none
    omega
  | cons d cs ih =>
    rw [List.flatMap_cons, List.append_assoc] at bytes
    rcases List.append_eq_append_iff.1 bytes with ⟨more, rfl, rest⟩ | ⟨more, inside, rest⟩
    · rw [← List.append_assoc] at rest
      obtain ⟨before, after, rfl, rfl, rfl⟩ := ih rest
      exact ⟨d :: before, after, rfl, rfl, rfl⟩
    · cases front with
      | nil =>
        obtain ⟨rfl, rfl⟩ := utf8EncodeChar_append_inj bytes
        exact ⟨[], cs, rfl, rfl, rfl⟩
      | cons b front =>
        cases more with
        | nil =>
          obtain ⟨before, after, rfl, none, rfl⟩ := @ih [] rest.symm
          refine ⟨d :: before, after, rfl, ?_, rfl⟩
          rw [List.flatMap_cons, ← none, inside, List.append_nil, List.append_nil]
        | cons b' more =>
          -- the first byte of `c` would be a byte of `d` that is not its first
          obtain ⟨lead, tail, hc, first, -⟩ := exists_lead c
          obtain ⟨lead', tail', hd, -, others⟩ := exists_lead d
          rw [hc] at rest
          rw [hd] at inside
          obtain rfl := (List.cons.inj rest).1
          refine absurd (others lead ?_) first
          rw [(List.cons.inj inside).2]
          exact List.mem_append_right front List.mem_cons_self

end Conduit.Utf8
