import Conduit.Proofs.Json.Cursor
import Conduit.Proofs.Text.Decoding

/-!
Strings: every way to write a string is read as that string, and what is read as a string was a way
to write it.
-/

namespace Conduit.Json.Decoder

open String (utf8EncodeChar)
open Utf8 (utf8EncodeChar_cases)

variable {c c' : Cursor} {a : Char} {rest : Bytes}

/-! ### Bytes and characters -/

theorem toNat_byte {a : Char} (small : a.toNat < 0x100) : (byte a).toNat = a.toNat := by
  rw [byte, Nat.toUInt8, UInt8.toNat_ofNat']
  exact Nat.mod_eq_of_lt small

theorem ofNat_toNat_byte {a : Char} (small : a.toNat < 0x100) : Char.ofNat (byte a).toNat = a := by
  rw [toNat_byte small, Char.ofNat_toNat]

theorem byte_ofNat (b : UInt8) : byte (Char.ofNat b.toNat) = b := by
  have small : b.toNat < 0x100 := b.toNat_lt
  have same : (Char.ofNat b.toNat).toNat = b.toNat := Utf8.toNat_ofNat_of_valid (by omega)
  rw [byte, same]
  exact UInt8.ofNat_toNat

theorem byte_of_ofNat {b : UInt8} (same : Char.ofNat b.toNat = a) : b = byte a := by
  rw [← same, byte_ofNat]

/-! ### Escapes -/

theorem hexValue?_lt {b : UInt8} {n : Nat} (value : hexValue? b = some n) : n < 16 := by
  rw [hexValue?] at value
  split at value
  · next within =>
    have high : (Char.ofNat b.toNat).toNat ≤ 57 := within.2
    have value : (Char.ofNat b.toNat).toNat - 48 = n := Option.some.inj value
    omega
  · split at value
    · next within =>
      have high : (Char.ofNat b.toNat).toNat ≤ 102 := within.2
      have value : (Char.ofNat b.toNat).toNat - 97 + 10 = n := Option.some.inj value
      omega
    · split at value
      · next within =>
        have high : (Char.ofNat b.toNat).toNat ≤ 70 := within.2
        have value : (Char.ofNat b.toNat).toNat - 65 + 10 = n := Option.some.inj value
        omega
      · cases value

theorem hexCode_lt {n : Nat} {digits : Bytes} (code : HexCode n digits) : n < 0x10000 := by
  obtain ⟨length, ds, values, rfl⟩ := code
  match digits, length with
  | [x, y, z, w], _ =>
    simp only [List.mapM_cons, List.mapM_nil, Option.bind_eq_bind, Option.bind_eq_some_iff] at values
    obtain ⟨x', hx, _, ⟨y', hy, _, ⟨z', hz, _, ⟨w', hw, _, ⟨⟩, ⟨⟩⟩, ⟨⟩⟩, ⟨⟩⟩, ⟨⟩⟩ := values
    have hx := hexValue?_lt hx
    have hy := hexValue?_lt hy
    have hz := hexValue?_lt hz
    have hw := hexValue?_lt hw
    simp only [List.foldl_cons, List.foldl_nil]
    omega

theorem exists_hexCode {n : Nat} {digits : Bytes} (code : HexCode n digits)
    (holds : c.Holds (digits ++ rest)) : ∃ c', hexCode c = .ok n c' ∧ c'.Holds rest := by
  obtain ⟨length, ds, values, rfl⟩ := code
  match digits, length with
  | [x, y, z, w], _ =>
    obtain ⟨c₁, first, holds⟩ := exists_nextOr holds .endInString
    obtain ⟨c₂, second, holds⟩ := exists_nextOr holds .endInString
    obtain ⟨c₃, third, holds⟩ := exists_nextOr holds .endInString
    obtain ⟨c₄, fourth, holds⟩ := exists_nextOr holds .endInString
    refine exists_bind_ok first (exists_bind_ok second (exists_bind_ok third ?_))
    refine exists_bind_ok fourth ?_
    rw [values]
    exact exists_pure_ok holds

theorem of_hexCode {n : Nat} (found : hexCode c = .ok n c') :
    ∃ digits, c.ahead = digits ++ c'.ahead ∧ HexCode n digits := by
  obtain ⟨x, c₁, first, found⟩ := exists_of_bind_ok found
  obtain ⟨y, c₂, second, found⟩ := exists_of_bind_ok found
  obtain ⟨z, c₃, third, found⟩ := exists_of_bind_ok found
  obtain ⟨w, c₄, fourth, found⟩ := exists_of_bind_ok found
  cases values : [x, y, z, w].mapM hexValue? with
  | some ds =>
    rw [values] at found
    obtain ⟨rfl, rfl⟩ := of_pure found
    refine ⟨[x, y, z, w], ?_, rfl, ds, values, rfl⟩
    rw [of_nextOr first, of_nextOr second, of_nextOr third, of_nextOr fourth]
    rfl
  | none =>
    rw [values] at found
    cases found

theorem exists_continueEscape {b : UInt8} (holds : c.Holds (b :: rest)) :
    ∃ c', continueEscape b c = .ok () c' ∧ c'.Holds rest := by
  obtain ⟨c₁, look, sees⟩ := exists_peek holds
  obtain ⟨c₂, past, holds⟩ := exists_discard sees
  have found : peekOr .endInString c = .ok b c₁ := by
    rw [peekOr, bind_of_ok look]
    rfl
  refine exists_bind_ok found (exists_bind_ok past ?_)
  rw [if_neg (not_not_intro rfl)]
  exact exists_pure_ok holds

theorem of_continueEscape {b : UInt8} {u : Unit} (found : continueEscape b c = .ok u c') :
    c.ahead = b :: c'.ahead := by
  obtain ⟨x, c₁, look, found⟩ := exists_of_bind_ok found
  obtain ⟨_, c₂, past, found⟩ := exists_of_bind_ok found
  obtain ⟨ahead, peeked⟩ := of_peekOr look
  split at found
  · cases found
  · next same =>
    obtain ⟨-, rfl⟩ := of_pure found
    rw [← ahead, of_discard past peeked, not_not.1 same]

theorem surrogate_iff {n : Nat} : (isHighSurrogate n = true ↔ 0xd800 ≤ n ∧ n ≤ 0xdbff) ∧
    (isLowSurrogate n = true ↔ 0xdc00 ≤ n ∧ n ≤ 0xdfff) := by
  simp [isHighSurrogate, isLowSurrogate]

theorem not_surrogate (a : Char) :
    isHighSurrogate a.toNat = false ∧ isLowSurrogate a.toNat = false := by
  have valid : a.toNat < 0xd800 ∨ 0xdfff < a.toNat := a.valid.imp id And.left
  rw [← Bool.not_eq_true, ← Bool.not_eq_true, surrogate_iff.1, surrogate_iff.2]
  omega

theorem exists_codeEscape_code {digits : Bytes} (code : HexCode a.toNat digits)
    (holds : c.Holds (digits ++ rest)) : ∃ c', codeEscape c = .ok a c' ∧ c'.Holds rest := by
  obtain ⟨c₁, found, holds⟩ := exists_hexCode code holds
  obtain ⟨notHigh, notLow⟩ := not_surrogate a
  refine exists_bind_ok found ?_
  rw [notLow, notHigh, Char.ofNat_toNat]
  exact exists_pure_ok holds

theorem exists_codeEscape_pair {high low : Nat} {digits digits' : Bytes}
    (first : HexCode high digits) (second : HexCode low digits')
    (isHigh : isHighSurrogate high = true) (isLow : isLowSurrogate low = true)
    (value : a.toNat = (high - 0xd800) * 0x400 + (low - 0xdc00) + 0x10000)
    (holds : c.Holds (digits ++ byte '\\' :: byte 'u' :: (digits' ++ rest))) :
    ∃ c', codeEscape c = .ok a c' ∧ c'.Holds rest := by
  obtain ⟨c₁, found, holds⟩ := exists_hexCode first holds
  obtain ⟨c₂, one, holds⟩ := exists_continueEscape holds
  obtain ⟨c₃, two, holds⟩ := exists_continueEscape holds
  obtain ⟨c₄, found', holds⟩ := exists_hexCode second holds
  have notLow : isLowSurrogate high = false := by
    rw [surrogate_iff.1] at isHigh
    rw [← Bool.not_eq_true, surrogate_iff.2]
    omega
  refine exists_bind_ok found ?_
  rw [notLow, isHigh]
  refine exists_bind_ok one (exists_bind_ok two (exists_bind_ok found' ?_))
  rw [isLow, ← value, Char.ofNat_toNat]
  exact exists_pure_ok holds

theorem of_codeEscape (found : codeEscape c = .ok a c') :
    ∃ text, c.ahead = text ++ c'.ahead ∧ Escape a (byte 'u' :: text) := by
  obtain ⟨n, c₁, code, found⟩ := exists_of_bind_ok found
  obtain ⟨digits, ahead, code⟩ := of_hexCode code
  have small := hexCode_lt code
  split at found
  · cases found
  · next notLow =>
    rw [surrogate_iff.2] at notLow
    split at found
    · next isHigh =>
      obtain ⟨_, c₂, one, found⟩ := exists_of_bind_ok found
      obtain ⟨_, c₃, two, found⟩ := exists_of_bind_ok found
      obtain ⟨low, c₄, code', found⟩ := exists_of_bind_ok found
      obtain ⟨digits', ahead', code'⟩ := of_hexCode code'
      split at found
      · next isLow =>
        obtain ⟨value, rfl⟩ := of_pure found
        have value : a.toNat = (n - 0xd800) * 0x400 + (low - 0xdc00) + 0x10000 := by
          rw [surrogate_iff.1] at isHigh
          rw [surrogate_iff.2] at isLow
          rw [← value]
          exact Utf8.toNat_ofNat_of_valid (by omega)
        refine ⟨digits ++ byte '\\' :: byte 'u' :: digits', ?_, .pair code code' isHigh isLow value⟩
        rw [ahead, of_continueEscape one, of_continueEscape two, ahead']
        simp
      · cases found
    · next notHigh =>
      rw [surrogate_iff.1] at notHigh
      obtain ⟨value, rfl⟩ := of_pure found
      have value : a.toNat = n := by
        rw [← value]
        exact Utf8.toNat_ofNat_of_valid (by omega)
      exact ⟨digits, ahead, .code (value ▸ code)⟩

theorem escapeFrom_cases (b : UInt8) :
    (∃ letter a, (letter, a) ∈ shortEscapes ∧ b = byte letter ∧ escapeFrom b = pure a) ∨
      (b = byte 'u' ∧ escapeFrom b = codeEscape) ∨ escapeFrom b = fail .invalidEscape := by
  rw [escapeFrom]
  split
  case h_9 same => exact .inr (.inl ⟨byte_of_ofNat same, rfl⟩)
  case h_10 => exact .inr (.inr rfl)
  all_goals next same => exact .inl ⟨_, _, by decide, byte_of_ofNat same, rfl⟩

theorem escapeFrom_letter {letter : Char} (names : (letter, a) ∈ shortEscapes) :
    escapeFrom (byte letter) = pure a := by
  simp only [shortEscapes, List.mem_cons, Prod.mk.injEq, List.not_mem_nil, or_false] at names
  rcases names with ⟨rfl, rfl⟩ | ⟨rfl, rfl⟩ | ⟨rfl, rfl⟩ | ⟨rfl, rfl⟩ | ⟨rfl, rfl⟩ | ⟨rfl, rfl⟩ |
    ⟨rfl, rfl⟩ | ⟨rfl, rfl⟩ <;> rfl

theorem exists_escape {text : Bytes} (escaped : Escape a text) (holds : c.Holds (text ++ rest)) :
    ∃ c', escape c = .ok a c' ∧ c'.Holds rest := by
  rw [escape_eq]
  cases escaped with
  | letter names =>
    obtain ⟨c₁, next, holds⟩ := exists_nextOr holds .endInString
    refine exists_bind_ok next ?_
    rw [escapeFrom_letter names]
    exact exists_pure_ok holds
  | code code =>
    obtain ⟨c₁, next, holds⟩ := exists_nextOr holds .endInString
    exact exists_bind_ok next (exists_codeEscape_code code holds)
  | pair first second isHigh isLow value =>
    rw [List.append_assoc] at holds
    obtain ⟨c₁, next, holds⟩ := exists_nextOr holds .endInString
    exact exists_bind_ok next (exists_codeEscape_pair first second isHigh isLow value holds)

theorem of_escape (found : escape c = .ok a c') :
    ∃ text, c.ahead = text ++ c'.ahead ∧ Escape a text := by
  rw [escape_eq] at found
  obtain ⟨b, c₁, next, found⟩ := exists_of_bind_ok found
  have ahead := of_nextOr next
  rcases escapeFrom_cases b with ⟨letter, a', names, rfl, same⟩ | ⟨rfl, same⟩ | same
  · rw [same] at found
    obtain ⟨rfl, rfl⟩ := of_pure found
    exact ⟨[byte letter], ahead, .letter names⟩
  · rw [same] at found
    obtain ⟨text, ahead', escaped⟩ := of_codeEscape found
    refine ⟨byte 'u' :: text, ?_, escaped⟩
    rw [ahead, ahead']
    rfl
  · rw [same] at found
    cases found

/-! ### Runs of plain bytes -/

theorem isPlain_iff {b : UInt8} :
    isPlain b = true ↔ 0x20 ≤ b.toNat ∧ b.toNat ≠ 0x22 ∧ b.toNat ≠ 0x5c := by
  have quote : byte '"' = 0x22 := rfl
  have backslash : byte '\\' = 0x5c := rfl
  simp only [isPlain, quote, backslash, Bool.and_eq_true, decide_eq_true_eq, and_assoc,
    UInt8.le_iff_toNat_le, ne_eq, ← UInt8.toNat_inj]
  rfl

theorem plain_iff : Plain a ↔ ∀ b ∈ utf8EncodeChar a, isPlain b = true := by
  have apart {d : Char} : a ≠ d ↔ a.toNat ≠ d.toNat := not_congr Char.toNat_inj.symm
  have quote : '"'.toNat = 0x22 := rfl
  have backslash : '\\'.toNat = 0x5c := rfl
  rw [Plain, apart, apart, quote, backslash]
  simp only [isPlain_iff]
  rcases utf8EncodeChar_cases a with ⟨ha, x, h, hx⟩ | ⟨ha, -, x, y, h, hx, hy⟩ |
      ⟨ha, -, x, y, z, h, hx, hy, hz⟩ | ⟨ha, -, x, y, z, w, h, hx, hy, hz, hw⟩ <;>
    simp only [h, List.mem_cons, List.not_mem_nil, or_false, forall_eq_or_imp, forall_eq] <;>
    omega

theorem quoted_of_plain {cs : List Char}
    (plain : ∀ b ∈ cs.flatMap utf8EncodeChar, isPlain b = true) :
    Quoted cs (cs.flatMap utf8EncodeChar) := by
  induction cs with
  | nil => exact .nil
  | cons a cs ih =>
    rw [List.flatMap_cons] at plain ⊢
    refine .plain (plain_iff.2 fun b mem => plain b (List.mem_append_left _ mem)) (ih ?_)
    exact fun b mem => plain b (List.mem_append_right _ mem)

theorem Quoted.append {cs ds : List Char} {text text' : Bytes} (first : Quoted cs text)
    (second : Quoted ds text') : Quoted (cs ++ ds) (text ++ text') := by
  induction first with
  | nil => exact second
  | plain plain rest ih =>
    rw [List.append_assoc]
    exact .plain plain ih
  | escaped escaped rest ih =>
    rw [List.append_assoc]
    exact .escaped escaped ih

/-! ### Strings -/

inductive Raw : Bytes → Bytes → Prop
  | last {run : Bytes} (plain : ∀ b ∈ run, isPlain b = true) : Raw run run
  | escaped {run escape body bytes : Bytes} {a : Char} (plain : ∀ b ∈ run, isPlain b = true)
    (escaped : Escape a escape) (rest : Raw body bytes) :
    Raw (run ++ (byte '\\' :: escape ++ body)) (run ++ utf8EncodeChar a ++ bytes)

theorem Raw.quoted {body bytes : Bytes} (raw : Raw body bytes) {cs : List Char}
    (text : bytes = cs.flatMap utf8EncodeChar) : Quoted cs body := by
  induction raw generalizing cs with
  | last plain =>
    subst text
    exact quoted_of_plain plain
  | escaped plain escaped rest ih =>
    obtain ⟨before, after, rfl, rfl, more⟩ := Utf8.exists_cut text.symm
    exact Quoted.append (quoted_of_plain plain) (.escaped escaped (ih more))

theorem encode_singleton (a : Char) : Utf8.encode (String.singleton a) = utf8EncodeChar a := by
  rw [Utf8.encode_eq, String.toList_singleton, List.flatMap_singleton]

theorem exists_run {b : UInt8} {run : Bytes} (plain : ∀ b ∈ run, isPlain b = true)
    (stop : isPlain b = false) (holds : c.Holds (run ++ b :: rest)) :
    ∃ c₁ c₂, takeWhile isPlain c = .ok run c₁ ∧ nextOr .endInString c₁ = .ok b c₂ ∧
      c₂.Holds rest := by
  have stops : ∀ b' ∈ (b :: rest).head?, isPlain b' = false := by
    rintro b' ⟨⟩
    exact stop
  obtain ⟨c₁, runs, sees⟩ := exists_takeWhile_front holds plain stops
  obtain ⟨c₂, next, holds⟩ := exists_nextOr sees.holds .endInString
  exact ⟨c₁, c₂, runs, next, holds⟩

theorem exists_stringBytes {cs : List Char} {body : Bytes} (quoted : Quoted cs body) {n : Nat}
    {run read : Bytes} (plain : ∀ b ∈ run, isPlain b = true) (turns : body.length < n)
    (holds : c.Holds (run ++ (body ++ byte '"' :: rest))) :
    ∃ c', stringBytes n read c = .ok (read ++ run ++ cs.flatMap utf8EncodeChar) c' ∧
      c'.Holds rest := by
  induction quoted generalizing n c run read with
  | nil =>
    obtain ⟨n, rfl⟩ := Nat.exists_eq_succ_of_ne_zero (Nat.ne_zero_of_lt turns)
    obtain ⟨c₁, c₂, runs, next, holds⟩ := exists_run plain (by decide) holds
    refine exists_bind_ok runs (exists_bind_ok next ?_)
    rw [if_pos rfl, List.flatMap_nil, List.append_nil]
    exact exists_pure_ok holds
  | @plain a cs text here _ ih =>
    -- the character only makes the run longer
    have longer : ∀ b ∈ run ++ utf8EncodeChar a, isPlain b = true := fun b mem =>
      (List.mem_append.1 mem).elim (plain b) (plain_iff.1 here b)
    rw [List.length_append] at turns
    rw [List.append_assoc, ← List.append_assoc] at holds
    have found := @ih c n _ read longer (by omega) holds
    rwa [← List.append_assoc, List.append_assoc, ← List.flatMap_cons] at found
  | @escaped a cs escape text escaped _ ih =>
    obtain ⟨n, rfl⟩ := Nat.exists_eq_succ_of_ne_zero (Nat.ne_zero_of_lt turns)
    rw [List.length_append, List.length_cons] at turns
    rw [List.append_assoc, List.cons_append] at holds
    obtain ⟨c₁, c₂, runs, next, holds⟩ := exists_run plain (by decide) holds
    obtain ⟨c₃, one, holds⟩ := exists_escape escaped holds
    have found := @ih c₃ n [] (read ++ run ++ utf8EncodeChar a) nofun (by omega) holds
    refine exists_bind_ok runs (exists_bind_ok next ?_)
    rw [if_neg (by decide), if_pos rfl]
    refine exists_bind_ok one ?_
    rw [List.append_nil] at found
    rwa [encode_singleton, List.flatMap_cons, ← List.append_assoc]

theorem of_stringBytes {n : Nat} {read bytes : Bytes}
    (found : stringBytes n read c = .ok bytes c') : ∃ body stood,
      c.ahead = body ++ byte '"' :: c'.ahead ∧ bytes = read ++ stood ∧ Raw body stood := by
  induction n generalizing c read with
  | zero => cases found
  | succ n ih =>
    obtain ⟨run, c₁, runs, found⟩ := exists_of_bind_ok found
    obtain ⟨b, c₂, next, found⟩ := exists_of_bind_ok found
    obtain ⟨ahead, plain⟩ := of_takeWhile runs
    rw [of_nextOr next] at ahead
    split at found
    · next quote =>
      obtain ⟨rfl, rfl⟩ := of_pure found
      exact ⟨run, run, quote ▸ ahead, rfl, .last plain⟩
    · split at found
      · next backslash =>
        obtain ⟨a, c₃, one, found⟩ := exists_of_bind_ok found
        obtain ⟨escape, ahead', escaped⟩ := of_escape one
        obtain ⟨body, stood, ahead'', rfl, raw⟩ := ih found
        refine ⟨_, _, ?_, ?_, .escaped plain escaped raw⟩
        · rw [ahead, ahead', ahead'', backslash]
          simp
        · rw [encode_singleton]
          simp
      · cases found

theorem exists_stringText {s : String} {body : Bytes} (quoted : Quoted s.toList body)
    (holds : c.Holds (body ++ byte '"' :: rest)) :
    ∃ c', stringText c = .ok s c' ∧ c'.Holds rest := by
  have turns : body.length < c.rest.length + 1 := by
    have all := length_ahead_le c
    rw [holds.ahead, List.length_append, List.length_cons] at all
    omega
  obtain ⟨c₁, found, holds⟩ := @exists_stringBytes c rest _ _ quoted _ [] [] nofun turns holds
  refine exists_bind_ok found ?_
  have text : Utf8.decode? ([] ++ [] ++ s.toList.flatMap utf8EncodeChar) = some s := by
    rw [List.append_nil, List.nil_append, ← Utf8.encode_eq, Utf8.decode?_encode]
  rw [text]
  exact exists_pure_ok holds

theorem of_stringText {s : String} (found : stringText c = .ok s c') :
    ∃ body, c.ahead = body ++ byte '"' :: c'.ahead ∧ Quoted s.toList body := by
  obtain ⟨bytes, c₁, read, found⟩ := exists_of_bind_ok found
  obtain ⟨body, _, ahead, rfl, raw⟩ := of_stringBytes read
  cases text : Utf8.decode? bytes with
  | some s' =>
    rw [text] at found
    obtain ⟨rfl, rfl⟩ := of_pure found
    have bytes := Utf8.decode?_eq_some_iff.1 text
    rw [Utf8.encode_eq] at bytes
    exact ⟨body, ahead, raw.quoted bytes⟩
  | none =>
    rw [text] at found
    cases found

end Conduit.Json.Decoder
