import Conduit.Proofs.Json.Extension

/-!
The decoder of documents is steady: what it finds does not depend on how the bytes come in.  A loop
that has a turn for each byte at hand has as many as it can use, for every turn uses up a byte.
-/

namespace Conduit.Json.Decoder

variable {α β : Type} {d : Decoder α} {f : α → Decoder β} {c c' : Cursor}

/-! ### Bytes used up -/

structure Consumes (d : Decoder α) : Prop where
  shrinks : ∀ c a c', d c = .ok a c' → c'.ahead.length < c.ahead.length

structure ConsumesPeeked (d : Decoder α) : Prop where
  shrinks : ∀ c a c', c.peeked ≠ none → d c = .ok a c' → c'.ahead.length < c.ahead.length

theorem Steady.length_le (steady : Steady d) {a : α} (found : d c = .ok a c') :
    c'.ahead.length ≤ c.ahead.length := (steady.reaches c c' (by rw [found]; rfl)).ahead.length_le

theorem exists_of_bind_ok {b : β} (found : (d >>= f) c = .ok b c') :
    ∃ a c₁, d c = .ok a c₁ ∧ f a c₁ = .ok b c' := by
  rw [bind_apply] at found
  cases first : d c with
  | ok a c₁ => exact ⟨a, c₁, rfl, by rwa [first] at found⟩
  | failed e c₁ =>
    rw [first] at found
    cases found
  | starved =>
    rw [first] at found
    cases found

theorem Consumes.bind (first : Consumes d) (rest : ∀ a, Steady (f a)) : Consumes (d >>= f) where
  shrinks c b c' found := by
    obtain ⟨a, c₁, one, two⟩ := exists_of_bind_ok found
    exact Nat.lt_of_le_of_lt ((rest a).length_le two) (first.shrinks c a c₁ one)

theorem Consumes.consumesPeeked (consumes : Consumes d) : ConsumesPeeked d :=
  ⟨fun c a c' _ found => consumes.shrinks c a c' found⟩

theorem peeked_of_peek {b : UInt8} (found : peek c = .ok (some b) c') : c'.peeked = some b := by
  obtain ⟨rest, ending, peeked, position⟩ := c
  rcases peeked with _ | b'
  · rcases rest with _ | ⟨b', rest⟩
    · cases ending <;> cases found
    · cases found
      rfl
  · cases found
    rfl

theorem consumesPeeked_discard {f : Unit → Decoder α} (rest : Steady (f ())) :
    ConsumesPeeked (discard >>= f) where
  shrinks c a c' looked found := by
    obtain ⟨⟨⟩, c₁, one, two⟩ := exists_of_bind_ok found
    obtain ⟨b, peeked⟩ := Option.ne_none_iff_exists'.1 looked
    cases one
    refine Nat.lt_of_le_of_lt (rest.length_le two) ?_
    rw [Cursor.ahead, Cursor.ahead, peeked]
    exact Nat.lt_succ_self _

theorem steady_next : Steady next :=
  steady_peek.bind fun b => steady_discard.bind fun _ => steady_pure b

theorem steady_nextOr (fault : Fault) : Steady (nextOr fault) :=
  steady_next.bind fun
    | some b => steady_pure b
    | none => steady_fail fault

theorem steady_peekOr (fault : Fault) : Steady (peekOr fault) :=
  steady_peek.bind fun
    | some b => steady_pure b
    | none => steady_fail fault

theorem steady_skipBlank : Steady skipBlank := (steady_takeWhile isBlank).bind fun _ => steady_peek

theorem consumes_nextOr (fault : Fault) : Consumes (nextOr fault) where
  shrinks c b c' found := by
    obtain ⟨x, c₁, one, two⟩ := exists_of_bind_ok found
    obtain ⟨y, c₂, look, past⟩ := exists_of_bind_ok one
    cases y with
    | none =>
      cases past
      cases two
    | some y =>
      have looked : c₂.peeked ≠ none := by
        rw [peeked_of_peek look]
        exact Option.some_ne_none y
      have shrinks := (consumesPeeked_discard (steady_pure (some y))).shrinks c₂ x c₁ looked past
      cases past
      cases two
      exact Nat.lt_of_lt_of_le shrinks (steady_peek.length_le look)

theorem consumes_skipBlank {f : Option UInt8 → Decoder α} (none : ∀ c a c', f .none c ≠ .ok a c')
    (some : ∀ b, ConsumesPeeked (f (.some b))) : Consumes (skipBlank >>= f) where
  shrinks c a c' found := by
    obtain ⟨x, c₁, skip, rest⟩ := exists_of_bind_ok found
    cases x with
    | none => exact absurd rest (none c₁ a c')
    | some b =>
      obtain ⟨-, c₂, -, look⟩ := exists_of_bind_ok skip
      have looked : c₁.peeked ≠ .none := by
        rw [peeked_of_peek look]
        exact Option.some_ne_none b
      exact Nat.lt_of_lt_of_le ((some b).shrinks c₁ a c' looked rest)
        (steady_skipBlank.length_le skip)

theorem steady_turns {loop : Nat → Decoder α} {k : Nat} (steady : ∀ n, Steady (loop n))
    (turns : ∀ n m c, c.rest.length + k ≤ n → c.rest.length + k ≤ m → loop n c = loop m c) :
    Steady fun c => loop (c.rest.length + k) c where
  reaches c := (steady (c.rest.length + k)).reaches c
  settles c := (steady (c.rest.length + k)).settles c
  extends_ c more ending open_ := by
    have fewer : c.rest.length + k ≤ (c.extend more ending).rest.length + k := by
      rw [Cursor.extend, List.length_append]
      omega
    rw [turns _ _ c (Nat.le_refl _) fewer]
    exact (steady _).extends_ c more ending open_

theorem length_ahead_le (c : Cursor) : c.ahead.length ≤ c.rest.length + 1 := by
  obtain ⟨rest, ending, peeked, position⟩ := c
  cases peeked <;> simp [Cursor.ahead]

theorem steady_withTurns {loop : Nat → Decoder α} (steady : ∀ n, Steady (loop n))
    (turns : ∀ n m c, c.ahead.length < n → c.ahead.length < m → loop n c = loop m c) :
    Steady (withTurns loop) :=
  steady_turns steady fun n m c hn hm => by
    have := length_ahead_le c
    exact turns n m c (by omega) (by omega)

/-! ### Numbers -/

theorem steady_expect (bytes : List UInt8) : Steady (expect bytes) := by
  induction bytes with
  | nil => exact steady_pure ()
  | cons b rest ih =>
    refine (steady_nextOr _).bind fun found => ?_
    split
    · exact ih
    · exact steady_fail _

theorem steady_digits : Steady digits := (steady_takeWhile isDigitByte).bind fun _ => steady_pure _

def wholeFrom (first : UInt8) : Decoder (List Char) :=
  if first = byte '0' then peek >>= fun
    | some b => if isDigitByte b then fail .invalidNumber else pure ['0']
    | none => pure ['0']
  else if isDigitByte first then digits >>= fun ds => pure (Char.ofNat first.toNat :: ds)
  else fail .invalidNumber

theorem wholePart_eq : wholePart = nextOr .endInValue >>= wholeFrom := rfl

theorem steady_wholeFrom (first : UInt8) : Steady (wholeFrom first) := by
  rw [wholeFrom]
  split
  · refine steady_peek.bind fun
      | some b => ?_
      | none => steady_pure _
    dsimp only
    split
    · exact steady_fail _
    · exact steady_pure _
  · split
    · exact steady_digits.bind fun ds => steady_pure _
    · exact steady_fail _

theorem steady_wholePart : Steady wholePart := (steady_nextOr _).bind steady_wholeFrom

theorem consumes_wholePart : Consumes wholePart := (consumes_nextOr _).bind steady_wholeFrom

theorem steady_fractionPart : Steady fractionPart := by
  refine steady_peek.bind fun b => ?_
  split
  · exact steady_pure none
  · refine steady_discard.bind fun _ => steady_digits.bind fun ds => ?_
    split
    · exact (steady_peekOr _).bind fun _ => steady_fail _
    · exact steady_pure _

theorem steady_exponentDigits (n e : Nat) : Steady (exponentDigits n e) := by
  induction n generalizing e with
  | zero => exact steady_pure _
  | succ n ih =>
    refine steady_peek.bind fun
      | some b => ?_
      | none => steady_pure _
    dsimp only
    split
    · refine steady_discard.bind fun _ => ?_
      split
      · exact ih _
      · exact steady_pure _
    · exact steady_pure _

theorem length_discard {b : UInt8} (look : peek c = .ok (some b) c') :
    (⟨c'.rest, c'.ending, none, c'.position⟩ : Cursor).ahead.length < c.ahead.length := by
  refine Nat.lt_of_lt_of_le ?_ (steady_peek.length_le look)
  rw [Cursor.ahead, Cursor.ahead, peeked_of_peek look]
  exact Nat.lt_succ_self _

theorem exponentDigits_turns {n m e : Nat} (hn : c.ahead.length < n) (hm : c.ahead.length < m) :
    exponentDigits n e c = exponentDigits m e c := by
  induction n generalizing m e c with
  | zero => exact absurd hn (Nat.not_lt_zero _)
  | succ n ih =>
    obtain ⟨m, rfl⟩ := Nat.exists_eq_succ_of_ne_zero (Nat.ne_zero_of_lt hm)
    rw [exponentDigits, exponentDigits]
    refine bind_congr fun b c₁ look => ?_
    cases b with
    | none => rfl
    | some b =>
      have shorter := length_discard look
      dsimp only
      split
      · refine bind_congr fun _ c₂ past => ?_
        cases past
        split
        · exact ih (by omega) (by omega)
        · rfl
      · rfl

def unsignedExponent (allZero : Bool) (negative : Prop) [Decidable negative] :
    Decoder (Option Int) := do
  let first ← nextOr .endInValue
  if !isDigitByte first then fail .invalidNumber
  else
    let e ← fun c => exponentDigits (c.rest.length + 2) (digitValue (Char.ofNat first.toNat)) c
    match e with
    | some e => pure (some (if negative then -(e : Int) else e))
    | none =>
      if !allZero ∧ !negative then fail .numberOutOfRange
      else
        let _ ← digits
        pure (some (-exponentLimit))

def signedExponent (allZero : Bool) : Decoder (Option Int) := peek >>= fun sign =>
  if sign = some (byte '-') ∨ sign = some (byte '+') then
    discard >>= fun _ => unsignedExponent allZero (sign = some (byte '-'))
  else unsignedExponent allZero (sign = some (byte '-'))

theorem exponentPart_eq (allZero : Bool) : exponentPart allZero = peek >>= fun b =>
    if b ≠ some (byte 'e') ∧ b ≠ some (byte 'E') then pure none
    else discard >>= fun _ => signedExponent allZero := rfl

theorem steady_unsignedExponent (allZero : Bool) (negative : Prop) [Decidable negative] :
    Steady (unsignedExponent allZero negative) := by
  refine (steady_nextOr _).bind fun first => ?_
  split
  · exact steady_fail _
  · have loop : Steady fun c =>
        exponentDigits (c.rest.length + 2) (digitValue (Char.ofNat first.toNat)) c :=
      steady_withTurns (fun n => steady_exponentDigits n _) fun n m c => exponentDigits_turns
    refine loop.bind fun e => ?_
    split
    · exact steady_pure _
    · split
      · exact steady_fail _
      · exact steady_digits.bind fun _ => steady_pure _

theorem steady_exponentPart (allZero : Bool) : Steady (exponentPart allZero) := by
  rw [exponentPart_eq]
  refine steady_peek.bind fun b => ?_
  split
  · exact steady_pure _
  · refine steady_discard.bind fun _ => steady_peek.bind fun sign => ?_
    split
    · exact steady_discard.bind fun _ => steady_unsignedExponent _ _
    · exact steady_unsignedExponent _ _

def numberFrom (negative : Bool) (whole : List Char) : Decoder Json :=
  fractionPart >>= fun fraction =>
    exponentPart ((whole ++ fraction.getD []).all (· = '0')) >>= fun exponent =>
      match Numeral.value? ⟨negative, whole, fraction, exponent⟩ with
      | some x => pure (.number x)
      | none => fail .numberOutOfRange

theorem number_eq (negative : Bool) : number negative = wholePart >>= numberFrom negative := rfl

theorem steady_numberFrom (negative : Bool) (whole : List Char) :
    Steady (numberFrom negative whole) := by
  refine steady_fractionPart.bind fun fraction => (steady_exponentPart _).bind fun exponent => ?_
  split
  · exact steady_pure _
  · exact steady_fail _

theorem steady_number (negative : Bool) : Steady (number negative) :=
  steady_wholePart.bind (steady_numberFrom negative)

theorem consumes_number (negative : Bool) : Consumes (number negative) :=
  consumes_wholePart.bind (steady_numberFrom negative)

/-! ### Strings -/

theorem steady_hexCode : Steady hexCode := by
  refine (steady_nextOr _).bind fun a => (steady_nextOr _).bind fun b => ?_
  refine (steady_nextOr _).bind fun c => (steady_nextOr _).bind fun d => ?_
  split
  · exact steady_pure _
  · exact steady_fail _

theorem steady_continueEscape (b : UInt8) : Steady (continueEscape b) := by
  refine (steady_peekOr _).bind fun found => steady_discard.bind fun _ => ?_
  split
  · exact steady_fail _
  · exact steady_pure _

theorem steady_codeEscape : Steady codeEscape := by
  refine steady_hexCode.bind fun n => ?_
  split
  · exact steady_fail _
  · split
    · refine (steady_continueEscape _).bind fun _ => (steady_continueEscape _).bind fun _ => ?_
      refine steady_hexCode.bind fun low => ?_
      split
      · exact steady_pure _
      · exact steady_fail _
    · exact steady_pure _

def escapeFrom (b : UInt8) : Decoder Char :=
  match Char.ofNat b.toNat with
  | '"' => pure '"'
  | '\\' => pure '\\'
  | '/' => pure '/'
  | 'b' => pure '\x08'
  | 'f' => pure '\x0c'
  | 'n' => pure '\n'
  | 'r' => pure '\r'
  | 't' => pure '\t'
  | 'u' => codeEscape
  | _ => fail .invalidEscape

theorem escape_eq : escape = nextOr .endInString >>= escapeFrom := rfl

theorem steady_escapeFrom (b : UInt8) : Steady (escapeFrom b) := by
  rw [escapeFrom]
  split <;> first | exact steady_pure _ | exact steady_codeEscape | exact steady_fail _

theorem steady_escape : Steady escape := (steady_nextOr _).bind steady_escapeFrom

theorem consumes_escape : Consumes escape := (consumes_nextOr _).bind steady_escapeFrom

theorem steady_stringBytes (n : Nat) (read : Bytes) : Steady (stringBytes n read) := by
  induction n generalizing read with
  | zero => exact steady_fail _
  | succ n ih =>
    refine (steady_takeWhile _).bind fun plain => (steady_nextOr _).bind fun b => ?_
    split
    · exact steady_pure _
    · split
      · exact steady_escape.bind fun c => ih _
      · exact steady_fail _

theorem stringBytes_turns {n m : Nat} {read : Bytes} (hn : c.ahead.length ≤ n) (hn' : 0 < n)
    (hm : c.ahead.length ≤ m) (hm' : 0 < m) : stringBytes n read c = stringBytes m read c := by
  induction n generalizing m read c with
  | zero => exact absurd hn' (Nat.lt_irrefl _)
  | succ n ih =>
    obtain ⟨m, rfl⟩ := Nat.exists_eq_succ_of_ne_zero (Nat.ne_zero_of_lt hm')
    rw [stringBytes, stringBytes]
    refine bind_congr fun plain c₁ run => bind_congr fun b c₂ one => ?_
    have first := (steady_takeWhile isPlain).length_le run
    have second := (consumes_nextOr .endInString).shrinks _ _ _ one
    split
    · rfl
    · split
      · refine bind_congr fun a c₃ escaped => ?_
        have third := consumes_escape.shrinks _ _ _ escaped
        exact ih (by omega) (by omega) (by omega) (by omega)
      · rfl

theorem steady_stringText : Steady stringText := by
  have loop : Steady fun c => stringBytes (c.rest.length + 1) [] c :=
    steady_turns (fun n => steady_stringBytes n _) fun n m c hn hm => by
      have := length_ahead_le c
      exact stringBytes_turns (by omega) (by omega) (by omega) (by omega)
  refine loop.bind fun bytes => ?_
  split
  · exact steady_pure _
  · exact steady_failBefore _ _

/-! ### Arrays and objects -/

section Loops

variable {value : Decoder Json}

theorem steady_items (steady : Steady value) (n : Nat) (read : List Json) :
    Steady (items value n read) := by
  induction n generalizing read with
  | zero => exact steady_fail _
  | succ n ih =>
    refine steady_skipBlank.bind fun
      | none => steady_fail _
      | some b => ?_
    dsimp only
    split
    · exact steady_pure _
    · split
      · exact steady.bind fun j => ih _
      · split
        · refine steady_discard.bind fun _ => steady_skipBlank.bind fun
            | none => steady_fail _
            | some b => ?_
          dsimp only
          split
          · exact steady_fail _
          · exact steady.bind fun j => ih _
        · exact steady_fail _

theorem items_turns (consumes : Consumes value) {n m : Nat}
    {read : List Json} (hn : c.ahead.length < n) (hm : c.ahead.length < m) :
    items value n read c = items value m read c := by
  induction n generalizing m read c with
  | zero => exact absurd hn (Nat.not_lt_zero _)
  | succ n ih =>
    obtain ⟨m, rfl⟩ := Nat.exists_eq_succ_of_ne_zero (Nat.ne_zero_of_lt hm)
    have again {c₁ : Cursor} (nearer : c₁.ahead.length ≤ c.ahead.length) :
        (value >>= fun j => items value n (j :: read)) c₁ =
          (value >>= fun j => items value m (j :: read)) c₁ :=
      bind_congr fun j c₂ found => by
        have shorter := consumes.shrinks _ _ _ found
        exact ih (by omega) (by omega)
    rw [items, items]
    refine bind_congr fun b c₁ skip => ?_
    have first := steady_skipBlank.length_le skip
    cases b with
    | none => rfl
    | some b =>
      dsimp only
      split
      · rfl
      · split
        · exact again first
        · split
          · refine bind_congr fun _ c₂ past => bind_congr fun b c₃ skip => ?_
            have second := steady_discard.length_le past
            have third := steady_skipBlank.length_le skip
            cases b with
            | none => rfl
            | some b =>
              dsimp only
              split
              · rfl
              · exact again (by omega)
          · rfl

theorem steady_field (steady : Steady value) : Steady (field value) := by
  refine steady_discard.bind fun _ => steady_stringText.bind fun key => ?_
  refine steady_skipBlank.bind fun
    | none => steady_fail _
    | some b => ?_
  dsimp only
  split
  · exact steady_discard.bind fun _ => steady.bind fun j => steady_pure _
  · exact steady_fail _

theorem consumesPeeked_field (steady : Steady value) : ConsumesPeeked (field value) := by
  refine consumesPeeked_discard (steady_stringText.bind fun key => ?_)
  refine steady_skipBlank.bind fun
    | none => steady_fail _
    | some b => ?_
  dsimp only
  split
  · exact steady_discard.bind fun _ => steady.bind fun j => steady_pure _
  · exact steady_fail _

theorem steady_fields (steady : Steady value) (n : Nat) (read : List (String × Json)) :
    Steady (fields value n read) := by
  induction n generalizing read with
  | zero => exact steady_fail _
  | succ n ih =>
    refine steady_skipBlank.bind fun
      | none => steady_fail _
      | some b => ?_
    dsimp only
    split
    · exact steady_pure _
    · split
      · split
        · exact (steady_field steady).bind fun f => ih _
        · exact steady_fail _
      · split
        · refine steady_discard.bind fun _ => steady_skipBlank.bind fun
            | none => steady_fail _
            | some b => ?_
          dsimp only
          split
          · exact (steady_field steady).bind fun f => ih _
          · split
            · exact steady_fail _
            · exact steady_fail _
        · exact steady_fail _

theorem peeked_of_skipBlank {b : UInt8} (skip : skipBlank c = .ok (some b) c') :
    c'.peeked = some b := by
  obtain ⟨-, c₁, -, look⟩ := exists_of_bind_ok skip
  exact peeked_of_peek look

theorem fields_turns (steady : Steady value) {n m : Nat} {read : List (String × Json)}
    (hn : c.ahead.length < n) (hm : c.ahead.length < m) :
    fields value n read c = fields value m read c := by
  -- every turn brings the end nearer, so the turns do not run out
  induction n generalizing m read c with
  | zero => exact absurd hn (Nat.not_lt_zero _)
  | succ n ih =>
    obtain ⟨m, rfl⟩ := Nat.exists_eq_succ_of_ne_zero (Nat.ne_zero_of_lt hm)
    have again {c₁ : Cursor} (looked : c₁.peeked ≠ none)
        (nearer : c₁.ahead.length ≤ c.ahead.length) :
        (field value >>= fun f => fields value n (f :: read)) c₁ =
          (field value >>= fun f => fields value m (f :: read)) c₁ :=
      bind_congr fun f c₂ found => by
        have shorter := (consumesPeeked_field steady).shrinks _ _ _ looked found
        exact ih (by omega) (by omega)
    rw [fields, fields]
    refine bind_congr fun b c₁ skip => ?_
    have first := steady_skipBlank.length_le skip
    cases b with
    | none => rfl
    | some b =>
      have looked : c₁.peeked ≠ none := by simp [peeked_of_skipBlank skip]
      dsimp only
      split
      · rfl
      · split
        · split
          · exact again looked first
          · rfl
        · split
          · refine bind_congr fun _ c₂ past => bind_congr fun b c₃ skip => ?_
            have second := steady_discard.length_le past
            have third := steady_skipBlank.length_le skip
            cases b with
            | none => rfl
            | some b =>
              have looked : c₃.peeked ≠ none := by simp [peeked_of_skipBlank skip]
              dsimp only
              split
              · exact again looked (by omega)
              · rfl
          · rfl

theorem steady_closeList : Steady closeList := by
  refine steady_skipBlank.bind fun
    | none => steady_fail _
    | some b => ?_
  dsimp only
  split
  · exact steady_discard
  · split
    · exact steady_discard.bind fun _ => steady_skipBlank.bind fun _ => steady_fail _
    · exact steady_fail _

theorem steady_closeObject : Steady closeObject := by
  refine steady_skipBlank.bind fun
    | none => steady_fail _
    | some b => ?_
  dsimp only
  split
  · exact steady_discard
  · exact steady_fail _

end Loops

/-! ### Values -/

def compoundFrom (levels : Nat) (elements : Nat → Decoder (List α)) (close : Decoder Unit)
    (form : List α → Json) : Decoder Json :=
  if levels = 0 then fail .recursionLimit
  else discard >>= fun _ => closing (withTurns elements) close >>= fun xs => pure (form xs)

def arrayFrom (levels : Nat) : Decoder Json :=
  compoundFrom levels (fun n => items (value levels) n []) closeList .array

def objectFrom (levels : Nat) : Decoder Json :=
  compoundFrom levels (fun n => fields (value levels) n []) closeObject .object

def valueFrom (levels : Nat) (b : UInt8) : Decoder Json :=
  match Char.ofNat b.toNat with
  | 'n' => discard >>= fun _ => expect ("ull".toList.map byte) >>= fun _ => pure .null
  | 't' => discard >>= fun _ => expect ("rue".toList.map byte) >>= fun _ => pure (.bool true)
  | 'f' => discard >>= fun _ => expect ("alse".toList.map byte) >>= fun _ => pure (.bool false)
  | '-' => discard >>= fun _ => number true
  | '"' => discard >>= fun _ => stringText >>= fun s => pure (.string s)
  | '[' => arrayFrom levels
  | '{' => objectFrom levels
  | _ => if isDigitByte b then number false else fail .expectedValue

theorem value_succ (levels : Nat) : value (levels + 1) = skipBlank >>= fun
    | none => fail .endInValue
    | some b => valueFrom levels b := rfl

theorem steady_compoundFrom {elements : Nat → Decoder (List α)} {close : Decoder Unit}
    (steady : Steady (withTurns elements)) (closes : Steady close) (levels : Nat)
    (form : List α → Json) : Steady (compoundFrom levels elements close form) ∧
      ConsumesPeeked (compoundFrom levels elements close form) := by
  rw [compoundFrom]
  split
  · exact ⟨steady_fail _, ⟨nofun⟩⟩
  · have rest := (steady.closing closes).bind fun xs => steady_pure (form xs)
    exact ⟨steady_discard.bind fun _ => rest, consumesPeeked_discard rest⟩

theorem steady_valueFrom {levels : Nat} (steady : Steady (value levels))
    (consumes : Consumes (value levels)) (b : UInt8) :
    Steady (valueFrom levels b) ∧ ConsumesPeeked (valueFrom levels b) := by
  have past {f : Unit → Decoder Json} (rest : Steady (f ())) :
      Steady (discard >>= f) ∧ ConsumesPeeked (discard >>= f) :=
    ⟨steady_discard.bind fun _ => rest, consumesPeeked_discard rest⟩
  rw [valueFrom]
  split
  · exact past ((steady_expect _).bind fun _ => steady_pure _)
  · exact past ((steady_expect _).bind fun _ => steady_pure _)
  · exact past ((steady_expect _).bind fun _ => steady_pure _)
  · exact past (steady_number true)
  · exact past (steady_stringText.bind fun s => steady_pure _)
  · have loop := steady_withTurns (fun n => steady_items steady n []) fun n m c hn hm =>
      items_turns consumes hn hm
    exact steady_compoundFrom loop steady_closeList levels _
  · have loop := steady_withTurns (fun n => steady_fields steady n []) fun n m c hn hm =>
      fields_turns steady hn hm
    exact steady_compoundFrom loop steady_closeObject levels _
  · split
    · exact ⟨steady_number false, (consumes_number false).consumesPeeked⟩
    · exact ⟨steady_fail _, ⟨nofun⟩⟩

theorem steady_value (levels : Nat) : Steady (value levels) ∧ Consumes (value levels) := by
  induction levels with
  | zero => exact ⟨steady_fail _, ⟨nofun⟩⟩
  | succ levels ih =>
    have branch := steady_valueFrom ih.1 ih.2
    rw [value_succ]
    exact ⟨steady_skipBlank.bind fun
        | none => steady_fail _
        | some b => (branch b).1,
      consumes_skipBlank nofun fun b => (branch b).2⟩

theorem steady_document : Steady document := by
  refine steady_skipBlank.bind fun
    | none => steady_pure none
    | some b => (steady_value _).1.bind fun j => ?_
  split
  · exact steady_pure _
  · refine steady_peek.bind fun
      | none => steady_pure _
      | some b => ?_
    dsimp only
    split
    · exact steady_pure _
    · exact steady_fail _

end Conduit.Json.Decoder
